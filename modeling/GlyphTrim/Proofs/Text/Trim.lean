import GlyphTrim.Text.Blank
import Mathlib.Data.List.DropRight

/-!
# Trimmed texts

White space is taken from the ends of a text only, so what stands around a character that is not
white space stays (`trimChars_append_cons`), and a part of the text that ends in such a character
is a part of the trimmed text (`infix_rdropWhile`).
-/

namespace GlyphTrim.Text

theorem dropWhile_append_cons {c : Char} (hc : isBlank c = false) (a b : List Char) :
    (a ++ c :: b).dropWhile isBlank = a.dropWhile isBlank ++ c :: b := by
  induction a with
  | nil => simp [hc]
  | cons d a ih =>
    cases hd : isBlank d with
    | true => simpa [hd] using ih
    | false => simp [hd]

theorem rdropWhile_append_cons {c : Char} (hc : isBlank c = false) (a b : List Char) :
    (a ++ c :: b).rdropWhile isBlank = a ++ c :: b.rdropWhile isBlank := by
  have hreverse : (a ++ c :: b).reverse = b.reverse ++ c :: a.reverse := by simp
  rw [List.rdropWhile, hreverse, dropWhile_append_cons hc, List.rdropWhile]
  simp

/-- White space is taken from the two ends only. -/
theorem trimChars_append_cons {c : Char} (hc : isBlank c = false) (a b : List Char) :
    trimChars (a ++ c :: b) = a.dropWhile isBlank ++ c :: b.rdropWhile isBlank := by
  have htrim : trimChars (a ++ c :: b) =
      ((a ++ c :: b).dropWhile isBlank).rdropWhile isBlank := rfl
  rw [htrim, dropWhile_append_cons hc, rdropWhile_append_cons hc]

/-- A text that is empty or ends in a character that is not white space. -/
def EndsInk (cs : List Char) : Prop := ∀ c ∈ cs.getLast?, isBlank c = false

theorem endsInk_rdropWhile (cs : List Char) : EndsInk (cs.rdropWhile isBlank) := by
  intro c hc
  have hne : cs.rdropWhile isBlank ≠ [] := by
    intro hnil
    exact absurd hc (by simp [hnil])
  obtain rfl : (cs.rdropWhile isBlank).getLast hne = c := by
    rw [List.getLast?_eq_some_getLast hne] at hc
    exact Option.some.inj hc
  simpa using List.rdropWhile_last_not isBlank cs hne

theorem rdropWhile_of_endsInk {cs : List Char} (h : EndsInk cs) : cs.rdropWhile isBlank = cs := by
  rw [List.rdropWhile_eq_self_iff]
  intro hne
  have hlast := h _ (List.getLast?_eq_some_getLast hne)
  simp [hlast]

theorem EndsInk.of_append {a b : List Char} (h : EndsInk (a ++ b)) (hb : b ≠ []) : EndsInk b := by
  intro c hc
  apply h c
  rw [List.getLast?_append_of_ne_nil a hb]
  exact hc

theorem EndsInk.append {b : List Char} (h : EndsInk b) (hb : b ≠ []) (a : List Char) :
    EndsInk (a ++ b) := by
  intro c hc
  rw [List.getLast?_append_of_ne_nil a hb] at hc
  exact h c hc

/-- White space in front of a text ends in it. -/
theorem EndsInk.dropWhile_append {a : List Char} (h : EndsInk a) (ha : a ≠ []) (b : List Char) :
    (a ++ b).dropWhile isBlank = a.dropWhile isBlank ++ b := by
  obtain ⟨a, c, rfl⟩ := (List.eq_nil_or_concat' a).resolve_left ha
  have hc : isBlank c = false := h c (by simp)
  rw [List.append_assoc, List.singleton_append, dropWhile_append_cons hc, dropWhile_append_cons hc]
  simp

theorem EndsInk.rdropWhile_append {a : List Char} (h : EndsInk a) (ha : a ≠ []) (b : List Char) :
    (a ++ b).rdropWhile isBlank = a ++ b.rdropWhile isBlank := by
  obtain ⟨a, c, rfl⟩ := (List.eq_nil_or_concat' a).resolve_left ha
  have hc : isBlank c = false := h c (by simp)
  rw [List.append_assoc, List.singleton_append, rdropWhile_append_cons hc]
  simp

theorem trimChars_append_blank {c : Char} (hc : isBlank c = true) (cs : List Char) :
    trimChars (cs ++ [c]) = trimChars cs := by
  have htrim : ∀ cs, trimChars cs = (cs.dropWhile isBlank).rdropWhile isBlank := fun _ => rfl
  rw [htrim, htrim, List.dropWhile_append]
  cases hdrop : cs.dropWhile isBlank with
  | nil => simp [hc]
  | cons d ds =>
    have hdropped : (d :: ds ++ [c]).rdropWhile isBlank = (d :: ds).rdropWhile isBlank := by
      rw [List.rdropWhile_concat_pos _ _ _ hc]
    simpa using hdropped

theorem trimChars_of_blank {cs : List Char} (h : ∀ c ∈ cs, isBlank c = true) :
    trimChars cs = [] := by
  have hdrop : cs.dropWhile isBlank = [] := List.dropWhile_eq_nil_iff.2 h
  simp [trimChars, hdrop]

/-- A text that ends in no white space is cut in front only. -/
theorem trimChars_of_endsInk {cs : List Char} (h : EndsInk cs) :
    trimChars cs = cs.dropWhile isBlank := by
  have htrim : trimChars cs = (cs.dropWhile isBlank).rdropWhile isBlank := rfl
  rw [htrim]
  by_cases hne : cs.dropWhile isBlank = []
  · rw [hne]
    rfl
  · rw [← List.takeWhile_append_dropWhile (p := isBlank) (l := cs)] at h
    exact rdropWhile_of_endsInk (h.of_append hne)

theorem endsInk_trimChars (cs : List Char) : EndsInk (trimChars cs) :=
  endsInk_rdropWhile (cs.dropWhile isBlank)

/-- A text is the trimmed text with white space around it. -/
theorem exists_trimChars (cs : List Char) : ∃ b e, cs = b ++ (trimChars cs ++ e) ∧
    (∀ c ∈ b, isBlank c = true) ∧ ∀ c ∈ e, isBlank c = true := by
  have htrim : trimChars cs = (cs.dropWhile isBlank).rdropWhile isBlank := rfl
  refine ⟨cs.takeWhile isBlank, (cs.dropWhile isBlank).rtakeWhile isBlank, ?_, ?_, ?_⟩
  · rw [htrim, List.rdropWhile_append_rtakeWhile, List.takeWhile_append_dropWhile]
  · exact fun c hc => List.mem_takeWhile_imp hc
  · exact fun c hc => List.mem_rtakeWhile_imp hc

theorem dropWhile_rdropWhile (cs : List Char) :
    (cs.rdropWhile isBlank).dropWhile isBlank = (cs.dropWhile isBlank).rdropWhile isBlank := by
  have hcs : cs.takeWhile isBlank ++ cs.dropWhile isBlank = cs := List.takeWhile_append_dropWhile
  cases hdrop : cs.dropWhile isBlank with
  | nil =>
    have hnil : cs.rdropWhile isBlank = [] :=
      List.rdropWhile_eq_nil_iff.2 (List.dropWhile_eq_nil_iff.1 hdrop)
    rw [hnil]
    rfl
  | cons d w =>
    have hd : isBlank d = false := by
      have h := List.head?_dropWhile_not isBlank cs
      rw [hdrop] at h
      simpa using h
    have hblanks : ∀ c ∈ cs.takeWhile isBlank, isBlank c = true := fun c hc =>
      List.mem_takeWhile_imp hc
    have hcons := rdropWhile_append_cons hd [] w
    rw [List.nil_append] at hcons
    rw [← hcs, hdrop, rdropWhile_append_cons hd, List.dropWhile_append_of_pos hblanks,
      List.dropWhile_cons_of_neg (by simp [hd]), hcons]
    rfl

/-- White space may be taken from an end first. -/
theorem trimChars_rdropWhile (cs : List Char) : trimChars (cs.rdropWhile isBlank) = trimChars cs := by
  have htrim : ∀ cs, trimChars cs = (cs.dropWhile isBlank).rdropWhile isBlank := fun _ => rfl
  rw [htrim, htrim, dropWhile_rdropWhile, List.rdropWhile_idempotent]

theorem trimChars_dropWhile (cs : List Char) : trimChars (cs.dropWhile isBlank) = trimChars cs := by
  rw [trimChars, List.dropWhile_idempotent, trimChars]

/-- What a trimmed text begins with does not depend on what stands behind it. -/
theorem head?_trimChars_append {a : List Char} (ha : trimChars a ≠ []) (b : List Char) :
    (trimChars (a ++ b)).head? = (trimChars a).head? := by
  have hsplit : a.takeWhile isBlank ++ a.dropWhile isBlank = a := List.takeWhile_append_dropWhile
  have hblanks : (a.takeWhile isBlank).dropWhile isBlank = [] :=
    List.dropWhile_eq_nil_iff.2 fun c hc => List.mem_takeWhile_imp hc
  have hhead := List.head?_dropWhile_not isBlank a
  generalize a.takeWhile isBlank = blanks at *
  cases hdrop : a.dropWhile isBlank with
  | nil =>
    rw [trimChars, hdrop] at ha
    exact absurd rfl ha
  | cons d w =>
    have hd : isBlank d = false := by
      rw [hdrop] at hhead
      simpa using hhead
    rw [← hsplit, hdrop, List.append_assoc, List.cons_append, trimChars_append_cons hd,
      trimChars_append_cons hd, hblanks]
    rfl

theorem trimChars_append_of_blank {e : List Char} (he : ∀ c ∈ e, isBlank c = true)
    (cs : List Char) : trimChars (cs ++ e) = trimChars cs := by
  induction e using List.reverseRecOn with
  | nil => rw [List.append_nil]
  | append_singleton e c ih =>
    rw [← List.append_assoc, trimChars_append_blank (he c (by simp))]
    exact ih fun d hd => he d (by simp [hd])

theorem trimChars_of_blank_append {b : List Char} (hb : ∀ c ∈ b, isBlank c = true)
    (cs : List Char) : trimChars (b ++ cs) = trimChars cs := by
  rw [trimChars, List.dropWhile_append_of_pos hb, trimChars]

/-- Behind white space a text begins with the next character. -/
theorem head?_trimChars_append_cons {a : List Char} (ha : trimChars a = []) {c : Char}
    (hc : isBlank c = false) (b : List Char) : (trimChars (a ++ c :: b)).head? = some c := by
  have hblanks : a.dropWhile isBlank = [] := by
    obtain ⟨x, y, heq, hx, hy⟩ := exists_trimChars a
    rw [List.dropWhile_eq_nil_iff, heq, ha]
    simpa [or_imp, forall_and] using ⟨hx, hy⟩
  rw [trimChars_append_cons hc, hblanks]
  rfl

/-! ## Texts put together -/

theorem endsInk_flatMap {α : Type} {f : α → List Char} {l : List α}
    (h : ∀ a ∈ l, EndsInk (f a) ∧ f a ≠ []) : EndsInk (l.flatMap f) := by
  obtain rfl | ⟨l, a, rfl⟩ := l.eq_nil_or_concat'
  · exact fun c hc => absurd hc (by simp)
  · obtain ⟨hink, hne⟩ := h a (by simp)
    rw [List.flatMap_append, List.flatMap_singleton]
    exact hink.append hne _

theorem toList_intercalate_cons (sep s : String) (ss : List String) :
    (sep.intercalate (s :: ss)).toList =
      s.toList ++ ss.flatMap fun t => sep.toList ++ t.toList := by
  induction ss generalizing s with
  | nil => simp
  | cons t ss ih =>
    rw [String.intercalate_cons_cons, String.toList_append, String.toList_append, ih]
    simp

theorem toList_join_append_newline (s : String) (ss : List String) :
    (String.join ((s :: ss).map (· ++ "\n"))).toList =
      s.toList ++ ss.flatMap (fun t => '\n' :: t.toList) ++ ['\n'] := by
  induction ss generalizing s with
  | nil => simp
  | cons t ss ih =>
    have hjoin : (String.join ((s :: t :: ss).map (· ++ "\n"))).toList =
        s.toList ++ '\n' :: (String.join ((t :: ss).map (· ++ "\n"))).toList := by
      simp [String.toList_join]
    rw [hjoin, ih]
    simp

/-- Texts on lines of their own, without the white space around them all. -/
theorem toList_trim_join {s : String} {ss : List String}
    (h : ∀ t ∈ s :: ss, EndsInk t.toList ∧ t.toList ≠ []) :
    (trim (String.join ((s :: ss).map (· ++ "\n")))).toList =
      s.toList.dropWhile isBlank ++ ss.flatMap fun t => '\n' :: t.toList := by
  have hlines : ∀ t ∈ ss, EndsInk ('\n' :: t.toList) ∧ '\n' :: t.toList ≠ [] := by
    intro t ht
    obtain ⟨hink, hne⟩ := h t (List.mem_cons_of_mem s ht)
    exact ⟨hink.append hne ['\n'], List.cons_ne_nil _ _⟩
  obtain ⟨hink, hne⟩ := h s List.mem_cons_self
  have hwhole : EndsInk (s.toList ++ ss.flatMap fun t => '\n' :: t.toList) := by
    by_cases hnil : ss.flatMap (fun t => '\n' :: t.toList) = []
    · rwa [hnil, List.append_nil]
    · exact (endsInk_flatMap hlines).append hnil s.toList
  rw [trim, String.toList_ofList, toList_join_append_newline, trimChars_append_blank (by decide),
    trimChars_of_endsInk hwhole, hink.dropWhile_append hne]

/-! ## Parts of a trimmed text -/

/-- A part of a text that ends in no white space is not cut. -/
theorem infix_rdropWhile {w cs : List Char} (hw : w <:+: cs) (hink : EndsInk w) :
    w <:+: cs.rdropWhile isBlank := by
  rcases w.eq_nil_or_concat with rfl | ⟨w, c, rfl⟩
  · exact List.nil_infix
  · obtain ⟨a, b, rfl⟩ := hw
    have hc : isBlank c = false := hink c (by simp)
    refine ⟨a, b.rdropWhile isBlank, ?_⟩
    have := rdropWhile_append_cons hc (a ++ w) b
    simpa using this.symm

/-- A part behind a character that is not white space is not cut in front either. -/
theorem infix_trimChars {w a b : List Char} {c : Char} (hc : isBlank c = false) (hw : w <:+: b)
    (hink : EndsInk w) : w <:+: trimChars (a ++ c :: b) := by
  rw [trimChars_append_cons hc]
  have hcut : w <:+: b.rdropWhile isBlank := infix_rdropWhile hw hink
  exact hcut.trans ⟨a.dropWhile isBlank ++ [c], [], by simp⟩

theorem infix_intercalate {sep s : String} {ss : List String} (h : s ∈ ss) :
    s.toList <:+: (sep.intercalate ss).toList := by
  induction ss with
  | nil => exact absurd h (by simp)
  | cons t ss ih =>
    cases ss with
    | nil =>
      obtain rfl := List.mem_singleton.1 h
      simp
    | cons u ss =>
      rw [String.intercalate_cons_cons, String.toList_append, String.toList_append]
      rcases List.mem_cons.1 h with rfl | h
      · exact ⟨[], sep.toList ++ (sep.intercalate (u :: ss)).toList, by simp⟩
      · exact (ih h).trans (List.suffix_append _ _).isInfix

end GlyphTrim.Text
