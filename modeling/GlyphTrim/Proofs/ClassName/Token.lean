import GlyphTrim.ClassName.Usage
import GlyphTrim.Proofs.ClassName.Resolution
import GlyphTrim.Proofs.ClassName.Template
import GlyphTrim.Proofs.Name.Map
import GlyphTrim.Proofs.Text.Token

/-!
# Names are tokens

Whatever way a name comes from the source, it is cut out at white space as the last step: after the
entities of an attribute are replaced, after a string or a key is unescaped, and after a prefix is
put in front of the value of a slot. So a resolution goes *into tokens* at each step but one: the
values of a slot, with the prefix in front, may still hold white space anywhere, and a template
cuts them again. The names that expressions and modules give are the tokens, and the classes in use
in a file are tokens (`exists_mem_values_iff_isToken`).
-/

namespace GlyphTrim.ClassName

open Text Tsx

/-! ## Resolutions into tokens -/

/-- All values are tokens. -/
def Resolution.IntoTokens (r : Resolution) : Prop := ∀ c ∈ r.values, IsToken c

namespace Resolution

theorem intoTokens_of_values_eq_nil {r : Resolution} (h : r.values = []) : r.IntoTokens := by
  intro c hc
  rw [h] at hc
  exact absurd hc List.not_mem_nil

theorem intoTokens_known_classTokens (s : String) : (known (classTokens s)).IntoTokens :=
  fun _ hc => isToken_of_mem_classTokens hc

/-- Any values can be cut into tokens. -/
theorem intoTokens_tokens (r : Resolution) : r.tokens.IntoTokens := by
  intro c hc
  obtain ⟨v, -, hc⟩ := List.mem_flatMap.1 hc
  exact isToken_of_mem_classTokens hc

theorem IntoTokens.append {a b : Resolution} (ha : a.IntoTokens) (hb : b.IntoTokens) :
    (a ++ b).IntoTokens := by
  intro c hc
  rcases List.mem_append.1 hc with hc | hc
  · exact ha c hc
  · exact hb c hc

end Resolution

open Resolution

theorem intoTokens_resolveAll {α : Type} {f : α → Resolution} (h : ∀ a, (f a).IntoTokens)
    (as : List α) : (resolveAll f as).IntoTokens := by
  induction as with
  | nil => exact intoTokens_of_values_eq_nil rfl
  | cons a as ih => exact (h a).append ih

/-! ## The parts of an expression -/

theorem intoTokens_known_freeTokens (text : String) (afterSlot beforeSlot : Bool) :
    (known (freeTokens text afterSlot beforeSlot)).IntoTokens := by
  intro c hc
  rw [values_known, freeTokens_eq] at hc
  obtain ⟨w, hw, rfl⟩ := List.mem_map.1 hc
  exact isToken_of_mem_words hw

theorem intoTokens_resolveSpans (before : String) (spans : List Span) :
    (resolveSpans before spans).IntoTokens := by
  induction spans generalizing before with
  | nil => exact intoTokens_of_values_eq_nil rfl
  | cons span rest ih =>
    obtain ⟨slot, tail⟩ := span
    have hslot := intoTokens_tokens (resolveSlot ((inferPrefix before).getD "") slot)
    have htail := intoTokens_known_freeTokens tail true !rest.isEmpty
    exact (hslot.append htail).append (ih tail)

theorem intoTokens_resolveTemplate (head : String) (spans : List Span) :
    (resolveTemplate head spans).IntoTokens :=
  (intoTokens_known_freeTokens head false !spans.isEmpty).append
    (intoTokens_resolveSpans head spans)

/-- A value that begins with white space leaves the prefix behind as a name of its own. -/
example : (resolveTemplate "x icon-" [.mk (.conditional 0 (.name 0 "on")
    (.string 0 " home") (.string 0 "off\u3000")) ""]).values =
      ["x", "icon-", "home", "icon-off"] := by
  decide

theorem intoTokens_resolveMember (m : Member) : (resolveMember m).IntoTokens := by
  unfold resolveMember
  split
  · exact intoTokens_known_classTokens _
  · exact intoTokens_of_values_eq_nil rfl
  · exact intoTokens_of_values_eq_nil rfl

theorem intoTokens_resolveArgument (a : Item) : (resolveArgument a).IntoTokens := by
  cases a with
  | spread place value => exact intoTokens_of_values_eq_nil rfl
  | hole => exact intoTokens_of_values_eq_nil rfl
  | plain e =>
    rw [resolveArgument]
    split
    · exact intoTokens_known_classTokens _
    · exact intoTokens_resolveAll intoTokens_resolveMember _
    · exact intoTokens_resolveTemplate _ _
    · exact intoTokens_of_values_eq_nil rfl

/-- An expression stands for tokens. -/
theorem intoTokens_resolve (e : Expr) : (resolve e).IntoTokens := by
  cases e with
  | wrapped place how inner types =>
    rw [resolve]
    exact intoTokens_resolve inner
  | string place value => exact intoTokens_known_classTokens value
  | conditional place test yes no =>
    rw [resolve]
    exact (intoTokens_resolve yes).append (intoTokens_resolve no)
  | template place head spans => exact intoTokens_resolveTemplate head spans
  | call place callee args types =>
    exact intoTokens_resolveAll intoTokens_resolveArgument args
  | _ => exact intoTokens_of_values_eq_nil rfl

/-! ## Attributes and files -/

theorem intoTokens_resolveAttribute (a : Attribute) : (resolveAttribute a).IntoTokens := by
  unfold resolveAttribute
  split
  · exact intoTokens_known_classTokens _
  · exact intoTokens_resolve _
  · exact intoTokens_of_values_eq_nil rfl

theorem intoTokens_usage (m : Module) : (usage m).IntoTokens :=
  intoTokens_resolveAll intoTokens_resolveAttribute _

/-- A token is all that a string of its characters stands for. -/
theorem values_resolve_string {c : String} (hc : IsToken c) (place : Nat) :
    (resolve (.string place c)).values = [c] := by
  rw [resolve, values_known, classTokens_eq_singleton_iff.2 hc]

/-- **Names are tokens.** The names that expressions can stand for are the tokens, and so are those
that the attributes of modules can stand for. Where a file holds a module, its usage is found, and
each class in use is a token. -/
theorem exists_mem_values_iff_isToken :
    (∀ c, (∃ e, c ∈ (resolve e).values) ↔ IsToken c) ∧
      (∀ c, (∃ m, c ∈ (usage m).values) ↔ IsToken c) ∧
      ∀ file code m, FileUsage.readModule file (dropMark code.toList) = .ok m →
        ∃ found, FileUsage.ofText file code = .ok found ∧
          ∀ c, found.classes.contains c = true → IsToken c := by
  have hstring : ∀ c, IsToken c → c ∈ (resolve (.string 0 c)).values := by
    intro c hc
    rw [values_resolve_string hc]
    exact List.mem_singleton_self c
  refine ⟨fun c => ⟨?_, fun hc => ?_⟩, fun c => ⟨?_, fun hc => ?_⟩, fun file code m hm => ?_⟩
  · rintro ⟨e, hc⟩
    exact intoTokens_resolve e c hc
  · exact ⟨_, hstring c hc⟩
  · rintro ⟨m, hc⟩
    exact intoTokens_usage m c hc
  · refine ⟨⟨[.attribute (.plain "className") (.expression (.string 0 c))]⟩, ?_⟩
    rw [usage, values_resolveAll]
    exact List.mem_flatMap.2 ⟨_, List.mem_singleton_self _, hstring c hc⟩
  · refine ⟨⟨NameSet.ofList (usage m).values, _⟩, by rw [FileUsage.ofText, hm]; rfl, ?_⟩
    intro c hc
    exact intoTokens_usage m c ((NameSet.contains_ofList _ _).1 hc)

/-- An attribute with a name at either side of a no-break space. -/
def noBreakTsx : String := "<i className=\"a&nbsp;b\"/>"

/-- The names are in use, and each is a token. -/
theorem isToken_of_mem_noBreakTsx :
    ∃ m, FileUsage.readModule "I.tsx" (dropMark noBreakTsx.toList) = .ok m ∧
      ∃ found, FileUsage.ofText "I.tsx" noBreakTsx = .ok found ∧
        ∀ c ∈ ["a", "b"], found.classes.contains c = true ∧ IsToken c := by
  have hall : (FileUsage.ofText "I.tsx" noBreakTsx).toOption.map
      (fun found => ["a", "b"].all found.classes.contains) = some true := by
    decide +kernel
  cases hm : FileUsage.readModule "I.tsx" (dropMark noBreakTsx.toList) with
  | error e =>
    have herror : FileUsage.ofText "I.tsx" noBreakTsx = .error e := by
      rw [FileUsage.ofText, hm]
      rfl
    simp [herror, Except.toOption] at hall
  | ok m =>
    obtain ⟨found, hfound, htoken⟩ := exists_mem_values_iff_isToken.2.2 _ _ m hm
    rw [hfound] at hall
    refine ⟨m, rfl, found, hfound, fun c hc => ?_⟩
    have hcontains : found.classes.contains c = true :=
      List.all_eq_true.1 (Option.some.inj hall) c hc
    exact ⟨hcontains, htoken c hcontains⟩

end GlyphTrim.ClassName
