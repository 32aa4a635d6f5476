import GlyphTrim.Proofs.Css.Ending
import GlyphTrim.Proofs.Css.Reading
import GlyphTrim.Proofs.Css.Slice

/-!
# The last token of a text

One more character of white space or a brace at the end of a text changes no token of it but the
last (`ends_read`). So the tokens of the two texts agree up to a few that neither begin nor end a
statement or a block (`exists_tokensFrom_concat`).
-/

namespace GlyphTrim.Css

open Text

variable {b c : Char} {cs : List Char}

/-! ## How a token ends -/

/-- Kinds of tokens that are neither white space nor marks. -/
def Kind.IsPlain : Kind → Prop
  | .string | .badString _ | .badUrl _ | .other => True
  | _ => False

/-- Plain tokens of which the longer one has no fault less. -/
def PlainKinds (k k' : Kind) : Prop := k.IsPlain ∧ k'.IsPlain ∧ (k'.fault? = none → k.fault? = none)

/-- Both texts end with a plain token and next to nothing behind it. -/
def SpendsPlain (b : Char) (cs : List Char) (x y : Kind × Nat) : Prop :=
  Spends b cs x.2 y.2 ∧ PlainKinds x.1 y.1

/-- Both texts end with white space or a comment. -/
def OverTrivia (cs : List Char) (x y : Kind × Nat) : Prop :=
  Over cs x.2 y.2 ∧ y.1 = x.1 ∧ (x.1 = .space ∨ x.1 = .comment)

/-- How two texts end whose last tokens differ. -/
def EndsToken (b : Char) (cs : List Char) (x y : Kind × Nat) : Prop :=
  OverTrivia cs x y ∨ SpendsPlain b cs x y

theorem Ends.kind {f : List Char → Nat} (h : Ends b id (Spends b) f cs) :
    Ends b (·.2) (SpendsPlain b) (fun ds => (Kind.other, f ds)) cs := by
  rcases h with ⟨heq, hle⟩ | h
  · exact ends_of_eq (congrArg (Prod.mk Kind.other) heq) hle
  · exact .inr ⟨h, trivial, trivial, id⟩

theorem Spends.sub_one {n m : Nat} (h : Spends b (c :: cs) n m) : Spends b cs (n - 1) (m - 1) := by
  obtain ⟨hn, hm⟩ := h
  constructor
  · cases n with
    | zero => exact .inl (by rcases hn with hn | hn <;> simp_all)
    | succ n => exact hn
  · cases m with
    | zero =>
      rcases hm with hm | ⟨hbreak, hm | hm⟩
      · exact absurd hm (by simp)
      · exact absurd (congrArg List.length hm) (by simp)
      · refine .inr ⟨hbreak, .inl ?_⟩
        exact (List.cons.inj hm).2
    | succ m => exact hm

theorem Ends.sub_one {f : List Char → Nat} (h : Ends b id (Spends b) f (c :: cs)) :
    Ends b id (Spends b) (fun ds => f (c :: ds) - 1) cs := by
  rcases h with ⟨heq, hle⟩ | h
  · refine ends_of_eq (congrArg (· - 1) heq) ?_
    rw [id_eq, List.length_cons] at hle
    rw [id_eq]
    omega
  · exact .inr h.sub_one

theorem readString_eq (quote : Char) (cs : List Char) : readString quote cs =
    (if (stringLength quote 0 cs).2 = true then .badString (String.ofList (stringText quote 0 cs))
      else .string, (stringLength quote 0 cs).1) := by
  unfold readString
  simp only
  split <;> rfl

theorem ends_readString (hb : IsTrailing b) {quote : Char} (hquote : ¬IsTrailing quote)
    (hslash : quote ≠ '\\') (cs : List Char) :
    Ends b (·.2) (SpendsPlain b) (readString quote) cs := by
  rcases ends_stringLength hb hquote hslash 0 cs with ⟨heq, hle⟩ | ⟨hspends, hfault⟩
  · refine ends_of_eq ?_ (by rw [readString_eq]; exact hle)
    rw [readString_eq, readString_eq, heq]
    cases hbad : (stringLength quote 0 cs).2 with
    | true => rw [stringText_concat hb hslash hbad]
    | false => rfl
  · refine .inr ?_
    rw [readString_eq, readString_eq, hfault]
    refine ⟨hspends, trivial, ?_, fun _ => rfl⟩
    dsimp only
    split <;> trivial

/-- The token of an address behind `d` characters of white space. -/
def addressToken (d : Nat) (rest : List Char) : Kind × Nat :=
  (if (urlLength 0 rest).2 = true then
      .badUrl (String.ofList (rest.take (urlLength 0 rest).1)) else .other,
    d + (urlLength 0 rest).1 + if (rest.drop (urlLength 0 rest).1).isEmpty = true then 0 else 1)

theorem ends_addressToken (hb : IsTrailing b) (d : Nat) (rest : List Char) :
    addressToken d (rest ++ [b]) = addressToken d rest ∧
        (addressToken d rest).2 ≤ d + rest.length ∨
      (d + rest.length ≤ (addressToken d rest).2 ∧
        d + rest.length + 1 ≤ (addressToken d (rest ++ [b])).2) ∧
        PlainKinds (addressToken d rest).1 (addressToken d (rest ++ [b])).1 := by
  have hkinds : ∀ (x y : Nat × Bool) (u v : String), (x.2 = true → y.2 = true) →
      PlainKinds (if x.2 = true then .badUrl u else .other)
        (if y.2 = true then .badUrl v else .other) := by
    rintro ⟨n, _ | _⟩ ⟨m, _ | _⟩ u v h
    · exact ⟨trivial, trivial, id⟩
    · exact ⟨trivial, trivial, fun _ => rfl⟩
    · exact absurd (h rfl) (by simp)
    · exact ⟨trivial, trivial, fun h => absurd h (by simp [Kind.fault?])⟩
  rcases ends_urlLength hb 0 rest with ⟨heq, hle⟩ | ⟨⟨hle, hle'⟩, hfault⟩
  · have hempty : ((rest ++ [b]).drop (urlLength 0 rest).1).isEmpty = false := by
      rw [List.drop_append_of_le_length hle]
      simp
    by_cases hend : rest.drop (urlLength 0 rest).1 = []
    · refine .inr ⟨⟨?_, ?_⟩, hkinds _ _ _ _ (by rw [heq]; exact id)⟩
      · have hlength := List.drop_eq_nil_iff.1 hend
        simp only [addressToken]
        omega
      · have hlength := List.drop_eq_nil_iff.1 hend
        simp only [addressToken, heq, hempty]
        simp only [Bool.false_eq_true, if_false]
        omega
    · refine .inl ⟨?_, ?_⟩
      · have hempty' : (rest.drop (urlLength 0 rest).1).isEmpty = false := by simpa using hend
        simp only [addressToken, heq, hempty, hempty', List.take_append_of_le_length hle]
      · have hlength : ¬rest.length ≤ (urlLength 0 rest).1 := fun h =>
          hend (List.drop_eq_nil_iff.2 h)
        simp only [addressToken]
        split_ifs <;> omega
  · refine .inr ⟨⟨?_, ?_⟩, hkinds _ _ _ _ hfault⟩ <;> simp only [addressToken] <;> omega

theorem readUrl_eq (cs : List Char)
    (h : ∀ q ∈ (cs.drop (cs.takeWhile isSpace).length).head?, ¬(q = '"' ∨ q = '\'')) :
    readUrl cs = some (addressToken (cs.takeWhile isSpace).length
      (cs.drop (cs.takeWhile isSpace).length)) :=
  readUrl_of_not_quote rfl h

theorem ends_spaces (b : Char) (cs : List Char) :
    Ends b id Over (fun ds => (ds.takeWhile isSpace).length) cs := by
  by_cases hcs : (cs.takeWhile isSpace).length = cs.length
  · have htake : ((cs ++ [b]).takeWhile isSpace).length =
        cs.length + ([b].takeWhile isSpace).length := by
      rw [List.takeWhile_append, if_pos hcs, List.length_append]
    cases hspace : isSpace b with
    | true => exact .inr ⟨hcs.ge, (by simpa [hspace] using htake : _ = cs.length + 1).ge⟩
    | false => exact ends_of_eq (by simpa [hspace, hcs] using htake) hcs.le
  · refine ends_of_eq ?_ (List.takeWhile_sublist _).length_le
    simp only [List.takeWhile_append, if_neg hcs]

theorem readUrl_of_spaces (h : cs.length ≤ (cs.takeWhile isSpace).length) :
    readUrl cs = some (.other, cs.length) := by
  have htake : cs.takeWhile isSpace = cs := (List.takeWhile_sublist _).eq_of_length_le h
  have hread := readUrl_eq cs (by rw [htake]; simp)
  rw [htake, List.drop_length] at hread
  exact hread

/-- A quote stands at the start of both addresses or of none, and where they differ both go over the
end. -/
theorem ends_readUrl (hb : IsTrailing b) (cs : List Char) :
    readUrl cs = none ∧ readUrl (cs ++ [b]) = none ∨
      ∃ x y, readUrl cs = some x ∧ readUrl (cs ++ [b]) = some y ∧
        (y = x ∧ x.2 ≤ cs.length ∨ Over cs x.2 y.2 ∧ PlainKinds x.1 y.1) := by
  have hquote : ¬(b = '"' ∨ b = '\'') := by
    rintro (h | h)
    · exact hb.ne (by decide) h
    · exact hb.ne (by decide) h
  rcases ends_spaces b cs with ⟨hspaces, hlength⟩ | ⟨hspaces, hspaces'⟩
  · simp only [id_eq] at hspaces hlength
    have hwhole : (cs.takeWhile isSpace).length + (cs.drop (cs.takeWhile isSpace).length).length =
        cs.length := by
      rw [List.length_drop]
      exact Nat.add_sub_cancel' hlength
    have hdrop : (cs ++ [b]).drop ((cs ++ [b]).takeWhile isSpace).length =
        cs.drop (cs.takeWhile isSpace).length ++ [b] := by
      rw [hspaces, List.drop_append_of_le_length hlength]
    by_cases hhead : ∃ q rest, cs.drop (cs.takeWhile isSpace).length = q :: rest ∧
        (q = '"' ∨ q = '\'')
    · obtain ⟨q, rest, hrest, hq⟩ := hhead
      rw [hrest, List.cons_append] at hdrop
      exact .inl ⟨readUrl_of_quote hrest hq, readUrl_of_quote hdrop hq⟩
    · have hread := readUrl_eq cs fun q hq hquote => by
        obtain ⟨rest, hrest⟩ := List.head?_eq_some_iff.1 hq
        exact hhead ⟨q, rest, hrest, hquote⟩
      have hread' := readUrl_eq (cs ++ [b]) fun q hq hq' => by
        rw [hdrop] at hq
        have hmem := mem_head?_of_concat hq (by rintro rfl; exact hquote hq')
        obtain ⟨rest, hrest⟩ := List.head?_eq_some_iff.1 hmem
        exact hhead ⟨q, rest, hrest, hq'⟩
      rw [hdrop, hspaces] at hread'
      refine .inr ⟨_, _, hread, hread', ?_⟩
      have hends := ends_addressToken hb (cs.takeWhile isSpace).length
        (cs.drop (cs.takeWhile isSpace).length)
      rw [hwhole] at hends
      exact hends
  · have hlength : (cs ++ [b]).length = cs.length + 1 := by simp
    refine .inr ⟨_, _, readUrl_of_spaces hspaces, readUrl_of_spaces (by rwa [hlength]), .inr ?_⟩
    exact ⟨⟨Nat.le_refl _, hlength.ge⟩, trivial, trivial, id⟩

/-- A name at the end of a text calls no function. -/
theorem readName_of_spends {n m : Nat} (h : Spends b cs n m) (hb : IsTrailing b)
    (hn : nameLength 0 (c :: cs) - 1 = n) (hm : nameLength 0 (c :: (cs ++ [b])) - 1 = m) :
    readName c cs = (.other, n) ∧ readName c (cs ++ [b]) = (.other, m) := by
  obtain ⟨hcs, hcs'⟩ := h
  constructor
  · rw [← hn] at hcs ⊢
    refine readName_of_not_round fun d hd => ?_
    rcases hcs with hcs | hcs <;> rw [hcs] at hd
    · exact absurd hd (by simp)
    · rw [← Option.some.inj hd]
      decide
  · rw [← hm] at hcs' ⊢
    refine readName_of_not_round fun d hd => ?_
    rcases hcs' with hcs' | ⟨-, hcs' | hcs'⟩ <;> rw [hcs'] at hd
    · exact absurd hd (by simp)
    · rw [← Option.some.inj hd]
      exact hb.ne (by decide)
    · rw [← Option.some.inj hd]
      decide

/-- The token of a name and a parenthesis behind its `n` characters after the first one. -/
def roundToken (url : Bool) (n : Nat) (rest : List Char) : Kind × Nat :=
  if url = true then
    match readUrl rest with
    | some (kind, more) => (kind, n + 1 + more)
    | none => (.opening .round, n + 1)
  else (.opening .round, n + 1)

theorem readName_of_round {rest : List Char}
    (h : cs.drop (nameLength 0 (c :: cs) - 1) = '(' :: rest) :
    readName c cs = roundToken (isUrlName (c :: cs)) (nameLength 0 (c :: cs) - 1) rest := by
  unfold readName
  simp only [h]
  rfl

theorem ends_roundToken (hb : IsTrailing b) (url : Bool) {n : Nat} {rest : List Char}
    (h : cs.drop n = '(' :: rest) :
    roundToken url n (rest ++ [b]) = roundToken url n rest ∧
        (roundToken url n rest).2 ≤ cs.length ∨
      SpendsPlain b cs (roundToken url n rest) (roundToken url n (rest ++ [b])) := by
  have hlength := congrArg List.length h
  rw [List.length_drop, List.length_cons] at hlength
  cases url with
  | false =>
    have hle : n + 1 ≤ cs.length := by omega
    exact .inl ⟨rfl, hle⟩
  | true =>
    rcases ends_readUrl hb rest with ⟨hnone, hnone'⟩ | ⟨x, y, hx, hy, ⟨rfl, hle⟩ | ⟨hover, hkinds⟩⟩
    · refine .inl ?_
      simp only [roundToken, hnone, hnone', if_true, true_and]
      omega
    · refine .inl ?_
      simp only [roundToken, hx, hy, if_true, true_and]
      omega
    · refine .inr ?_
      simp only [roundToken, hx, hy, if_true]
      refine ⟨Over.spends ⟨?_, ?_⟩ b, hkinds⟩
      · have := hover.1
        dsimp only
        omega
      · have := hover.2
        dsimp only
        omega

theorem ends_readName (hb : IsTrailing b) (c : Char) (cs : List Char) :
    Ends b (·.2) (SpendsPlain b) (readName c) cs := by
  rcases (ends_nameLength hb 0 (c :: cs)).sub_one with ⟨heq, hle⟩ | h
  · simp only [id_eq] at heq hle
    have hdrop : (cs ++ [b]).drop (nameLength 0 (c :: (cs ++ [b])) - 1) =
        cs.drop (nameLength 0 (c :: cs) - 1) ++ [b] := by
      rw [heq, List.drop_append_of_le_length hle]
    by_cases hround : ∃ rest, cs.drop (nameLength 0 (c :: cs) - 1) = '(' :: rest
    · obtain ⟨rest, hrest⟩ := hround
      have hlength := congrArg List.length hrest
      rw [List.length_drop, List.length_cons] at hlength
      have htext : nameText 0 (c :: cs ++ [b]) = nameText 0 (c :: cs) :=
        nameText_concat hb (by rw [List.length_cons]; omega)
      have hurl : isUrlName (c :: (cs ++ [b])) = isUrlName (c :: cs) :=
        congrArg (fun text => text.map Char.toLower == ['u', 'r', 'l']) htext
      have hread := readName_of_round hrest
      rw [hrest, List.cons_append] at hdrop
      have hread' := readName_of_round hdrop
      rw [hurl, heq] at hread'
      have hends := ends_roundToken hb (isUrlName (c :: cs)) hrest
      rw [← hread, ← hread'] at hends
      exact hends
    · have hread : readName c cs = (.other, nameLength 0 (c :: cs) - 1) := by
        refine readName_of_not_round fun d hd hd' => hround ?_
        rw [hd'] at hd
        exact List.head?_eq_some_iff.1 hd
      have hread' : readName c (cs ++ [b]) = (.other, nameLength 0 (c :: (cs ++ [b])) - 1) := by
        refine readName_of_not_round fun d hd hd' => ?_
        rw [hdrop, hd'] at hd
        exact hround (List.head?_eq_some_iff.1 (mem_head?_of_concat hd (hb.ne (by decide))))
      refine ends_of_eq ?_ ?_
      · rw [hread, hread', heq]
      · rw [hread]
        exact hle
  · obtain ⟨hread, hread'⟩ := readName_of_spends (c := c) h hb rfl rfl
    refine .inr ?_
    rw [hread, hread']
    exact ⟨h, trivial, trivial, id⟩

/-- What follows a hash. -/
theorem ends_hash (hb : IsTrailing b) (cs : List Char) :
    Ends b (·.2) (SpendsPlain b) (fun cs =>
      match cs with
      | d :: _ =>
        if atName cs || d.isDigit || d == '-' then (Kind.other, nameLength 0 cs)
        else (Kind.other, 0)
      | [] => (Kind.other, 0)) cs := by
  cases cs with
  | nil =>
    have hminus : (b == '-') = false := beq_false_of_ne (hb.ne (by decide))
    refine (ends_nameLength_of_atName hb []).kind.congr rfl ?_
    simp only [List.nil_append, hb.isDigit_eq_false, hminus, Bool.or_false]
    split <;> rfl
  | cons d cs =>
    by_cases hname : (d.isDigit || d == '-') = true
    · refine (ends_nameLength hb 0 (d :: cs)).kind.congr ?_ ?_ <;>
        simp only [List.cons_append, Bool.or_assoc, hname, Bool.or_true, if_true]
    · refine (ends_nameLength_of_atName hb (d :: cs)).kind.congr ?_ ?_ <;>
        simp only [List.cons_append, Bool.or_assoc, hname, Bool.or_false] <;> split <;> rfl

/-- A token of one character, which goes on with what stands behind it or not. -/
theorem ends_of_other {f : List Char → Kind × Nat} (h : f [] = (.other, 0))
    (h' : (f [b]).1 = .other) : Ends b (·.2) (SpendsPlain b) f [] := by
  obtain ⟨m, hm⟩ : ∃ m, f [b] = (.other, m) := ⟨_, Prod.ext h' rfl⟩
  cases m with
  | zero => exact ends_of_eq (hm.trans h.symm) (by rw [h]; exact Nat.zero_le _)
  | succ m =>
    refine .inr ?_
    rw [List.nil_append, h, hm]
    exact ⟨Over.spends ⟨Nat.le_refl _, Nat.succ_le_succ (Nat.zero_le m)⟩ b, trivial, trivial, id⟩

/-- A token that begins with a name, or a mark. -/
theorem ends_readName_of_atName (hb : IsTrailing b) (c : Char) (cs : List Char) :
    Ends b (·.2) (SpendsPlain b)
      (fun ds => if atName (c :: ds) = true then readName c ds else (.other, 0)) cs := by
  by_cases hnil : cs = []
  · have hread : readName c [] = (.other, 0) := by
      rw [readName_of_not_round (by simp)]
      simp only [nameLength]
      split_ifs <;> rfl
    have hread' : readName c [b] = (.other, nameLength 0 [c, b] - 1) := by
      refine readName_of_not_round fun d hd => ?_
      have hmem := List.mem_of_mem_drop (List.mem_of_mem_head? hd)
      rw [List.mem_singleton.1 hmem]
      exact hb.ne (by decide)
    rw [hnil]
    refine ends_of_other ?_ ?_
    · rw [hread, ite_self]
    · rw [hread']
      split_ifs <;> rfl
  · have hat : atName (c :: (cs ++ [b])) = atName (c :: cs) :=
      atName_concat (List.cons_ne_nil c cs) (fun h => hnil (List.cons.inj h).2)
        fun h => hnil (List.cons.inj h).2
    exact Ends.ite (p := fun ds => atName (c :: ds)) hat (fun _ => ends_readName hb c cs) fun _ =>
      ends_of_eq rfl (Nat.zero_le _)

theorem take_concat_beq {w : List Char} (hw : b ∉ w) (cs : List Char) :
    ((cs ++ [b]).take w.length == w) = (cs.take w.length == w) := by
  by_cases hle : w.length ≤ cs.length
  · rw [List.take_append_of_le_length hle]
  · have hne : cs.take w.length ≠ w := by
      intro h
      have hlength := congrArg List.length h
      rw [List.length_take] at hlength
      omega
    have hne' : (cs ++ [b]).take w.length ≠ w := by
      intro h
      have hall : (cs ++ [b]).take w.length = cs ++ [b] :=
        List.take_of_length_le (by rw [List.length_append]; exact Nat.lt_of_not_le hle)
      refine hw ?_
      rw [← h, hall]
      simp
    rw [beq_false_of_ne hne, beq_false_of_ne hne']

theorem length_le_of_take_beq {w : List Char} (h : (cs.take w.length == w) = true) :
    w.length ≤ cs.length := by
  have hlength := congrArg List.length (eq_of_beq h)
  rw [List.length_take] at hlength
  omega

/-- **The last token** of a text is the one of the longer text, or both texts end with it. -/
theorem ends_read (hb : IsTrailing b) (c : Char) (cs : List Char) :
    Ends b (·.2) (EndsToken b) (read c) cs := by
  have hplain : ∀ {f : List Char → Kind × Nat}, Ends b (·.2) (SpendsPlain b) f cs →
      Ends b (·.2) (EndsToken b) f cs := fun h => h.mono fun _ _ => .inr
  have hdash : b ≠ '-' := hb.ne (by decide)
  have hmark : ∀ {r : Kind × Nat}, r.2 = 0 → Ends b (·.2) (EndsToken b) (fun _ => r) cs :=
    fun h => ends_of_eq rfl (h.trans_le (Nat.zero_le _))
  have htrivia : ∀ {f : List Char → Nat} {k : Kind}, k = .space ∨ k = .comment →
      Ends b id Over f cs → Ends b (·.2) (EndsToken b) (fun ds => (k, f ds)) cs := by
    rintro f k hk (⟨heq, hle⟩ | h)
    · exact ends_of_eq (congrArg (Prod.mk k) heq) hle
    · exact .inr (.inl ⟨h, rfl, hk⟩)
  refine .ite_const (fun _ => htrivia (.inl rfl) (ends_spaces b cs)) fun _ => ?_
  refine .ite_const (fun hc => hplain (ends_readString hb ?_ ?_ cs)) fun _ => ?_
  · rintro h
    have hc' : c = '"' ∨ c = '\'' := by simpa using hc
    revert h
    rcases hc' with rfl | rfl <;> decide
  · have hc' : c = '"' ∨ c = '\'' := by simpa using hc
    rcases hc' with rfl | rfl <;> decide
  iterate 7 refine .ite_const (fun _ => hmark rfl) fun _ => ?_
  refine .ite ?_ (fun hstar => ?_) fun _ => ?_
  · exact congrArg (c == '/' && ·) (head?_concat_beq (hb.ne (by decide)) cs)
  · obtain ⟨cs, rfl⟩ : ∃ ds, cs = '*' :: ds := by
      simp only [Bool.and_eq_true, beq_iff_eq] at hstar
      exact List.head?_eq_some_iff.1 hstar.2
    exact htrivia (.inr rfl) ((ends_commentLength hb cs).succ rfl rfl fun _ _ h => h.cons '*')
  refine .ite_const (fun _ => hplain (ends_hash hb cs)) fun _ => ?_
  refine .ite_const (fun _ => hplain (ends_nameLength_of_atName hb cs).kind) fun _ => ?_
  refine .ite_const (fun _ => hplain (ends_numberLength hb (c :: cs)).sub_one.kind) fun _ => ?_
  refine .ite_const (fun _ => hplain (Ends.ite (startsDigit_concat hb cs)
    (fun _ => (ends_numberLength hb (c :: cs)).sub_one)
    fun _ => ends_of_eq rfl (Nat.zero_le _)).kind) fun _ => ?_
  refine .ite_const (fun _ => hplain (Ends.ite (startsNumber_concat hb cs)
    (fun _ => ends_numberLength hb cs) fun _ => ends_of_eq rfl (Nat.zero_le _)).kind) fun _ => ?_
  refine .ite ?_ (fun h => ?_) fun _ => ?_
  · have hw : b ∉ ['!', '-', '-'] := by simp [hb.ne (c := '!') (by decide), hdash]
    exact congrArg (c == '<' && ·) (take_concat_beq hw cs)
  · simp only [Bool.and_eq_true] at h
    exact ends_of_eq rfl (length_le_of_take_beq (w := ['!', '-', '-']) h.2)
  refine .ite_const (fun _ => ?_) fun _ => hplain (ends_readName_of_atName hb c cs)
  refine .ite (startsNumber_concat hb cs) (fun _ => hplain (ends_numberLength hb cs).kind)
    fun _ => ?_
  refine .ite ?_ (fun h => ?_) fun _ => hplain (ends_readName_of_atName hb c cs)
  · have hw : b ∉ ['-', '>'] := by simp [hb.ne (c := '>') (by decide), hdash]
    exact take_concat_beq hw cs
  · exact ends_of_eq rfl (length_le_of_take_beq (w := ['-', '>']) h)

/-! ## The last tokens -/

/-- The tokens that a text and the longer text end with where they differ. -/
inductive EndTokens : List Token → List Token → Prop
  | trivia {t t' : Token} (hkind : t'.kind = t.kind) (ht : t.kind = .space ∨ t.kind = .comment)
      (hlocation : t'.location = t.location) : EndTokens [t] [t']
  | plain {t t' : Token} {ts ts' : List Token} (hkinds : PlainKinds t.kind t'.kind)
      (hlocation : t'.location = t.location)
      (hts : ∀ u ∈ ts, u.kind = .space ∨ u.kind = .other)
      (hts' : ∀ u ∈ ts', u.kind = .space ∨ u.kind = .other) : EndTokens (t :: ts) (t' :: ts')

theorem kind_of_mem_dash {l : Location} {t : Token} (ht : t ∈ tokensFrom l ['-']) :
    t.kind = .space ∨ t.kind = .other := by
  have hread : read '-' [] = (.other, 0) := rfl
  rw [tokensFrom_cons, hread, List.drop_nil, tokensFrom, List.mem_singleton] at ht
  rw [ht]
  exact .inr rfl

theorem kind_of_mem_break {l : Location} {t : Token} (hb : isBreak b = true)
    (ht : t ∈ tokensFrom l [b]) : t.kind = .space ∨ t.kind = .other := by
  have hread : read b [] = (.space, 0) := by
    unfold read
    rw [if_pos (by simp [isSpace, hb])]
    rfl
  rw [tokensFrom_cons, hread, List.drop_nil, tokensFrom, List.mem_singleton] at ht
  rw [ht]
  exact .inl rfl

theorem kind_of_mem_backslash {l : Location} {t : Token} (hb : isBreak b = true)
    (ht : t ∈ tokensFrom l ['\\', b]) : t.kind = .space ∨ t.kind = .other := by
  have hread : read '\\' [b] = (.other, 0) := by
    have hat : read '\\' [b] =
        if atName ['\\', b] = true then readName '\\' [b] else (.other, 0) := rfl
    rw [hat, atName, startsBreak, hb]
    rfl
  rw [tokensFrom_cons, hread, List.mem_cons] at ht
  rcases ht with rfl | ht
  · exact .inr rfl
  · exact kind_of_mem_break hb ht

/-- What next to nothing is left of falls into white space and marks. -/
theorem kind_of_mem_of_spends {n m : Nat} (h : Spends b cs n m) (l l' : Location) :
    (∀ t ∈ tokensFrom l (cs.drop n), t.kind = .space ∨ t.kind = .other) ∧
      ∀ t ∈ tokensFrom l' ((cs ++ [b]).drop m), t.kind = .space ∨ t.kind = .other := by
  obtain ⟨hcs, hcs'⟩ := h
  constructor
  · intro t ht
    rcases hcs with hcs | hcs <;> rw [hcs] at ht
    · simp [tokensFrom] at ht
    · exact kind_of_mem_dash ht
  · intro t ht
    rcases hcs' with hcs' | ⟨hbreak, hcs' | hcs'⟩ <;> rw [hcs'] at ht
    · simp [tokensFrom] at ht
    · exact kind_of_mem_break hbreak ht
    · exact kind_of_mem_backslash hbreak ht

/-- **The last tokens**: one more character at the end of a text is a token of its own, or the two
texts differ in tokens that neither begin nor end a statement or a block. -/
theorem exists_tokensFrom_concat (hb : IsTrailing b) (l : Location) (cs : List Char) :
    (∃ l', tokensFrom l (cs ++ [b]) = tokensFrom l cs ++ tokensFrom l' [b]) ∨
      ∃ q e e', tokensFrom l cs = q ++ e ∧ tokensFrom l (cs ++ [b]) = q ++ e' ∧ EndTokens e e' := by
  induction l, cs using tokensFrom.induct with
  | case1 l =>
    refine .inl ⟨l, ?_⟩
    rw [List.nil_append, tokensFrom]
    rfl
  | case2 l c cs kind n h text ih =>
    have hends := ends_read hb c cs
    rw [Ends, h] at hends
    rw [List.cons_append, tokensFrom_cons, tokensFrom_cons, h]
    rcases hends with ⟨heq, hle⟩ | ⟨⟨hle, hle'⟩, hkind, htrivia⟩ | ⟨hspends, hkinds⟩
    · rw [heq, List.take_append_of_le_length hle, List.drop_append_of_le_length hle]
      rcases ih with ⟨l', htokens⟩ | ⟨q, e, e', he, he', hends⟩
      · exact .inl ⟨l', congrArg (_ :: ·) htokens⟩
      · exact .inr ⟨_ :: q, e, e', congrArg (_ :: ·) he, congrArg (_ :: ·) he', hends⟩
    · refine .inr ⟨[], _, _, rfl, rfl, ?_⟩
      rw [List.drop_eq_nil_of_le hle, List.drop_eq_nil_of_le (by simpa using hle'), tokensFrom,
        tokensFrom]
      exact .trivia hkind htrivia rfl
    · obtain ⟨hts, hts'⟩ := kind_of_mem_of_spends hspends _ _
      exact .inr ⟨[], _, _, rfl, rfl, .plain hkinds rfl hts hts'⟩

end GlyphTrim.Css
