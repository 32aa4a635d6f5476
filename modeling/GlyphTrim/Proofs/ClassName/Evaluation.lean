import GlyphTrim.Proofs.ClassName.Resolution
import GlyphTrim.Proofs.ClassName.Template

/-!
# What an expression can evaluate to

`Yields e s` says that a run of the program can give the expression `e` the string `s`. A condition
may take either branch. A call joins what its arguments give by spaces and leaves out what is
empty; an argument that is an object gives any part of its keys, since each value may be true or
false. An expression of another kind yields nothing here: nothing is known of its value.

`Resolvable` describes the expressions whose classes stand in the text: every slot of a template is
a string or a choice of strings, and it stands apart from the text around it, but for a prefix in
front (`LaidOut`).
-/

namespace GlyphTrim.ClassName

open Text Tsx

/-! ## Evaluation -/

/-- The key of a member `"key": value`. -/
def stringKey? : Member → Option String
  | .property (.string key) _ => some key
  | _ => none

/-- The names that a call puts together: those that are not empty, with spaces between them. -/
def joinNames (names : List String) : String :=
  " ".intercalate (names.filter (· ≠ ""))

mutual

/-- The expression can evaluate to the string. -/
def Yields : Expr → String → Prop
  | .string _ value, s => s = value
  | .wrapped _ _ e _, s => Yields e s
  | .conditional _ _ yes no, s => Yields yes s ∨ Yields no s
  | .template _ head spans, s => ∃ rest, SpansYield spans rest ∧ s = head ++ rest
  | .call _ _ args _, s => ∃ names, ArgumentsYield args names ∧ s = joinNames names
  | _, _ => False

/-- The slots, each with the text after it, can evaluate to the string. -/
def SpansYield : List Span → String → Prop
  | [], s => s = ""
  | .mk slot tail :: rest, s => ∃ v r, Yields slot v ∧ SpansYield rest r ∧ s = v ++ tail ++ r

/-- The arguments can give a call these names. -/
def ArgumentsYield : List Item → List String → Prop
  | [], names => names = []
  | .plain e :: rest, names =>
    ∃ own more, ArgumentsYield rest more ∧ names = own ++ more ∧
      ((∃ v, Yields e v ∧ own = [v]) ∨
        ∃ place members, unwrap e = .object place members ∧
          own.Sublist (members.filterMap stringKey?))
  | _, _ => False

end

/-! ## Expressions whose classes stand in the text -/

/-- A string, or a condition of such expressions. -/
inductive IsChoice : Expr → Prop
  | string (place : Nat) (value : String) : IsChoice (.string place value)
  | wrapped {e : Expr} (place : Nat) (how : Wrapper) (types : List Node) (h : IsChoice e) :
      IsChoice (.wrapped place how e types)
  | conditional {yes no : Expr} (place : Nat) (test : Expr) (hy : IsChoice yes) (hn : IsChoice no) :
      IsChoice (.conditional place test yes no)

/-- A slot may follow the text: the text is where the template begins, or it ends in white space or
in a prefix. -/
def OpensSlot (first : Bool) (before : String) : Prop :=
  (first = true ∧ before = "") ∨ before.toList.getLast?.any isBlank = true ∨
    EndsInPrefix before.toList

instance (first : Bool) (before : String) : Decidable (OpensSlot first before) :=
  inferInstanceAs (Decidable (_ ∨ _ ∨ _))

/-- The text may follow a slot: the template ends here, or the text begins with white space. -/
def ClosesSlot (tail : String) (rest : List Span) : Prop :=
  (tail = "" ∧ rest.isEmpty = true) ∨ tail.toList.head?.any isBlank = true

instance (tail : String) (rest : List Span) : Decidable (ClosesSlot tail rest) :=
  inferInstanceAs (Decidable (_ ∨ _))

/-- The slots are choices, and each of them stands apart from the text around it, but for a prefix
in front. `before` is the text before, and `first` tells that the template begins with it. -/
def LaidOut (first : Bool) (before : String) : List Span → Prop
  | [] => True
  | .mk slot tail :: rest =>
    IsChoice slot ∧ OpensSlot first before ∧ ClosesSlot tail rest ∧ LaidOut false tail rest

/-- An argument of a call that is a string, a template with its slots laid out, or an object with
string keys. -/
inductive IsNames : Item → Prop
  | string {e : Expr} {place : Nat} {value : String} (h : unwrap e = .string place value) :
      IsNames (.plain e)
  | template {e : Expr} {place : Nat} {head : String} {spans : List Span}
      (h : unwrap e = .template place head spans) (hl : LaidOut true head spans) :
      IsNames (.plain e)
  | object {e : Expr} {place : Nat} {members : List Member} (h : unwrap e = .object place members)
      (hm : ∀ m ∈ members, ∃ key value, m = .property (.string key) value) : IsNames (.plain e)

/-- An expression whose classes stand in the text. -/
inductive Resolvable : Expr → Prop
  | string (place : Nat) (value : String) : Resolvable (.string place value)
  | wrapped {e : Expr} (place : Nat) (how : Wrapper) (types : List Node) (h : Resolvable e) :
      Resolvable (.wrapped place how e types)
  | conditional {yes no : Expr} (place : Nat) (test : Expr) (hy : Resolvable yes)
      (hn : Resolvable no) : Resolvable (.conditional place test yes no)
  | template {spans : List Span} (place : Nat) (head : String) (h : LaidOut true head spans) :
      Resolvable (.template place head spans)
  | call {args : List Item} (place : Nat) (callee : Expr) (types : List Node)
      (h : ∀ a ∈ args, IsNames a) : Resolvable (.call place callee args types)

/-! ## Slots that stand apart -/

/-- The text before a slot is a clear text and the prefix of the slot. -/
theorem inferPrefix_of_opensSlot {first : Bool} {before : String} (h : OpensSlot first before) :
    (inferPrefix before).getD "" = String.ofList (lastRun before.toList) := by
  by_cases hp : EndsInPrefix before.toList
  · rw [inferPrefix_of_endsInPrefix hp]
    rfl
  · have hclear : EndsClear before.toList := by
      rcases h with ⟨-, rfl⟩ | hblank | h
      · exact endsClear_nil
      · intro c hc
        rw [hc] at hblank
        simpa using hblank
      · exact absurd h hp
    rw [inferPrefix_of_not_endsInPrefix hp, lastRun_of_endsClear hclear]
    rfl

theorem startsClear_of_closesSlot {tail : String} {rest : List Span} (h : ClosesSlot tail rest) :
    StartsClear tail.toList := by
  rcases h with ⟨rfl, -⟩ | h
  · exact startsClear_nil
  · intro c hc
    rw [hc] at h
    simpa using h

/-! ## Runs of the parts -/

theorem yields_unwrap (e : Expr) (s : String) : Yields (unwrap e) s ↔ Yields e s := by
  fun_induction unwrap e with
  | case1 place how e types ih => rw [ih, Yields]
  | case2 e he => rfl

theorem exists_yields_of_isChoice {e : Expr} (h : IsChoice e) : ∃ s, Yields e s := by
  induction h with
  | string place value => exact ⟨value, by rw [Yields]⟩
  | wrapped place how types h ih =>
    obtain ⟨s, hs⟩ := ih
    exact ⟨s, by rw [Yields]; exact hs⟩
  | conditional place test hy hn ihy ihn =>
    obtain ⟨s, hs⟩ := ihy
    exact ⟨s, by rw [Yields]; exact .inl hs⟩

theorem exists_spansYield {first : Bool} {before : String} {spans : List Span}
    (h : LaidOut first before spans) : ∃ s, SpansYield spans s := by
  induction spans generalizing first before with
  | nil => exact ⟨"", by rw [SpansYield]⟩
  | cons span rest ih =>
    obtain ⟨slot, tail⟩ := span
    rw [LaidOut] at h
    obtain ⟨hslot, -, -, hrest⟩ := h
    obtain ⟨v, hv⟩ := exists_yields_of_isChoice hslot
    obtain ⟨r, hr⟩ := ih hrest
    exact ⟨v ++ tail ++ r, by rw [SpansYield]; exact ⟨v, r, hv, hr, rfl⟩⟩

/-! ## The names of a call -/

theorem classTokens_append {s t : String} (h : EndsClear s.toList ∨ StartsClear t.toList) :
    classTokens (s ++ t) = classTokens s ++ classTokens t := by
  rw [classTokens, String.toList_append, words_append h, List.map_append]
  rfl

theorem classTokens_intercalate (names : List String) :
    classTokens (" ".intercalate names) = names.flatMap classTokens := by
  induction names with
  | nil => rfl
  | cons s names ih =>
    cases names with
    | nil => simp
    | cons t names =>
      have hend : EndsClear " ".toList := by
        intro c hc
        obtain rfl : ' ' = c := Option.some.inj hc
        rfl
      have hspace : StartsClear (" " ++ " ".intercalate (t :: names)).toList := by
        rw [String.toList_append]
        exact startsClear_cons.2 rfl
      have htokens : classTokens (" " ++ " ".intercalate (t :: names)) =
          classTokens (" ".intercalate (t :: names)) :=
        classTokens_append (.inl hend)
      rw [String.intercalate_cons_cons, String.append_assoc, classTokens_append (.inr hspace),
        htokens, ih]
      rfl

/-- **The words of joined names** are those of the names. -/
theorem classTokens_joinNames (names : List String) :
    classTokens (joinNames names) = names.flatMap classTokens := by
  rw [joinNames, classTokens_intercalate]
  induction names with
  | nil => rfl
  | cons s names ih =>
    by_cases hs : s = ""
    · simpa [hs, classTokens, words] using ih
    · simpa [hs] using ih

end GlyphTrim.ClassName
