import GlyphTrim.Proofs.Css.Machine

/-!
# The reader of stylesheets makes progress

A turn of the machine goes over a token, or it ends a prelude that has gone over one, or it goes out
of a block (`State.takes_turn`). So the machine ends after twice as many turns as there are tokens
(`move?_iterate_potential`), and what a loop over statements comes to, in its block or in a block
inside, is behind the place where its turn began (`beyond_iterate`). Places are told by the number
of characters that are left, since no token is empty.
-/

namespace GlyphTrim.Css.Machine

namespace State

/-! ## Turns -/

/-- The state `s'` is one token further on than `s`. -/
def Over (s s' : State) : Prop := ∃ t, s.rest = t :: s'.rest

/-- What a turn can be. -/
inductive Takes (s : State) : Turn → Prop
  | skip {s' : State} (hover : s.Over s') (hphase : s'.phase = .head)
      (houter : s'.outer = s.outer) : Takes s (.moves .skip s')
  | pass {s' : State} (hover : s.Over s') (houter : s'.outer = s.outer) :
      Takes s (.moves .pass s')
  | enter {s' : State} {f : Frame} (hover : s.Over s') (hphase : s'.phase = .head)
      (houter : s'.outer = f :: s.outer) : Takes s (.moves .enter s')
  /-- A statement that no semicolon ends has a prelude. -/
  | finish {s' : State} (hover : s.Over s' ∨ s'.rest = s.rest ∧ s.phase ≠ .head)
      (hphase : s'.phase = .head) (houter : s'.outer = s.outer) : Takes s (.moves .finish s')
  | leave {s' : State} {f : Frame} (hrest : s'.rest = s.rest.drop 1) (hphase : s.phase = .head)
      (hphase' : s'.phase = .head) (houter : s.outer = f :: s'.outer) :
      Takes s (.moves .leave s')
  | stops {items : Items} : Takes s (.stops items)
  | fails {e : SyntaxError} : Takes s (.fails e)

variable {s : State}

theorem takes_endTurn (hphase : s.phase = .head) : s.Takes s.endTurn := by
  rw [endTurn]
  split
  · exact .stops
  · rename_i f outer houter
    exact .leave rfl hphase rfl houter

theorem takes_statementTurn (h : s.phase = .head → atEnd s.nested s.rest = false)
    (start : List Token) (opened : List Bracket) (group : Option Location) :
    s.Takes (s.statementTurn start opened group) := by
  rw [statementTurn]
  split
  · -- at the end of the input there is no head to begin a statement at
    rename_i hrest
    refine .finish (.inr ⟨hrest.symm, fun hphase => ?_⟩) rfl rfl
    have hend := h hphase
    rw [hrest] at hend
    exact absurd hend (by simp [atEnd])
  rename_i t ts hrest
  split
  · exact .pass ⟨t, hrest⟩ rfl
  split
  · exact .finish (.inl ⟨t, hrest⟩) rfl rfl
  · exact .enter ⟨t, hrest⟩ rfl rfl
  split
  · -- nor is there one in front of the brace that closes the block
    rename_i hclose
    refine .finish (.inr ⟨rfl, fun hphase => ?_⟩) rfl rfl
    have hend := h hphase
    rw [hrest, atEnd, hclose] at hend
    exact absurd hend (by simp)
  · exact .fails

/-- **A turn** goes over a token, except for the end of a block and for the end of a statement with
a prelude. -/
theorem takes_turn (s : State) : s.Takes s.turn := by
  rw [turn]
  split
  · rename_i start opened group hphase
    exact takes_statementTurn (fun hhead => absurd (hphase.symm.trans hhead) (by simp)) _ _ _
  rename_i hphase
  split
  · exact takes_endTurn hphase
  rename_i t ts hrest
  split
  · exact .skip ⟨t, hrest⟩ hphase rfl
  split
  · exact takes_endTurn hphase
  · rename_i hend
    exact takes_statementTurn (fun _ => by rwa [Bool.not_eq_true] at hend) _ _ _

/-! ## The end of the machine -/

/-- The turns that the machine can still make: a token can take two, one that goes over it and one
that ends its prelude or its block. -/
def potential (s : State) : Nat :=
  2 * s.rest.length + s.outer.length + if s.phase = .head then 0 else 1

theorem potential_next_lt (h : s.move? ≠ none) : s.next.potential < s.potential := by
  have htakes := s.takes_turn
  rw [move?] at h
  rw [next]
  generalize s.turn = turn at htakes h
  cases htakes with
  | skip hover hphase houter =>
    obtain ⟨t, hrest⟩ := hover
    simp only [potential, hrest, hphase, houter, List.length_cons, if_true]
    omega
  | pass hover houter =>
    obtain ⟨t, hrest⟩ := hover
    simp only [potential, hrest, houter, List.length_cons]
    split <;> omega
  | enter hover hphase houter =>
    obtain ⟨t, hrest⟩ := hover
    simp only [potential, hrest, hphase, houter, List.length_cons, if_true]
    omega
  | finish hover hphase houter =>
    rcases hover with ⟨t, hrest⟩ | ⟨hrest, hprelude⟩
    · simp only [potential, hrest, hphase, houter, List.length_cons, if_true]
      omega
    · simp only [potential, hrest, hphase, houter, hprelude, if_true, if_false]
      omega
  | leave hrest hphase hphase' houter =>
    simp only [potential, hrest, hphase, hphase', houter, List.length_cons, List.length_drop,
      if_true]
    omega
  | stops => exact absurd rfl h
  | fails => exact absurd rfl h

theorem move?_iterate_eq_none {n : Nat} (h : s.potential ≤ n) : (next^[n] s).move? = none := by
  induction n generalizing s with
  | zero =>
    by_contra hmove
    have hlt : s.next.potential < s.potential := potential_next_lt hmove
    omega
  | succ n ih =>
    rw [Function.iterate_succ_apply]
    by_cases hmove : s.move? = none
    · rw [next_of_move?_eq_none hmove, iterate_of_move?_eq_none hmove]
      exact hmove
    · have hlt := potential_next_lt hmove
      exact ih (by omega)

end State

/-! ## Places -/

open State

variable {a b s : State}

theorem rest_next_suffix (s : State) : s.next.rest <:+ s.rest := by
  have hover : ∀ {s' : State}, s.Over s' → s'.rest <:+ s.rest := fun ⟨t, hrest⟩ =>
    hrest ▸ List.suffix_cons t _
  have htakes := s.takes_turn
  rw [next]
  generalize s.turn = turn at htakes
  cases htakes with
  | skip h | pass h | enter h => exact hover h
  | finish h => exact h.elim hover fun h => h.1 ▸ List.suffix_rfl
  | leave hrest => exact hrest ▸ List.drop_suffix 1 _
  | stops | fails => exact List.suffix_rfl

theorem rest_iterate_suffix (s : State) (n : Nat) : (next^[n] s).rest <:+ s.rest := by
  induction n with
  | zero => exact List.suffix_rfl
  | succ n ih =>
    rw [Function.iterate_succ_apply']
    exact (rest_next_suffix _).trans ih

/-- The state `b` is behind the place of `a`, or its loop is around that of `a`. -/
def Beyond (a b : State) : Prop :=
  b.rest.length < a.rest.length ∨
    b.phase = .head ∧ b.outer.length < a.outer.length ∧ b.rest.length ≤ a.rest.length

theorem State.Over.length_lt {s' : State} (h : s.Over s') : s'.rest.length < s.rest.length := by
  obtain ⟨t, hrest⟩ := h
  rw [hrest, List.length_cons]
  exact Nat.lt_succ_self _

/-- A turn at the head of a loop goes over a token, or it goes out of the block. -/
theorem beyond_next_of_head (hhead : a.phase = .head) (hmove : a.move? ≠ none) :
    Beyond a a.next := by
  have htakes := a.takes_turn
  rw [move?] at hmove
  rw [next]
  generalize a.turn = turn at htakes hmove
  cases htakes with
  | skip h | pass h | enter h => exact .inl h.length_lt
  | finish h => exact .inl (h.resolve_right fun h => h.2 hhead).length_lt
  | leave hrest hphase hphase' houter =>
    refine .inr ⟨hphase', ?_, ?_⟩
    · rw [houter, List.length_cons]
      exact Nat.lt_succ_self _
    · rw [hrest, List.length_drop]
      exact Nat.sub_le _ _
  | stops | fails => exact absurd rfl hmove

theorem over_next (h : s.move? ∈ [some .skip, some .pass, some .enter]) : s.Over s.next := by
  have htakes := s.takes_turn
  rw [move?] at h
  rw [State.next]
  generalize s.turn = turn at htakes h
  cases htakes with
  | skip hover | pass hover | enter hover => exact hover
  | finish | leave | stops | fails => exact absurd h (by simp)

theorem Beyond.next (h : Beyond a b) : Beyond a b.next := by
  have hle := (rest_next_suffix b).length_le
  rcases h with hlt | ⟨hphase, houter, hrest⟩
  · exact .inl (hle.trans_lt hlt)
  by_cases hmove : b.move? = none
  · rw [next_of_move?_eq_none hmove]
    exact .inr ⟨hphase, houter, hrest⟩
  -- `b` is at the head of a loop itself
  rcases beyond_next_of_head hphase hmove with hlt | ⟨hphase', houter', -⟩
  · exact .inl (hlt.trans_le hrest)
  · exact .inr ⟨hphase', houter'.trans houter, hle.trans hrest⟩

theorem beyond_iterate (hhead : a.phase = .head) (hmove : a.move? ≠ none) (n : Nat) :
    Beyond a (next^[n + 1] a) := by
  induction n with
  | zero => exact beyond_next_of_head hhead hmove
  | succ n ih =>
    rw [Function.iterate_succ_apply']
    exact ih.next

/-! ## Fuel -/

/-- **Fuel** that exceeds the number of tokens is never used up: more of it changes nothing. -/
theorem parseItems_eq_of_length_lt {nested : Bool} {ts : List Token} {fuel fuel' : Nat}
    (h : ts.length < fuel) (h' : ts.length < fuel') :
    parseItems nested fuel ts = parseItems nested fuel' ts := by
  have hok : ∀ a : Items × List Token,
      parseItems nested fuel ts = .ok a ↔ parseItems nested fuel' ts = .ok a := fun a =>
    (parseItems_eq_ok_iff h).trans (parseItems_eq_ok_iff h').symm
  cases hparse : parseItems nested fuel ts with
  | ok a => exact ((hok a).1 hparse).symm
  | error e =>
    cases hparse' : parseItems nested fuel' ts with
    | ok a => exact absurd (hparse.symm.trans ((hok a).2 hparse')) nofun
    | error e' =>
      -- both errors name the first token at fault
      have hcurly : ∀ b ∈ List.replicate nested.toNat Bracket.curly, b = .curly :=
        fun b hb => List.eq_of_mem_replicate hb
      have houter : nested = false → List.replicate nested.toNat Bracket.curly = [] := by
        rintro rfl
        rfl
      have hfirst := (rejects_of_parseItems h hparse).firstExposed hcurly houter
      have hfirst' := (rejects_of_parseItems h' hparse').firstExposed hcurly houter
      rw [hfirst.unique hfirst']

/-! ## Characters -/

/-- The number of characters that are left. -/
def State.charsLeft (s : State) : Nat := (sourceText s.rest).length

section

variable (css : String)

/-- The machine after a number of turns on a text. -/
def run (n : Nat) : State := next^[n] (start css)

theorem text_ne_nil_of_mem_rest_run (n : Nat) : ∀ t ∈ (run css n).rest, t.text ≠ [] :=
  fun _ ht => text_ne_nil_of_mem ((rest_iterate_suffix (start css) n).subset ht)

theorem run_add (m n : Nat) : run css (m + n) = next^[n] (run css m) := by
  rw [run, run, Nat.add_comm, Function.iterate_add_apply]

theorem charsLeft_run_lt {m n : Nat}
    (h : (run css (m + n)).rest.length < (run css m).rest.length) :
    (run css (m + n)).charsLeft < (run css m).charsLeft := by
  refine length_sourceText_lt ?_ h (text_ne_nil_of_mem_rest_run css m)
  rw [run_add]
  exact rest_iterate_suffix _ n

theorem potential_start_le : (start css).potential ≤ 2 * css.length := by
  have htokens := length_le_length_sourceText (text_ne_nil_of_mem_rest_run css 0)
  have hchars : (sourceText (run css 0).rest).length = (Text.dropMark css.toList).length :=
    congrArg List.length (sourceText_tokensFrom _ _)
  have hmark : (Text.dropMark css.toList).length ≤ css.toList.length := by
    unfold Text.dropMark
    split
    · rename_i cs hcs
      rw [hcs]
      exact (List.sublist_cons_self _ cs).length_le
    · exact Nat.le_refl _
  have hpotential : (start css).potential = 2 * (run css 0).rest.length := rfl
  rw [String.length_toList] at hmark
  omega

/-- The machine is done in time, with the result of the parser. -/
theorem result?_run : (run css (2 * css.length)).result? = some (Sheet.parse css) := by
  obtain ⟨s, ⟨n, hn⟩, hresult⟩ := exists_leads_result css
  have hdone : (run css (2 * css.length)).move? = none :=
    move?_iterate_eq_none (potential_start_le css)
  have hlate : run css (2 * css.length + n) = run css (2 * css.length) := by
    rw [run_add, iterate_of_move?_eq_none hdone]
  have hsame : run css (2 * css.length + n) = s := by
    rw [Nat.add_comm, run_add, run, hn]
    exact iterate_of_move?_eq_none (move?_eq_none_of_result? hresult) _
  rw [← hlate, hsame, hresult]

end

/-- **The reader of stylesheets makes progress** on every text. A turn of the loop over white space
or of the loop over a prelude, and a call for a block, goes on to a later place. What comes after a
turn of the loop over the statements of a block, at the head of this loop or in a block inside, is
at a later place than the turn, unless the loop ends or fails there. So after twice as many turns as
the text has characters the reader is done, with the result of the parser. -/
theorem run_progresses (css : String) :
    (∀ n, (run css n).move? ∈ [some .skip, some .pass, some .enter] →
      (run css (n + 1)).charsLeft < (run css n).charsLeft) ∧
    (∀ m n, m < n → (run css m).phase = .head → (run css m).move? ≠ none →
      (run css m).outer.length ≤ (run css n).outer.length →
        (run css n).charsLeft < (run css m).charsLeft) ∧
    (run css (2 * css.length)).result? = some (Sheet.parse css) ∧
    ∀ fuel, (start css).rest.length < fuel → Sheet.parse css =
      (fun read => Sheet.mk read.1.nodes) <$> parseItems false fuel (start css).rest := by
  refine ⟨fun n h => ?_, fun m n hmn hhead hmove hdepth => ?_, result?_run css, fun fuel h => ?_⟩
  · refine charsLeft_run_lt css ?_
    rw [run_add]
    exact (over_next h).length_lt
  · obtain ⟨k, rfl⟩ := Nat.exists_eq_add_of_lt hmn
    have hbeyond := beyond_iterate hhead hmove k
    refine charsLeft_run_lt css (n := k + 1) ?_
    rw [Nat.add_assoc, run_add] at hdepth
    rw [run_add]
    exact hbeyond.resolve_right fun h => absurd h.2.1 (Nat.not_lt.2 hdepth)
  · rw [← parseItems_eq_of_length_lt (Nat.lt_succ_self _) h]
    rfl

/-- A stray semicolon, and a block and a declaration that the text ends. -/
def strayCss : String := ";a\x7b b:c"

theorem run_progresses_strayCss :
    ((run strayCss 3).move? = some .skip ∧
      (run strayCss 4).charsLeft < (run strayCss 3).charsLeft) ∧
    ((run strayCss 2).move? = some .enter ∧
      (run strayCss 3).charsLeft < (run strayCss 1).charsLeft) ∧
    ((run strayCss 8).move? = some .leave ∧
      (run strayCss 9).charsLeft < (run strayCss 1).charsLeft) ∧
    (run strayCss (2 * strayCss.length)).result? = some (Sheet.parse strayCss) ∧
    Sheet.parse strayCss =
      (fun read => Sheet.mk read.1.nodes) <$> parseItems false 100 (start strayCss).rest := by
  obtain ⟨hover, hhead, hresult, hfuel⟩ := run_progresses strayCss
  have hskip : (run strayCss 3).move? = some .skip := by decide +kernel
  have hphase : (run strayCss 1).phase = .head := by decide +kernel
  have hmove : (run strayCss 1).move? ≠ none := by decide +kernel
  refine ⟨⟨hskip, hover 3 (by rw [hskip]; decide)⟩, ⟨by decide +kernel, ?_⟩,
    ⟨by decide +kernel, ?_⟩, hresult, hfuel 100 (by decide +kernel)⟩
  · exact hhead 1 3 (by decide) hphase hmove (by decide +kernel)
  · exact hhead 1 9 (by decide) hphase hmove (by decide +kernel)

end GlyphTrim.Css.Machine
