import Mathlib.Logic.Function.Iterate
import GlyphTrim.Proofs.Css.Statement

/-!
# The reader of stylesheets as a machine

`parseItems` runs through loops inside loops: over the statements of a block, over the white space
in front of a statement, and over the tokens of a prelude. The machine of this module makes one turn
of one of these loops at a time. The blocks around its place are a stack of frames, so a call for a
block inside a block is a turn as well. A move goes over one token at most.

`exists_leads_result` says that the machine comes to the result of `Sheet.parse`, whether that is a
stylesheet (`leads_of_reads`) or an error (`exists_leads_fails`).
-/

namespace GlyphTrim.Css.Machine

/-! ## The machine -/

/-- A statement whose block is read. -/
structure Frame where
  /-- The tokens from the statement on. -/
  start : List Token
  prelude : List Token
  /-- The items in front of the statement. -/
  items : Items

/-- The loop that the machine is in. -/
inductive Phase
  /-- The loop over the statements of a block, or over the white space in front of one. -/
  | head
  /-- The loop over the tokens of a prelude, in a statement that begins with the tokens `start`,
  inside the brackets `opened` or behind a group in brackets. -/
  | prelude (start : List Token) (opened : List Bracket) (group : Option Location)
  deriving DecidableEq

/-- A state of the machine. -/
structure State where
  phase : Phase
  /-- The items of the block, as far as they are read. -/
  items : Items
  /-- The blocks around the place, from the inside out. -/
  outer : List Frame
  /-- The tokens that are left. -/
  rest : List Token

/-- What a move does. -/
inductive Move
  /-- It goes over white space or a comment in front of a statement. -/
  | skip
  /-- It goes over a token of a prelude. -/
  | pass
  /-- It goes into a block. -/
  | enter
  /-- It ends a statement without a block. -/
  | finish
  /-- It goes out of a block, and ends the statement with the block. -/
  | leave
  deriving DecidableEq

/-- One turn of the machine: a move, or its end. -/
inductive Turn
  | moves (move : Move) (s : State)
  | stops (items : Items)
  | fails (e : SyntaxError)

namespace State

/-- Whether the place is in a block. -/
def nested (s : State) : Bool := !s.outer.isEmpty

/-- The state behind a statement without a block, which begins with the tokens `start`. -/
def finished (s : State) (start rest : List Token) : State :=
  { s with
    phase := .head
    items := s.items.append (Items.consStatement (trimmedText (upTo start s.rest))
      (rawText (upTo start rest)) (lineOf start) {})
    rest := rest }

/-- The state in a block. -/
def entered (s : State) (start rest : List Token) : State :=
  ⟨.head, {}, ⟨start, upTo start s.rest, s.items⟩ :: s.outer, rest⟩

/-- The state behind a block. -/
def left (s : State) (f : Frame) (outer : List Frame) : State :=
  let rest := s.rest.drop 1
  let node := Node.ofBlock (trimmedText f.prelude) s.items (rawText (upTo f.start rest))
    (lineOf f.start)
  ⟨.head, f.items.append (Items.consNode node {}), outer, rest⟩

/-- The turn in a statement that begins with the tokens `start`, inside the brackets `opened` or
behind the bracket of a group. -/
def statementTurn (s : State) (start : List Token) (opened : List Bracket)
    (group : Option Location) : Turn :=
  match s.rest with
  | [] => .moves .finish (s.finished start [])
  | t :: ts =>
    match passToken t opened with
    | some opened' =>
      .moves .pass { s with phase := .prelude start opened' (passGroup t opened group), rest := ts }
    | none =>
      match t.kind with
      | .semicolon => .moves .finish (s.finished start ts)
      | .opening .curly => .moves .enter (s.entered start ts)
      | kind =>
        if s.nested && kind == .closing .curly then .moves .finish (s.finished start s.rest)
        else .fails ⟨group.getD t.location, kind.fault?.getD ""⟩

/-- The turn at the end of a block or of the input. -/
def endTurn (s : State) : Turn :=
  match s.outer with
  | [] => .stops s.items
  | f :: outer => .moves .leave (s.left f outer)

/-- The turn in a state. -/
def turn (s : State) : Turn :=
  match s.phase with
  | .prelude start opened group => s.statementTurn start opened group
  | .head =>
    match s.rest with
    | [] => s.endTurn
    | t :: ts =>
      if t.isTrivia then .moves .skip { s with rest := ts }
      else if atEnd s.nested s.rest then s.endTurn
      else s.statementTurn s.rest [] none

/-- The move that is made in a state; none if the machine has ended. -/
def move? (s : State) : Option Move :=
  match s.turn with
  | .moves move _ => some move
  | _ => none

/-- The state after a turn. The machine stays where it has ended. -/
def next (s : State) : State :=
  match s.turn with
  | .moves _ s => s
  | _ => s

/-- The result of the machine, if it has ended. -/
def result? (s : State) : Option (Except SyntaxError Sheet) :=
  match s.turn with
  | .moves _ _ => none
  | .stops items => some (.ok ⟨items.nodes⟩)
  | .fails e => some (.error e)

/-- The state at the beginning of a stylesheet. -/
def start (css : String) : State := ⟨.head, {}, [], tokens (Text.dropMark css.toList)⟩

theorem next_of_turn {s s' : State} {move : Move} (h : s.turn = .moves move s') : s.next = s' := by
  rw [next, h]

theorem next_of_move?_eq_none {s : State} (h : s.move? = none) : s.next = s := by
  rw [move?] at h
  rw [next]
  cases hturn : s.turn with
  | moves move s' => rw [hturn] at h; exact absurd h (Option.some_ne_none move)
  | stops items => rfl
  | fails e => rfl

theorem iterate_of_move?_eq_none {s : State} (h : s.move? = none) (n : Nat) : next^[n] s = s :=
  Function.iterate_fixed (next_of_move?_eq_none h) n

theorem move?_eq_none_of_result? {s : State} {r : Except SyntaxError Sheet}
    (h : s.result? = some r) : s.move? = none := by
  rw [result?] at h
  rw [move?]
  cases hturn : s.turn with
  | moves move s' => rw [hturn] at h; exact absurd h.symm (Option.some_ne_none r)
  | stops items => rfl
  | fails e => rfl

end State

/-- The machine comes from one state to another. -/
def Leads (s s' : State) : Prop := ∃ n, State.next^[n] s = s'

namespace Leads

theorem refl (s : State) : Leads s s := ⟨0, rfl⟩

theorem trans {s₁ s₂ s₃ : State} (h₁ : Leads s₁ s₂) (h₂ : Leads s₂ s₃) : Leads s₁ s₃ := by
  obtain ⟨m, rfl⟩ := h₁
  obtain ⟨n, rfl⟩ := h₂
  exact ⟨n + m, Function.iterate_add_apply _ n m s₁⟩

theorem of_turn {s s' : State} {move : Move} (h : s.turn = .moves move s') : Leads s s' :=
  ⟨1, State.next_of_turn h⟩

end Leads

/-! ## The loops over tokens -/

variable {items : Items} {outer : List Frame} {p ts rest : List Token} {t : Token}

theorem turn_trivia (ht : t.isTrivia = true) :
    (⟨.head, items, outer, t :: ts⟩ : State).turn = .moves .skip ⟨.head, items, outer, ts⟩ :=
  if_pos ht

/-- A statement begins at the head of the loop. -/
theorem turn_head (hstart : StartsStatement ts) (hend : atEnd (!outer.isEmpty) ts = false) :
    (⟨.head, items, outer, ts⟩ : State).turn =
      (⟨.head, items, outer, ts⟩ : State).statementTurn ts [] none := by
  cases ts with
  | nil => exact absurd hend (by simp [atEnd])
  | cons t ts =>
    have ht : t.isTrivia = false := hstart t rfl
    simp only [State.turn, ht, State.nested, hend, Bool.false_eq_true, if_false]

theorem statementTurn_of_passToken {phase : Phase} {o o' : List Bracket} (start : List Token)
    (group : Option Location) (h : passToken t o = some o') :
    (⟨phase, items, outer, t :: ts⟩ : State).statementTurn start o group =
      .moves .pass ⟨.prelude start o' (passGroup t o group), items, outer, ts⟩ := by
  simp only [State.statementTurn, h]

theorem leads_passes {o o' : List Bracket} (start : List Token) (group : Option Location)
    (ho : o.getLast? ≠ some .curly) (h : passes o p = some o') :
    Leads ⟨.prelude start o group, items, outer, p ++ rest⟩
      ⟨.prelude start o' (groupAfter o group p), items, outer, rest⟩ := by
  induction p generalizing o group with
  | nil =>
    obtain rfl := Option.some.inj h
    exact .refl _
  | cons t p ih =>
    obtain ⟨o₁, h₁, h⟩ := passes_cons_eq_some_iff.1 h
    have hfirst : (⟨.prelude start o group, items, outer, t :: p ++ rest⟩ : State).turn =
        .moves .pass ⟨.prelude start o₁ (passGroup t o group), items, outer, p ++ rest⟩ :=
      statementTurn_of_passToken start group h₁
    rw [groupAfter_cons_of_passToken h₁ ho]
    exact (Leads.of_turn hfirst).trans (ih _ (getLast?_of_passToken h₁ ho) h)

/-- The machine comes over a prelude, and is in its statement. -/
theorem exists_leads_prelude {o : List Bracket} (hstart : StartsStatement (p ++ rest))
    (hend : atEnd (!outer.isEmpty) (p ++ rest) = false) (h : passes [] p = some o)
    (items : Items) :
    ∃ s, Leads ⟨.head, items, outer, p ++ rest⟩ s ∧
      s.turn = s.statementTurn (p ++ rest) o (groupAfter [] none p) ∧
      s.items = items ∧ s.outer = outer ∧ s.rest = rest := by
  cases p with
  | nil =>
    obtain rfl := Option.some.inj h
    exact ⟨_, .refl _, turn_head hstart hend, rfl, rfl, rfl⟩
  | cons t p =>
    obtain ⟨o₁, h₁, h⟩ := passes_cons_eq_some_iff.1 h
    have hfirst : (⟨.head, items, outer, t :: p ++ rest⟩ : State).turn =
        .moves .pass ⟨.prelude (t :: p ++ rest) o₁ (passGroup t [] none), items, outer, p ++ rest⟩ :=
      (turn_head hstart hend).trans (statementTurn_of_passToken _ none h₁)
    have ho : ([] : List Bracket).getLast? ≠ some .curly := by simp
    rw [groupAfter_cons_of_passToken h₁ ho]
    exact ⟨_, (Leads.of_turn hfirst).trans (leads_passes _ _ (getLast?_of_passToken h₁ ho) h), rfl,
      rfl, rfl, rfl⟩

/-! ## Statements -/

theorem leads_semicolon (hstart : StartsStatement p) (hpass : passes [] p = some [])
    (ht : t.kind = .semicolon) (items : Items) (outer : List Frame) (ts : List Token) :
    Leads ⟨.head, items, outer, p ++ t :: ts⟩
      ⟨.head, items.append (Items.consStatement (trimmedText p) (rawText (p ++ [t]))
        (lineOf (p ++ [t])) {}), outer, ts⟩ := by
  have hstop : t.Stops false := .inl ht
  obtain ⟨s, hs, hturn, rfl, rfl, hrest⟩ := exists_leads_prelude
    (hstart.append_cons (isTrivia_eq_false_of_stops hstop) ts)
    (atEnd_append_cons hpass (by simp [ht]) (!outer.isEmpty) ts) hpass items
  refine hs.trans (.of_turn (show s.turn = .moves .finish _ from ?_))
  rw [hturn, State.statementTurn, hrest]
  simp only [passToken, ht, State.finished, hrest, upTo_append, upTo_append_cons,
    lineOf_append_cons]

/-- The machine goes into a block. -/
theorem leads_enter (hstart : StartsStatement p) (hpass : passes [] p = some [])
    (ht : t.kind = .opening .curly) (items : Items) (outer : List Frame) (ts : List Token) :
    Leads ⟨.head, items, outer, p ++ t :: ts⟩
      ⟨.head, {}, ⟨p ++ t :: ts, p, items⟩ :: outer, ts⟩ := by
  have hstop : t.Stops false := .inr (.inl ht)
  obtain ⟨s, hs, hturn, rfl, rfl, hrest⟩ := exists_leads_prelude
    (hstart.append_cons (isTrivia_eq_false_of_stops hstop) ts)
    (atEnd_append_cons hpass (by simp [ht]) (!outer.isEmpty) ts) hpass items
  refine hs.trans (.of_turn (show s.turn = .moves .enter _ from ?_))
  rw [hturn, State.statementTurn, hrest]
  simp only [passToken, ht, State.entered, hrest, upTo_append]

/-- The machine goes out of a block. -/
theorem leads_leave {cut : Bool} {f : Frame} (hend : EndsItems (!(f :: outer).isEmpty) cut rest)
    (inner : Items) :
    Leads ⟨.head, inner, f :: outer, rest⟩
      ((⟨.head, inner, f :: outer, rest⟩ : State).left f outer) := by
  refine .of_turn (show State.turn _ = .moves .leave _ from ?_)
  obtain ⟨hatEnd, hstart⟩ := hend.atEnd_eq
  cases rest with
  | nil => rfl
  | cons t ts =>
    have ht : t.isTrivia = false := hstart t rfl
    simp only [State.turn, State.nested, ht, hatEnd, Bool.false_eq_true, if_false, if_true]
    rfl

/-- The machine ends a statement that the block or the input ends. -/
theorem leads_last {cut : Bool} {o : List Bracket} (hne : p ≠ []) (hstart : StartsStatement p)
    (hpass : passes [] p = some o) (ho : o = [] ∨ cut = true)
    (hend : EndsItems (!outer.isEmpty) cut rest) (items : Items) :
    Leads ⟨.head, items, outer, p ++ rest⟩
      ⟨.head, items.append (Items.consStatement (trimmedText p) (rawText p) (lineOf p) {}), outer,
        rest⟩ := by
  obtain ⟨u, p, rfl⟩ := List.exists_cons_of_ne_nil hne
  have hstart' : StartsStatement (u :: p ++ rest) := hstart
  obtain ⟨s, hs, hturn, rfl, rfl, hrest⟩ := exists_leads_prelude hstart'
    (atEnd_append_of_passes hne hpass (!outer.isEmpty) rest) hpass items
  refine hs.trans (.of_turn (show s.turn = .moves .finish _ from ?_))
  rw [hturn, State.statementTurn, hrest]
  cases cut with
  | true =>
    obtain rfl := hend
    simp only [State.finished, hrest, upTo_append]
    rfl
  | false =>
    obtain ⟨hnested, t, ts, rfl, ht⟩ := hend
    obtain rfl := ho.resolve_right Bool.false_ne_true
    simp only [passToken, ht, State.nested, hnested, beq_self_eq_true, Bool.and_self, if_true,
      State.finished, hrest, upTo_append]
    rfl

/-! ## The result of the machine -/

/-- **What is read** the machine reads. -/
theorem leads_of_reads {cut : Bool} {used : List Token} {more : Items} (h : Reads cut used more)
    (hend : EndsItems (!outer.isEmpty) cut rest) (items : Items) :
    Leads ⟨.head, items, outer, used ++ rest⟩ ⟨.head, items.append more, outer, rest⟩ := by
  induction h generalizing outer rest items with
  | done =>
    rw [Items.append_nil]
    exact .refl _
  | trivia ht h ih => exact (Leads.of_turn (turn_trivia ht)).trans (ih hend items)
  | last hne hstart hpass ho => exact leads_last hne hstart hpass ho hend items
  | @semicolon cut p ts s more hstart hpass hs h ih =>
    rw [List.append_assoc, List.cons_append, ← Items.append_consStatement_nil]
    exact (leads_semicolon hstart hpass hs items outer (ts ++ rest)).trans (ih hend _)
  | @block cut p body ts brace close inner more hstart hpass hbrace hbody hclose h ihbody ih =>
    have hblock : EndsItems
        (!(Frame.mk (p ++ brace :: (body ++ close :: (ts ++ rest))) p items :: outer).isEmpty) false
        (close :: (ts ++ rest)) := ⟨rfl, close, ts ++ rest, rfl, hclose⟩
    have hraw : upTo (p ++ brace :: (body ++ close :: (ts ++ rest))) (ts ++ rest) =
        p ++ brace :: (body ++ [close]) := by
      simpa using upTo_append (p ++ brace :: (body ++ [close])) (ts ++ rest)
    have henter := leads_enter hstart hpass hbrace items outer (body ++ close :: (ts ++ rest))
    have hleave := leads_leave hblock inner
    rw [State.left, List.drop_one, List.tail_cons, hraw, lineOf_append_cons] at hleave
    rw [List.append_assoc, List.cons_append, List.append_assoc, List.cons_append,
      ← Items.append_consNode_nil]
    exact henter.trans ((ihbody hblock {}).trans (hleave.trans (ih hend _)))
  | @cutBlock p body brace inner hstart hpass hbrace hbody ih =>
    -- the machine leaves the block where the input ends, and goes over nothing
    obtain rfl := hend
    have hraw : upTo (p ++ brace :: body) [] = p ++ brace :: body := by
      simpa using upTo_append (p ++ brace :: body) []
    have henter := leads_enter hstart hpass hbrace items outer body
    have hblock : EndsItems (!(Frame.mk (p ++ brace :: body) p items :: outer).isEmpty) true [] :=
      rfl
    have hinner := ih hblock {}
    have hleave := leads_leave hblock inner
    rw [State.left, List.drop_nil, hraw, lineOf_append_cons] at hleave
    rw [List.append_nil] at hinner ⊢
    exact henter.trans (hinner.trans hleave)

/-- A token that does not stop a prelude ends no block. -/
theorem atEnd_append_of_not_stops {nested : Bool} (hpass : passes [] p = some [])
    (hstop : ¬t.Stops nested) (us : List Token) : atEnd nested (p ++ t :: us) = false := by
  by_cases ht : t.kind = .closing .curly
  · obtain rfl : nested = false :=
      Bool.eq_false_iff.2 fun hnested => hstop (.inr (.inr ⟨hnested, ht⟩))
    cases p <;> rfl
  · exact atEnd_append_cons hpass ht nested us

/-- A prelude that cannot be read fails. -/
theorem exists_leads_fails_prelude {e : SyntaxError} {us : List Token}
    (hstart : StartsStatement (p ++ t :: us)) (hpass : passes [] p = some [])
    (hnone : passToken t [] = none) (hstop : ¬t.Stops (!outer.isEmpty))
    (hlocation : e.location = (groupAfter [] none p).getD t.location)
    (htoken : t.kind.fault? = some e.token) (items : Items) :
    ∃ s, Leads ⟨.head, items, outer, p ++ t :: us⟩ s ∧ s.turn = .fails e := by
  have hend := atEnd_append_of_not_stops hpass hstop us
  obtain ⟨s, hs, hturn, -, rfl, hrest⟩ := exists_leads_prelude hstart hend hpass items
  refine ⟨s, hs, ?_⟩
  have he : (⟨(groupAfter [] none p).getD t.location, t.kind.fault?.getD ""⟩ : SyntaxError) = e := by
    rw [← hlocation, htoken]
    rfl
  rw [hturn, State.statementTurn, hrest]
  simp only [hnone]
  split
  · rename_i hk
    exact absurd (.inl hk) hstop
  · rename_i hk
    exact absurd (.inr (.inl hk)) hstop
  · rw [if_neg, he]
    intro hclose
    obtain ⟨hnested, hk⟩ := Bool.and_eq_true_iff.1 hclose
    exact hstop (.inr (.inr ⟨hnested, eq_of_beq hk⟩))

/-- **What cannot be read** makes the machine fail with the same error. -/
theorem exists_leads_fails {nested : Bool} {e : SyntaxError} (h : Rejects nested ts e)
    (hnested : nested = !outer.isEmpty) (items : Items) :
    ∃ s, Leads ⟨.head, items, outer, ts⟩ s ∧ s.turn = .fails e := by
  induction h generalizing outer items with
  | trivia ht h ih =>
    obtain ⟨s, hs, hfails⟩ := ih hnested items
    exact ⟨s, (Leads.of_turn (turn_trivia ht)).trans hs, hfails⟩
  | prelude hstart hpass hnone hstop hlocation htoken =>
    obtain rfl := hnested
    exact exists_leads_fails_prelude hstart hpass hnone hstop hlocation htoken items
  | semicolon hstart hpass hk h ih =>
    obtain ⟨s, hs, hfails⟩ := ih hnested _
    exact ⟨s, (leads_semicolon hstart hpass hk items outer _).trans hs, hfails⟩
  | @inBlock nested p ts brace e hstart hpass hbrace h ih =>
    have hblock : true = !(Frame.mk (p ++ brace :: ts) p items :: outer).isEmpty := rfl
    obtain ⟨s, hs, hfails⟩ := ih hblock {}
    exact ⟨s, (leads_enter hstart hpass hbrace items outer ts).trans hs, hfails⟩
  | @behindBlock nested p body ts brace close inner e hstart hpass hbrace hbody hclose h ih =>
    have hblock : EndsItems
        (!(Frame.mk (p ++ brace :: (body ++ close :: ts)) p items :: outer).isEmpty) false
        (close :: ts) := ⟨rfl, close, ts, rfl, hclose⟩
    obtain ⟨s, hs, hfails⟩ := ih hnested _
    have henter := leads_enter hstart hpass hbrace items outer (body ++ close :: ts)
    have hread := leads_of_reads hbody hblock {}
    exact ⟨s, henter.trans (hread.trans ((leads_leave hblock inner).trans hs)), hfails⟩

/-- **The machine** comes to the result of the parser. -/
theorem exists_leads_result (css : String) :
    ∃ s, Leads (.start css) s ∧ s.result? = some (Sheet.parse css) := by
  cases hparse : Sheet.parse css with
  | ok sheet =>
    obtain ⟨nodes⟩ := sheet
    obtain ⟨items, hreads, hnodes⟩ := parse_eq_ok_iff.1 hparse
    obtain rfl : nodes = items.nodes := hnodes
    have hend : EndsItems (!([] : List Frame).isEmpty) true [] := rfl
    have hleads := leads_of_reads hreads hend {}
    rw [List.append_nil] at hleads
    exact ⟨_, hleads, rfl⟩
  | error e =>
    rw [Sheet.parse] at hparse
    have hitems : parseItems false _ _ = .error e :=
      (bind_eq_error_iff.1 hparse).resolve_right (by simp [pure, Except.pure])
    have hrejects := rejects_of_parseItems (Nat.lt_succ_self _) hitems
    have hnested : false = !([] : List Frame).isEmpty := rfl
    obtain ⟨s, hs, hfails⟩ := exists_leads_fails hrejects hnested {}
    refine ⟨s, hs, ?_⟩
    rw [State.result?, hfails]

end GlyphTrim.Css.Machine
