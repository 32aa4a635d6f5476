import GlyphTrim.Text.Position
import Mathlib.Algebra.GroupWithZero.Nat
import Mathlib.Data.List.Basic

/-!
# The line in front of a place

A position tells the line that holds a place, and the columns of what stands in front of the place
in that line. `isLineFront_lineFront` says that this is the text behind the last line break, as
the line is printed, and `col_position` counts its columns.
-/

namespace GlyphTrim.Text

/-- What the line of a place has in front of the place. -/
def lineFront (text : List Char) (place : Nat) : List Char :=
  let start := lineStart place ⟨1, 0, text⟩ 0 text
  start.rest.take (place - start.place)

/-- The columns of a text in front of a place. -/
def columns (front : List Char) : Nat := (front.map columnsBefore).sum

/-- A text is what a printed line has in front of a place: it begins behind a line break or at the
start of the text, and holds no line feed. -/
structure IsLineFront (text : List Char) (place : Nat) (line front : List Char) : Prop where
  isPrefix : front <+: line
  exists_before : ∃ before, text.take place = before ++ front ∧
    ∀ c ∈ before.getLast?, c = '\n' ∨ c = '\r'
  no_lineFeed : '\n' ∉ front

/-! ## Where a line begins -/

/-- A line begins behind a line break or at the start of the text. -/
def BeginsLine (text : List Char) (start : LineStart) : Prop :=
  ∃ before, text = before ++ start.rest ∧ before.length = start.place ∧
    ∀ c ∈ before.getLast?, c = '\n' ∨ c = '\r'

/-- The state of a search for the line of a place: from the start of a line the search has come
to `at_`, with `rest` behind it, and has met no line feed. -/
structure Searching (text : List Char) (start : LineStart) (at_ : Nat) (rest : List Char) :
    Prop where
  beginsLine : BeginsLine text start
  exists_passed : ∃ passed, start.rest = passed ++ rest ∧ start.place + passed.length = at_ ∧
    '\n' ∉ passed

variable {text rest : List Char} {start : LineStart} {at_ place : Nat}

/-- The search goes on in the same line. -/
theorem Searching.next {c : Char} (h : Searching text start at_ (c :: rest)) (hc : c ≠ '\n') :
    Searching text start (at_ + 1) rest := by
  obtain ⟨passed, hrest, hat, hpassed⟩ := h.exists_passed
  refine ⟨h.beginsLine, passed ++ [c], by simp [hrest], by simp; omega, ?_⟩
  simp [hpassed, Ne.symm hc]

/-- The search goes on in a new line. -/
theorem Searching.next_line (brk : List Char) (h : Searching text start at_ (brk ++ rest))
    (hne : brk ≠ []) (hbrk : ∀ c ∈ brk.getLast?, c = '\n' ∨ c = '\r') (line : Nat) :
    Searching text ⟨line, at_ + brk.length, rest⟩ (at_ + brk.length) rest := by
  obtain ⟨before, htext, hlength, -⟩ := h.beginsLine
  obtain ⟨passed, hrest, hat, -⟩ := h.exists_passed
  refine ⟨⟨before ++ passed ++ brk, by simp [htext, hrest], by simp; omega, ?_⟩,
    ⟨[], rfl, rfl, List.not_mem_nil⟩⟩
  rw [List.getLast?_append_of_ne_nil _ hne]
  exact hbrk

/-- The search has come to the place or past it. -/
theorem Searching.no_lineFeed (h : Searching text start at_ rest) (hle : place ≤ at_) :
    '\n' ∉ start.rest.take (place - start.place) := by
  obtain ⟨passed, hrest, hat, hpassed⟩ := h.exists_passed
  rw [hrest, List.take_append_of_le_length (by omega)]
  exact fun hmem => hpassed (List.mem_of_mem_take hmem)

theorem lt_of_not_reaches {next : Nat} (h : ¬ reaches place next rest = true)
    (hin : place < next + rest.length) : place < next := by
  unfold reaches at h
  cases rest with
  | nil => simpa using hin
  | cons c rest => simpa using h

/-- **The line that is found** begins behind a line break or at the start of the text, at or in
front of the place, and has no line feed in front of it. -/
theorem Searching.found (h : Searching text start at_ rest) (hle : start.place ≤ place)
    (hin : place < at_ + rest.length) :
    BeginsLine text (lineStart place start at_ rest) ∧
      (lineStart place start at_ rest).place ≤ place ∧
      '\n' ∉ (lineStart place start at_ rest).rest.take
        (place - (lineStart place start at_ rest).place) := by
  fun_induction lineStart place start at_ rest with
  | case1 start at_ =>
    rw [List.length_nil] at hin
    exact ⟨h.beginsLine, hle, h.no_lineFeed (by omega)⟩
  | case2 start at_ rest hreaches ih =>
    have hnext : at_ + 2 ≤ place := by simp_all [reaches]
    exact ih (h.next_line ['\r', '\n'] (by simp) (by simp) _) hnext
      (by simp at hin; omega)
  | case3 start at_ rest hstays =>
    -- the place can be between the two characters of the line break
    have hlt := lt_of_not_reaches hstays (by simp at hin; omega)
    exact ⟨h.beginsLine, hle, (h.next (by decide)).no_lineFeed (by omega)⟩
  | case4 start at_ c rest hcr hbreak hreaches ih =>
    have hnext : at_ + 1 ≤ place := by simp_all [reaches]
    exact ih (h.next_line [c] (by simp) (by simpa [or_comm] using hbreak) _) hnext
      (by simp at hin; omega)
  | case5 start at_ c rest hcr hbreak hstays =>
    have hlt := lt_of_not_reaches hstays (by simp at hin; omega)
    exact ⟨h.beginsLine, hle, h.no_lineFeed (by omega)⟩
  | case6 start at_ c rest hcr hbreak ih =>
    have hc : c ≠ '\n' := by simp_all
    exact ih (h.next hc) hle (by simp at hin; omega)

/-! ## The line of a position -/

/-- Text without a line feed stays on its line. -/
theorem take_prefix_takeWhile {cs : List Char} {n : Nat} (h : '\n' ∉ cs.take n) :
    cs.take n <+: cs.takeWhile (· != '\n') := by
  have hall : ∀ c ∈ cs.take n, (c != '\n') = true := by
    intro c hc
    exact bne_iff_ne.2 fun heq => h (heq ▸ hc)
  conv_rhs => rw [← List.take_append_drop n cs]
  rw [List.takeWhile_append_of_pos hall]
  exact List.prefix_append _ _

/-- **The printed line** of a place inside the text has the text between the last line break and
the place in front of it. -/
theorem isLineFront_lineFront (hin : place < text.length) :
    IsLineFront text place (position text place).sourceLine.toList (lineFront text place) := by
  have hsearch : Searching text ⟨1, 0, text⟩ 0 text :=
    ⟨⟨[], rfl, rfl, by simp⟩, [], rfl, rfl, List.not_mem_nil⟩
  obtain ⟨⟨before, htext, hlength, hbreak⟩, hle, hfeed⟩ :=
    hsearch.found (Nat.zero_le place) (by simpa using hin)
  refine ⟨?_, ⟨before, ?_, hbreak⟩, hfeed⟩
  · rw [position, String.toList_ofList]
    exact take_prefix_takeWhile hfeed
  · have htake := congrArg (List.take place) htext
    have hbefore : before.take place = before := List.take_of_length_le (by omega)
    rwa [List.take_append, hbefore, hlength] at htake

/-- The column of a position counts what the line has in front of the place. -/
theorem col_position (text : List Char) (place : Nat) :
    (position text place).col = 1 + columns (lineFront text place) := by
  have hone (ns : List Nat) : ns.foldl (· + ·) (1 + 0) = 1 + ns.foldl (· + ·) 0 :=
    List.foldl_assoc
  rw [columns, List.sum_eq_foldl, ← hone]
  rfl

end GlyphTrim.Text
