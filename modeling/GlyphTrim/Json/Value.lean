import GlyphTrim.Number.Binary64

/-!
# JSON

A JSON value, and a *document*: the members of an object, of which no two have the same name. A
document keeps its members in the order in which their names first came.
-/

namespace GlyphTrim

/-- A number. Whole numbers of 64 bits are exact, others are rounded. -/
inductive JsonNumber
  | natural (n : Nat)
  /-- The number `-n`. -/
  | negative (n : Nat)
  | real (negative : Bool) (size : Binary64)
  deriving Repr, DecidableEq

mutual

/-- A value. -/
inductive JsonValue
  | null
  | bool (b : Bool)
  | number (n : JsonNumber)
  | string (s : String)
  | list (items : List JsonValue)
  | object (members : List JsonMember)

/-- A member of an object. -/
inductive JsonMember
  | mk (name : String) (value : JsonValue)

end

namespace JsonMember

/-- The name of a member. -/
def name : JsonMember → String
  | mk name _ => name

/-- The value of a member. -/
def value : JsonMember → JsonValue
  | mk _ value => value

/-- The members with a value for a name: a value that was there gives way in its place. -/
def insert (m : JsonMember) : List JsonMember → List JsonMember
  | [] => [m]
  | x :: rest => if x.name = m.name then m :: rest else x :: insert m rest

theorem mem_map_name_insert {m : JsonMember} {ms : List JsonMember} {n : String} :
    n ∈ (insert m ms).map name ↔ n = m.name ∨ n ∈ ms.map name := by
  induction ms with
  | nil => simp [insert]
  | cons x ms ih =>
    by_cases h : x.name = m.name
    · simp [insert, h]
    · simp only [insert, h, if_false, List.map_cons, List.mem_cons, ih]
      exact or_left_comm

theorem nodup_insert {m : JsonMember} {ms : List JsonMember} (h : (ms.map name).Nodup) :
    ((insert m ms).map name).Nodup := by
  induction ms with
  | nil => simp [insert]
  | cons x ms ih =>
    obtain ⟨hx, hms⟩ := List.nodup_cons.1 h
    by_cases hn : x.name = m.name
    · simpa [insert, hn] using List.nodup_cons.2 ⟨hn ▸ hx, hms⟩
    · simp only [insert, hn, if_false, List.map_cons]
      refine List.nodup_cons.2 ⟨?_, ih hms⟩
      rw [mem_map_name_insert]
      exact not_or.2 ⟨hn, hx⟩

end JsonMember

/-- The members of an object. -/
structure Document where
  members : List JsonMember
  /-- No two have the same name. -/
  distinct : (members.map JsonMember.name).Nodup

namespace Document

/-- The document without members. -/
def empty : Document := ⟨[], by simp⟩

/-- The document with a member more. -/
def insert (d : Document) (m : JsonMember) : Document :=
  ⟨JsonMember.insert m d.members, JsonMember.nodup_insert d.distinct⟩

/-- The document of members, of which the last with a name counts. -/
def ofMembers (ms : List JsonMember) : Document := ms.foldl insert empty

/-- The names of the members, in order. -/
def names (d : Document) : List String := d.members.map JsonMember.name

/-- The value of a name. -/
def find? (d : Document) (name : String) : Option JsonValue :=
  (d.members.find? (·.name == name)).map JsonMember.value

end Document

end GlyphTrim
