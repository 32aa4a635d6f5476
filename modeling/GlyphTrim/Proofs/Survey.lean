import Mathlib.Data.List.Lex
import Mathlib.Data.List.Sort

/-!
# Surveys of trees

In a tree of things of any kind, an address is the numbers of the parts that lead to a thing from
the outside in. `exists_survey` says that a listing which takes each thing before its parts, and the
parts in their order, goes through the addresses in increasing order and takes each of them once. So
two such listings can be compared address by address (`map_found_eq_iff`). `surveyOf` puts the
survey of a thing together from the surveys of its parts.
-/

namespace GlyphTrim

variable {α β : Type} {look : α → List Nat → Option β} {listing : α → List β}

/-! ## Putting surveys of parts together -/

/-- Surveys of parts, one after another behind the numbers of the parts from `k` on. -/
def numbered (k : Nat) : List (List (List Nat × β)) → List (List Nat × β)
  | [] => []
  | found :: founds => found.map (fun f => (k :: f.1, f.2)) ++ numbered (k + 1) founds

/-- The survey of a thing: what stands at the thing itself, then the surveys of its parts. -/
def surveyOf (here : Option β) (founds : List (List (List Nat × β))) : List (List Nat × β) :=
  here.toList.map (Prod.mk []) ++ numbered 0 founds

variable {founds : List (List (List Nat × β))}

theorem mem_numbered_iff {k : Nat} {l : List Nat} {b : β} :
    (l, b) ∈ numbered k founds ↔
      ∃ n found rest, l = (k + n) :: rest ∧ founds[n]? = some found ∧ (rest, b) ∈ found := by
  induction founds generalizing k with
  | nil => simp [numbered]
  | cons found founds ih =>
    rw [numbered, List.mem_append, ih]
    constructor
    · rintro (hl | ⟨n, found', rest, rfl, hfound, hb⟩)
      · obtain ⟨⟨rest, b'⟩, hmem, heq⟩ := List.mem_map.1 hl
        obtain ⟨rfl, rfl⟩ := Prod.mk.inj heq
        exact ⟨0, found, rest, rfl, rfl, hmem⟩
      · exact ⟨n + 1, found', rest, by rw [Nat.add_right_comm, Nat.add_assoc], hfound, hb⟩
    · rintro ⟨n, found', rest, rfl, hfound, hb⟩
      cases n with
      | zero =>
        obtain rfl : found = found' := by simpa using hfound
        exact .inl (List.mem_map.2 ⟨(rest, b), hb, rfl⟩)
      | succ n =>
        exact .inr ⟨n, found', rest, by rw [Nat.add_right_comm, Nat.add_assoc], hfound, hb⟩

/-- The numbers keep the order of the parts. -/
theorem pairwise_numbered (h : ∀ found ∈ founds, found.Pairwise (·.1 < ·.1)) (k : Nat) :
    (numbered k founds).Pairwise (·.1 < ·.1) := by
  induction founds generalizing k with
  | nil => exact List.Pairwise.nil
  | cons found founds ih =>
    refine List.pairwise_append.2 ⟨?_, ih (fun f hf => h f (List.mem_cons_of_mem _ hf)) (k + 1), ?_⟩
    · refine List.pairwise_map.2 ((h found List.mem_cons_self).imp fun hlt => ?_)
      exact List.cons_lt_cons_iff.2 (.inr ⟨rfl, hlt⟩)
    · rintro _ hf ⟨l, b⟩ hg
      obtain ⟨f, -, rfl⟩ := List.mem_map.1 hf
      obtain ⟨n, found', rest, rfl, -, -⟩ := mem_numbered_iff.1 hg
      exact List.cons_lt_cons_iff.2 (.inl (by omega))

theorem map_snd_numbered (k : Nat) (founds : List (List (List Nat × β))) :
    (numbered k founds).map (·.2) = founds.flatMap fun found => found.map (·.2) := by
  induction founds generalizing k with
  | nil => rfl
  | cons found founds ih =>
    rw [numbered, List.map_append, ih, List.map_map, List.flatMap_cons]
    rfl

variable {here : Option β} {b : β}

theorem nil_mem_surveyOf_iff : ([], b) ∈ surveyOf here founds ↔ here = some b := by
  simp [surveyOf, mem_numbered_iff]

theorem cons_mem_surveyOf_iff {n : Nat} {l : List Nat} :
    (n :: l, b) ∈ surveyOf here founds ↔ ∃ found, founds[n]? = some found ∧ (l, b) ∈ found := by
  simp [surveyOf, mem_numbered_iff]

theorem pairwise_surveyOf (here : Option β) (h : ∀ found ∈ founds, found.Pairwise (·.1 < ·.1)) :
    (surveyOf here founds).Pairwise (·.1 < ·.1) := by
  refine List.pairwise_append.2 ⟨by cases here <;> simp, pairwise_numbered h 0, ?_⟩
  rintro f hf ⟨l, c⟩ hg
  obtain ⟨b, -, rfl⟩ := List.mem_map.1 hf
  obtain ⟨n, found, rest, rfl, -, -⟩ := mem_numbered_iff.1 hg
  exact List.nil_lt_cons _ _

theorem map_snd_surveyOf (here : Option β) (founds : List (List (List Nat × β))) :
    (surveyOf here founds).map (·.2) =
      here.toList ++ founds.flatMap fun found => found.map (·.2) := by
  rw [surveyOf, List.map_append, map_snd_numbered, List.map_map]
  simp [Function.comp_def]

/-! ## Listings -/

variable [SizeOf α] {parts : α → List α} {label : α → Option β}

/-- **A listing that takes each thing before its parts** is a survey: it goes through the addresses
where there is something in increasing order, each once. -/
theorem exists_survey (hsize : ∀ {x y : α}, y ∈ parts x → sizeOf y < sizeOf x)
    (hnil : ∀ x, look x [] = label x)
    (hcons : ∀ x n l, look x (n :: l) = (parts x)[n]?.bind (look · l))
    (hlisting : ∀ x, listing x = (label x).toList ++ (parts x).flatMap listing) (x : α) :
    ∃ found : List (List Nat × β), found.Pairwise (·.1 < ·.1) ∧
      (∀ l b, (l, b) ∈ found ↔ look x l = some b) ∧ listing x = found.map (·.2) := by
  have hparts : ∀ y ∈ parts x, ∃ found : List (List Nat × β), found.Pairwise (·.1 < ·.1) ∧
      (∀ l b, (l, b) ∈ found ↔ look y l = some b) ∧ listing y = found.map (·.2) :=
    fun y _ => exists_survey hsize hnil hcons hlisting y
  choose! found hincreasing hmem hlist using hparts
  refine ⟨surveyOf (label x) ((parts x).map found), pairwise_surveyOf _ ?_, fun l b => ?_, ?_⟩
  · intro f hf
    obtain ⟨y, hy, rfl⟩ := List.mem_map.1 hf
    exact hincreasing y hy
  · cases l with
    | nil => rw [nil_mem_surveyOf_iff, hnil]
    | cons n l =>
      rw [cons_mem_surveyOf_iff, hcons, List.getElem?_map, Option.bind_eq_some_iff]
      constructor
      · rintro ⟨f, hf, hb⟩
        obtain ⟨y, hy, rfl⟩ := Option.map_eq_some_iff.1 hf
        exact ⟨y, hy, (hmem y (List.mem_of_getElem? hy) l b).1 hb⟩
      · rintro ⟨y, hy, hb⟩
        exact ⟨found y, by rw [hy]; rfl, (hmem y (List.mem_of_getElem? hy) l b).2 hb⟩
  · rw [hlisting, map_snd_surveyOf, List.flatMap_map, List.flatMap_congr hlist]
  termination_by sizeOf x
  decreasing_by exact hsize (by assumption)

/-! ## Surveys side by side -/

section

variable {γ : Type} {look look' : List Nat → Option β} {found found' : List (List Nat × β)}

theorem mem_addresses_iff (hmem : ∀ l b, (l, b) ∈ found ↔ look l = some b) {l : List Nat} :
    l ∈ found.map (·.1) ↔ (look l).isSome = true := by
  rw [Option.isSome_iff_exists, List.mem_map]
  constructor
  · rintro ⟨⟨l, b⟩, hf, rfl⟩
    exact ⟨b, (hmem l b).1 hf⟩
  · rintro ⟨b, hb⟩
    exact ⟨(l, b), (hmem l b).2 hb, rfl⟩

theorem map_some_found (hmem : ∀ l b, (l, b) ∈ found ↔ look l = some b) (g : β → γ) :
    (found.map fun f => g f.2).map some = (found.map (·.1)).map fun l => (look l).map g := by
  rw [List.map_map, List.map_map]
  refine List.map_congr_left fun f hf => ?_
  rw [Function.comp_apply, Function.comp_apply, (hmem f.1 f.2).1 hf, Option.map_some]

/-- **Two surveys** with the same addresses list the same, up to `g`, exactly if the same stands at
each address, up to `g`. -/
theorem map_found_eq_iff (hincreasing : found.Pairwise (·.1 < ·.1))
    (hmem : ∀ l b, (l, b) ∈ found ↔ look l = some b) (hincreasing' : found'.Pairwise (·.1 < ·.1))
    (hmem' : ∀ l b, (l, b) ∈ found' ↔ look' l = some b)
    (hsome : ∀ l, (look l).isSome = (look' l).isSome) (g : β → γ) :
    (found.map fun f => g f.2) = (found'.map fun f => g f.2) ↔
      ∀ l, (look l).map g = (look' l).map g := by
  have haddresses : found.map (·.1) = found'.map (·.1) :=
    (List.pairwise_map.2 hincreasing).eq_of_mem_iff (List.pairwise_map.2 hincreasing') fun l => by
      rw [mem_addresses_iff hmem, mem_addresses_iff hmem', hsome]
  rw [← List.map_inj_right fun _ _ => Option.some.inj, map_some_found hmem, map_some_found hmem',
    ← haddresses, List.map_inj_left]
  refine ⟨fun h l => ?_, fun h l _ => h l⟩
  by_cases hl : (look l).isSome = true
  · exact h l ((mem_addresses_iff hmem).2 hl)
  · have hl' : ¬ (look' l).isSome = true := by rwa [← hsome]
    rw [Option.not_isSome_iff_eq_none.1 hl, Option.not_isSome_iff_eq_none.1 hl']

end

end GlyphTrim
