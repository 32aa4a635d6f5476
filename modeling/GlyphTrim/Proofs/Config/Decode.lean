import GlyphTrim.Config.Decode
import Mathlib.Data.List.Nodup

/-!
# Which documents are configurations

A document is a configuration if it has no names but those of fields and the configuration *matches*
it: each field has the value that the document has for it, and a field that is not in the document
may be missing and is empty (`Config.ofDocument_eq_ok_iff`).
-/

namespace GlyphTrim.Config

/-! ## Fields and their values -/

/-- Whether a field may be missing. -/
def Field.isOptional : Field → Bool
  | excludeClasses | excludeFilePath => true
  | entry | stylesheet | font | iconPrefix => false

/-- The configuration has the value for the field, or the empty list if there is no value and the
field may be missing. -/
def Gives (c : Config) (f : Field) : Option JsonValue → Prop
  | some v => c.value f = v
  | none => f.isOptional = true ∧ c.value f = .list []

/-- The configuration says what the document says. -/
def Matches (c : Config) (d : Document) : Prop := ∀ f : Field, c.Gives f (d.find? f.name)

theorem Field.ofName?_eq_some_iff {name : String} {f : Field} :
    Field.ofName? name = some f ↔ name = f.name := by
  constructor
  · intro h
    have hname := List.find?_some (p := fun f : Field => f.name == name) h
    exact (eq_of_beq hname).symm
  · rintro rfl
    cases f <;> decide

theorem Field.isSome_ofName?_iff {name : String} :
    (Field.ofName? name).isSome = true ↔ ∃ f : Field, name = f.name := by
  rw [Option.isSome_iff_exists]
  exact exists_congr fun f => ofName?_eq_some_iff

theorem map_string_inj {ss ts : List String} :
    ss.map JsonValue.string = ts.map JsonValue.string ↔ ss = ts :=
  List.map_inj_right fun _ _ => JsonValue.string.inj

/-- A configuration is known by its values. -/
theorem ext_value {c c' : Config} (h : ∀ f, c.value f = c'.value f) : c = c' := by
  obtain ⟨entry, stylesheet, font, iconPrefix, excludeClasses, excludeFilePath⟩ := c
  obtain ⟨entry', stylesheet', font', iconPrefix', excludeClasses', excludeFilePath'⟩ := c'
  have hentry := map_string_inj.1 (JsonValue.list.inj (h .entry))
  have hstylesheet := JsonValue.string.inj (h .stylesheet)
  have hfont := JsonValue.string.inj (h .font)
  have hprefix := JsonValue.string.inj (h .iconPrefix)
  have hclasses := map_string_inj.1 (JsonValue.list.inj (h .excludeClasses))
  have hpaths := map_string_inj.1 (JsonValue.list.inj (h .excludeFilePath))
  dsimp only at hentry hstylesheet hfont hprefix hclasses hpaths
  subst hentry hstylesheet hfont hprefix hclasses hpaths
  rfl

/-- A field that may not be missing is there. -/
theorem Gives.eq_some {c : Config} {f : Field} {v : Option JsonValue} (h : c.Gives f v)
    (hf : f.isOptional = false) : v = some (c.value f) := by
  cases v with
  | some v => exact congrArg some (Eq.symm h)
  | none => exact absurd h.1 (by simp [hf])

theorem Gives.value_eq {c c' : Config} {f : Field} {v : Option JsonValue} (h : c.Gives f v)
    (h' : c'.Gives f v) : c.value f = c'.value f := by
  cases v with
  | some v => exact Eq.trans h (Eq.symm h')
  | none => exact h.2.trans h'.2.symm

/-! ## Decoding values -/

theorem decodeString_eq_ok_iff {v : JsonValue} {s : String} :
    decodeString v = .ok s ↔ v = .string s := by
  cases v <;> simp [decodeString]

theorem mapM_decodeString_eq_ok_iff {items : List JsonValue} {ss : List String} :
    items.mapM decodeString = .ok ss ↔ items = ss.map .string := by
  induction items generalizing ss with
  | nil => cases ss <;> simp [pure, Except.pure]
  | cons v items ih =>
    rw [List.mapM_cons]
    cases hv : decodeString v with
    | error e =>
      refine iff_of_false (by simp [bind, Except.bind]) ?_
      rintro hss
      obtain ⟨s, ss, rfl, rfl, -⟩ := List.map_eq_cons_iff.1 hss.symm
      exact absurd hv (by simp [decodeString])
    | ok s =>
      rw [decodeString_eq_ok_iff.1 hv]
      cases hrest : items.mapM decodeString with
      | error e =>
        refine iff_of_false (by simp [bind, Except.bind]) ?_
        rintro hss
        obtain ⟨t, ts, rfl, -, hts⟩ := List.map_eq_cons_iff.1 hss.symm
        exact absurd (ih.2 hts.symm) (by simp [hrest])
      | ok ts =>
        rw [ih.1 hrest, ← List.map_cons, map_string_inj]
        simp [bind, Except.bind, pure, Except.pure]

theorem decodeStrings_eq_ok_iff {v : JsonValue} {ss : List String} :
    decodeStrings v = .ok ss ↔ v = .list (ss.map .string) := by
  cases v with
  | list items => rw [decodeStrings, mapM_decodeString_eq_ok_iff, JsonValue.list.injEq]
  | null | bool | number | string | object => simp [decodeStrings]

theorem exists_of_map_eq_ok {ε α β : Type} {x : Except ε α} {f : α → β} {b : β}
    (h : x.map f = .ok b) : ∃ a, x = .ok a ∧ f a = b := by
  cases x with
  | error e => exact absurd h (by simp [Except.map])
  | ok a => exact ⟨a, rfl, Except.ok.inj h⟩

/-! ## Drafts -/

namespace Draft

/-- The value of a field that is known. -/
def value? (d : Draft) : Field → Option JsonValue
  | .entry => d.entry.map fun ss => .list (ss.map .string)
  | .stylesheet => d.stylesheet.map .string
  | .font => d.font.map .string
  | .iconPrefix => d.iconPrefix.map .string
  | .excludeClasses => d.excludeClasses.map fun ss => .list (ss.map .string)
  | .excludeFilePath => d.excludeFilePath.map fun ss => .list (ss.map .string)

variable {d d' : Draft}

/-- A member counts for the field that it is named after. -/
theorem value?_add {m : JsonMember} (h : d.add m = .ok d') :
    ∃ f : Field, m.name = f.name ∧
      ∀ g, d'.value? g = if f = g then some m.value else d.value? g := by
  cases hf : Field.ofName? m.name with
  | none =>
    rw [add, hf] at h
    exact absurd h (by simp)
  | some f =>
    refine ⟨f, Field.ofName?_eq_some_iff.1 hf, ?_⟩
    rw [add, hf] at h
    cases f with
    | stylesheet | font | iconPrefix =>
      obtain ⟨s, hs, rfl⟩ := exists_of_map_eq_ok h
      rw [decodeString_eq_ok_iff.1 hs]
      intro g
      cases g <;> rfl
    | entry | excludeClasses | excludeFilePath =>
      obtain ⟨ss, hss, rfl⟩ := exists_of_map_eq_ok h
      rw [decodeStrings_eq_ok_iff.1 hss]
      intro g
      cases g <;> rfl

/-- A value that some configuration has for a field counts. -/
theorem exists_add_eq_ok {m : JsonMember} {f : Field} {c : Config} (hname : m.name = f.name)
    (hvalue : c.value f = m.value) (d : Draft) : ∃ d', d.add m = .ok d' := by
  rw [add, Field.ofName?_eq_some_iff.2 hname, ← hvalue]
  cases f with
  | stylesheet | font | iconPrefix => exact ⟨_, rfl⟩
  | entry | excludeClasses | excludeFilePath =>
    simp only [value, decodeStrings_eq_ok_iff.2 rfl]
    exact ⟨_, rfl⟩

/-- The value of a field is the one of the member that is named after it. -/
theorem value?_foldlM {ms : List JsonMember} (hnames : (ms.map JsonMember.name).Nodup)
    (h : ms.foldlM add d = .ok d') (g : Field) :
    d'.value? g = ((ms.find? (·.name == g.name)).map JsonMember.value).or (d.value? g) := by
  induction ms generalizing d with
  | nil =>
    obtain rfl : d = d' := Except.ok.inj h
    rfl
  | cons m ms ih =>
    rw [List.foldlM_cons] at h
    cases hadd : d.add m with
    | error e =>
      rw [hadd] at h
      exact absurd h (by simp [bind, Except.bind])
    | ok between =>
      rw [hadd] at h
      obtain ⟨hm, hrest⟩ := List.nodup_cons.1 hnames
      obtain ⟨f, hf, hvalue⟩ := value?_add hadd
      rw [ih hrest h, hvalue, List.find?_cons]
      by_cases hfg : f = g
      · subst hfg
        have hnone : ms.find? (·.name == f.name) = none := by
          rw [List.find?_eq_none]
          intro x hx hxname
          exact hm (List.mem_map.2 ⟨x, hx, (eq_of_beq hxname).trans hf.symm⟩)
        have hbeq : (m.name == f.name) = true := by simpa using hf
        rw [hnone, hbeq, if_pos rfl]
        rfl
      · have hbeq : (m.name == g.name) = false := by
          rw [beq_eq_false_iff_ne, hf]
          intro hname
          have hsome := Field.ofName?_eq_some_iff.2 hname
          rw [Field.ofName?_eq_some_iff.2 rfl] at hsome
          exact hfg (Option.some.inj hsome)
        rw [hbeq, if_neg hfg]

theorem forall_isSome_of_foldlM {ms : List JsonMember} (h : ms.foldlM add d = .ok d') :
    ∀ m ∈ ms, ∃ f : Field, m.name = f.name := by
  induction ms generalizing d with
  | nil => exact fun m hm => absurd hm List.not_mem_nil
  | cons m ms ih =>
    rw [List.foldlM_cons] at h
    cases hadd : d.add m with
    | error e =>
      rw [hadd] at h
      exact absurd h (by simp [bind, Except.bind])
    | ok between =>
      rw [hadd] at h
      obtain ⟨f, hf, -⟩ := value?_add hadd
      exact List.forall_mem_cons.2 ⟨⟨f, hf⟩, ih h⟩

theorem exists_foldlM_eq_ok {ms : List JsonMember}
    (h : ∀ m ∈ ms, ∃ f : Field, m.name = f.name ∧ ∃ c : Config, c.value f = m.value) (d : Draft) :
    ∃ d', ms.foldlM add d = .ok d' := by
  induction ms generalizing d with
  | nil => exact ⟨d, rfl⟩
  | cons m ms ih =>
    obtain ⟨⟨f, hname, c, hvalue⟩, hms⟩ := List.forall_mem_cons.1 h
    obtain ⟨between, hadd⟩ := exists_add_eq_ok hname hvalue d
    rw [List.foldlM_cons, hadd]
    exact ih hms between

/-- A draft is finished by the configuration that has its values. -/
theorem finish_eq_ok_iff {c : Config} : d.finish = .ok c ↔ ∀ f, c.Gives f (d.value? f) := by
  have hgives : ∀ {c : Config}, d.finish = .ok c → ∀ f, c.Gives f (d.value? f) := by
    intro c h
    obtain ⟨entry, stylesheet, font, iconPrefix, excludeClasses, excludeFilePath⟩ := d
    unfold finish at h
    split at h
    case h_5 hentry hstylesheet hfont hprefix =>
      dsimp only at hentry hstylesheet hfont hprefix
      subst hentry hstylesheet hfont hprefix
      obtain rfl := Except.ok.inj h
      intro f
      cases f with
      | entry | stylesheet | font | iconPrefix => rfl
      | excludeClasses => cases excludeClasses <;> simp [value?, Gives, Field.isOptional, value]
      | excludeFilePath => cases excludeFilePath <;> simp [value?, Gives, Field.isOptional, value]
    all_goals exact absurd h (by simp)
  refine ⟨hgives, fun h => ?_⟩
  obtain ⟨entry, hentry, -⟩ := Option.map_eq_some_iff.1 ((h .entry).eq_some rfl)
  obtain ⟨stylesheet, hstylesheet, -⟩ := Option.map_eq_some_iff.1 ((h .stylesheet).eq_some rfl)
  obtain ⟨font, hfont, -⟩ := Option.map_eq_some_iff.1 ((h .font).eq_some rfl)
  obtain ⟨iconPrefix, hprefix, -⟩ := Option.map_eq_some_iff.1 ((h .iconPrefix).eq_some rfl)
  obtain ⟨c', hc'⟩ : ∃ c', d.finish = .ok c' := by
    rw [finish, hentry, hstylesheet, hfont, hprefix]
    exact ⟨_, rfl⟩
  rw [hc', ext_value fun f => (hgives hc' f).value_eq (h f)]

end Draft

/-! ## Documents -/

theorem find?_of_mem {d : Document} {m : JsonMember} (h : m ∈ d.members) :
    d.find? m.name = some m.value := by
  obtain ⟨x, hx⟩ := Option.isSome_iff_exists.1
    (List.find?_isSome (p := fun x : JsonMember => x.name == m.name).2 ⟨m, h, by simp⟩)
  have hname : x.name = m.name := by simpa using List.find?_some hx
  obtain rfl := List.inj_on_of_nodup_map d.distinct (List.mem_of_find?_eq_some hx) h hname
  rw [Document.find?, hx]
  rfl

/-- **Which documents are configurations**: all names are names of fields, and the values are those
of the configuration. -/
theorem ofDocument_eq_ok_iff {d : Document} {c : Config} : ofDocument d = .ok c ↔
    (∀ n ∈ d.names, (Field.ofName? n).isSome = true) ∧ c.Matches d := by
  have hvalue : ∀ {draft : Draft}, d.members.foldlM Draft.add {} = .ok draft →
      ∀ f : Field, draft.value? f = d.find? f.name := by
    intro draft hdraft f
    rw [Draft.value?_foldlM d.distinct hdraft, Document.find?]
    cases f <;> exact Option.or_none
  have hfinish : ∀ {draft : Draft}, d.members.foldlM Draft.add {} = .ok draft →
      (ofDocument d = .ok c ↔ c.Matches d) := by
    intro draft hdraft
    rw [ofDocument, hdraft, Matches]
    simp only [Draft.finish_eq_ok_iff, hvalue hdraft]
  constructor
  · intro h
    cases hdraft : d.members.foldlM Draft.add {} with
    | error e =>
      rw [ofDocument, hdraft] at h
      exact absurd h (by simp)
    | ok draft =>
      refine ⟨fun n hn => ?_, (hfinish hdraft).1 h⟩
      obtain ⟨m, hm, rfl⟩ := List.mem_map.1 hn
      exact Field.isSome_ofName?_iff.2 (Draft.forall_isSome_of_foldlM hdraft m hm)
  · rintro ⟨hnames, hmatches⟩
    have hmembers : ∀ m ∈ d.members, ∃ f : Field, m.name = f.name ∧
        ∃ c : Config, c.value f = m.value := by
      intro m hm
      obtain ⟨f, hf⟩ := Field.isSome_ofName?_iff.1 (hnames m.name (List.mem_map_of_mem hm))
      refine ⟨f, hf, c, ?_⟩
      have hgives := hmatches f
      rwa [← hf, find?_of_mem hm] at hgives
    obtain ⟨draft, hdraft⟩ := Draft.exists_foldlM_eq_ok hmembers {}
    exact (hfinish hdraft).2 hmatches

end GlyphTrim.Config
