import GlyphTrim.Proofs.Config.Load
import Mathlib.Data.Set.List
import Mathlib.Tactic.Choose

/-!
# The check and the configurations

What is wrong with a document is either its *shape*, its fields and the types of their values, or
what the values say. A document is a configuration exactly if nothing is wrong with its shape
(`Config.shapeRight_check_iff`), so a document that passes the check is a configuration, and loading
it never fails behind the check (`Config.check_agrees_with_ofDocument`).
-/

namespace GlyphTrim.Config

/-! ## Values that fields can have -/

/-- Whether the values of a field are lists. -/
def Field.isList : Field → Bool
  | entry | excludeClasses | excludeFilePath => true
  | stylesheet | font | iconPrefix => false

/-- Some configuration has the value for the field. -/
def CanGive (f : Field) (v : Option JsonValue) : Prop := ∃ c : Config, c.Gives f v

variable {f : Field}

/-- A field that is missing is one that may be. -/
theorem canGive_none_iff : CanGive f none ↔ f.isOptional = true := by
  constructor
  · rintro ⟨c, hf, -⟩
    exact hf
  · intro hf
    cases f with
    | excludeClasses | excludeFilePath => exact ⟨initial, rfl, rfl⟩
    | entry | stylesheet | font | iconPrefix => exact absurd hf (by decide)

theorem canGive_list_iff (hf : f.isList = true) {items : List JsonValue} :
    CanGive f (some (.list items)) ↔ ∀ v ∈ items, ∃ s, JsonValue.string s = v := by
  have hstrings : (∀ v ∈ items, ∃ s, JsonValue.string s = v) ↔
      ∃ ss, List.map JsonValue.string ss = items :=
    (Set.ext_iff.1 (Set.range_list_map JsonValue.string) items).symm
  rw [hstrings]
  constructor
  · rintro ⟨c, hc⟩
    cases f with
    | entry => exact ⟨c.entry, JsonValue.list.inj hc⟩
    | excludeClasses => exact ⟨c.excludeClasses, JsonValue.list.inj hc⟩
    | excludeFilePath => exact ⟨c.excludeFilePath, JsonValue.list.inj hc⟩
    | stylesheet | font | iconPrefix => exact absurd hf (by decide)
  · rintro ⟨ss, rfl⟩
    cases f with
    | entry => exact ⟨{ initial with entry := ss }, rfl⟩
    | excludeClasses => exact ⟨{ initial with excludeClasses := ss }, rfl⟩
    | excludeFilePath => exact ⟨{ initial with excludeFilePath := ss }, rfl⟩
    | stylesheet | font | iconPrefix => exact absurd hf (by decide)

theorem CanGive.exists_list (hf : f.isList = true) {v : JsonValue} (h : CanGive f (some v)) :
    ∃ items, v = .list items := by
  obtain ⟨c, rfl⟩ := h
  cases f with
  | entry | excludeClasses | excludeFilePath => exact ⟨_, rfl⟩
  | stylesheet | font | iconPrefix => exact absurd hf (by decide)

theorem CanGive.exists_string (hf : f.isList = false) {v : JsonValue} (h : CanGive f (some v)) :
    ∃ s, v = .string s := by
  obtain ⟨c, rfl⟩ := h
  cases f with
  | stylesheet | font | iconPrefix => exact ⟨_, rfl⟩
  | entry | excludeClasses | excludeFilePath => exact absurd hf (by decide)

theorem canGive_string (hf : f.isList = false) (s : String) : CanGive f (some (.string s)) := by
  cases f with
  | stylesheet => exact ⟨{ initial with stylesheet := s }, rfl⟩
  | font => exact ⟨{ initial with font := s }, rfl⟩
  | iconPrefix => exact ⟨{ initial with iconPrefix := s }, rfl⟩
  | entry | excludeClasses | excludeFilePath => exact absurd hf (by decide)

/-- Fields can be given their values one by one. -/
theorem exists_forall_gives_iff {x : Field → Option JsonValue} :
    (∃ c : Config, ∀ f, c.Gives f (x f)) ↔ ∀ f, CanGive f (x f) := by
  refine ⟨fun ⟨c, hc⟩ f => ⟨c, hc f⟩, fun h => ?_⟩
  choose c hc using h
  refine ⟨⟨(c .entry).entry, (c .stylesheet).stylesheet, (c .font).font, (c .iconPrefix).iconPrefix,
    (c .excludeClasses).excludeClasses, (c .excludeFilePath).excludeFilePath⟩, fun f => ?_⟩
  cases f <;> exact hc _

/-! ## The check field by field -/

/-- Whether something is wrong with the fields of a document or the types of their values, and not
with what the values say. -/
def Violation.isOfShape : Violation → Bool
  | unknownField _ | missing _ | entryNotList | itemNotString .. | notString _ | notStringList _ =>
    true
  | noEntry | entryNotThere .. | wrongExtension .. | fileNotThere .. | blankPrefix => false

/-- Nothing is wrong with the shape. -/
def ShapeRight (violations : List Violation) : Prop := ∀ w ∈ violations, w.isOfShape = false

theorem shapeRight_append {vs ws : List Violation} :
    ShapeRight (vs ++ ws) ↔ ShapeRight vs ∧ ShapeRight ws := List.forall_mem_append

theorem shapeRight_singleton {w : Violation} : ShapeRight [w] ↔ w.isOfShape = false :=
  List.forall_mem_singleton

theorem shapeRight_nil : ShapeRight [] := List.forall_mem_nil _

/-- A value that the field cannot have makes the shape wrong. -/
theorem shapeRight_singleton_iff_canGive {w : Violation} (hw : w.isOfShape = true)
    {v : Option JsonValue} (h : ¬ CanGive f v) : ShapeRight [w] ↔ CanGive f v :=
  iff_of_false (by simp [shapeRight_singleton, hw]) h

namespace Site

variable {s : Site}

theorem shapeRight_checkNames_iff {d : Document} :
    ShapeRight (checkNames d) ↔ ∀ n ∈ d.names, (Field.ofName? n).isSome = true := by
  rw [checkNames, ShapeRight, List.forall_mem_map]
  constructor
  · intro h n hn
    by_contra hnone
    have hwrong := h n (List.mem_filter.2 ⟨hn, by simpa using hnone⟩)
    exact absurd hwrong (by simp [Violation.isOfShape])
  · intro h n hn
    obtain ⟨hn, hnone⟩ := List.mem_filter.1 hn
    have hsome := h n hn
    exact absurd hnone (by simp [Option.isSome_iff_ne_none.1 hsome])

/-- Items that are checked one by one have the right shape if they are strings. -/
theorem shapeRight_items_iff {check : Nat → JsonValue → Option Violation}
    (hcheck : ∀ i v, (∀ w ∈ check i v, w.isOfShape = false) ↔ ∃ s, JsonValue.string s = v)
    {items : List JsonValue} :
    ShapeRight (items.zipIdx.filterMap fun (v, i) => check i v) ↔
      ∀ v ∈ items, ∃ s, JsonValue.string s = v := by
  constructor
  · intro h v hv
    obtain ⟨i, hi⟩ := List.mem_iff_getElem?.1 hv
    refine (hcheck i v).1 fun w hw => h w (List.mem_filterMap.2 ⟨(v, i), ?_, hw⟩)
    exact List.mk_mem_zipIdx_iff_getElem?.2 hi
  · intro h w hw
    obtain ⟨⟨v, i⟩, hi, hw⟩ := List.mem_filterMap.1 hw
    exact (hcheck i v).2 (h v (List.fst_mem_of_mem_zipIdx hi)) w hw

theorem shapeRight_checkEntry_iff {v : Option JsonValue} :
    ShapeRight (s.checkEntry v) ↔ CanGive .entry v := by
  match v with
  | none =>
    exact shapeRight_singleton_iff_canGive rfl (by rw [canGive_none_iff]; decide)
  | some (.list []) =>
    rw [canGive_list_iff rfl, checkEntry, shapeRight_singleton]
    exact iff_of_true rfl (List.forall_mem_nil _)
  | some (.list (item :: items)) =>
    rw [canGive_list_iff rfl, checkEntry]
    · refine shapeRight_items_iff fun i v => ?_
      cases v with
      | string dir =>
        refine iff_of_true (fun w hw => ?_) ⟨dir, rfl⟩
        rw [checkEntryItem] at hw
        split at hw
        · exact absurd hw (by simp)
        · obtain rfl := Option.some.inj hw
          rfl
      | null | bool | number | list | object =>
        exact iff_of_false (fun h => absurd (h _ rfl) (by simp [Violation.isOfShape])) (by simp)
    · exact fun h => absurd h (by simp)
  | some .null | some (.bool _) | some (.number _) | some (.string _) | some (.object _) =>
    exact shapeRight_singleton_iff_canGive rfl fun h => by simpa using h.exists_list rfl

theorem shapeRight_checkFile_iff (hf : f = .stylesheet ∨ f = .font) {extensions : List String}
    {v : Option JsonValue} : ShapeRight (s.checkFile f extensions v) ↔ CanGive f v := by
  have hlist : f.isList = false := by rcases hf with rfl | rfl <;> rfl
  match v with
  | none =>
    refine shapeRight_singleton_iff_canGive rfl ?_
    rw [canGive_none_iff]
    rcases hf with rfl | rfl <;> decide
  | some (.string value) =>
    refine iff_of_true ?_ (canGive_string hlist value)
    rw [checkFile]
    split
    · exact shapeRight_singleton.2 rfl
    · split
      · exact shapeRight_nil
      · exact shapeRight_singleton.2 rfl
  | some .null | some (.bool _) | some (.number _) | some (.list _) | some (.object _) =>
    exact shapeRight_singleton_iff_canGive rfl fun h => by simpa using h.exists_string hlist

theorem shapeRight_checkPrefix_iff {v : Option JsonValue} :
    ShapeRight (checkPrefix v) ↔ CanGive .iconPrefix v := by
  match v with
  | none =>
    exact shapeRight_singleton_iff_canGive rfl (by rw [canGive_none_iff]; decide)
  | some (.string value) =>
    refine iff_of_true ?_ (canGive_string rfl value)
    rw [checkPrefix]
    split
    · exact shapeRight_singleton.2 rfl
    · exact shapeRight_nil
  | some .null | some (.bool _) | some (.number _) | some (.list _) | some (.object _) =>
    exact shapeRight_singleton_iff_canGive rfl fun h => by simpa using h.exists_string rfl

theorem shapeRight_checkStrings_iff (hf : f = .excludeClasses ∨ f = .excludeFilePath)
    {v : Option JsonValue} : ShapeRight (checkStrings f v) ↔ CanGive f v := by
  have hlist : f.isList = true := by rcases hf with rfl | rfl <;> rfl
  match v with
  | none =>
    refine iff_of_true shapeRight_nil (canGive_none_iff.2 ?_)
    rcases hf with rfl | rfl <;> rfl
  | some (.list items) =>
    rw [canGive_list_iff hlist, checkStrings]
    refine shapeRight_items_iff fun i v => ?_
    cases v with
    | string value => exact iff_of_true (fun w hw => absurd hw (by simp [checkItem])) ⟨value, rfl⟩
    | null | bool | number | list | object =>
      exact iff_of_false (fun h => absurd (h _ rfl) (by simp [Violation.isOfShape])) (by simp)
  | some .null | some (.bool _) | some (.number _) | some (.string _) | some (.object _) =>
    exact shapeRight_singleton_iff_canGive rfl fun h => by simpa using h.exists_list hlist

end Site

/-! ## The check and the decoding -/

/-- **The shape of a document** is right exactly if the document is a configuration. -/
theorem shapeRight_check_iff {s : Site} {d : Document} :
    ShapeRight (s.check d) ↔ ∃ c, ofDocument d = .ok c := by
  have hfields : (∀ f : Field, CanGive f (d.find? f.name)) ↔ ∃ c : Config, c.Matches d :=
    exists_forall_gives_iff.symm
  simp only [ofDocument_eq_ok_iff, exists_and_left, ← hfields]
  simp only [Site.check, shapeRight_append, Site.shapeRight_checkNames_iff,
    Site.shapeRight_checkEntry_iff, Site.shapeRight_checkFile_iff (.inl rfl),
    Site.shapeRight_checkFile_iff (.inr rfl), Site.shapeRight_checkPrefix_iff,
    Site.shapeRight_checkStrings_iff (.inl rfl), Site.shapeRight_checkStrings_iff (.inr rfl),
    and_assoc]
  refine and_congr_right fun _ => ⟨?_, fun h => ⟨h _, h _, h _, h _, h _, h _⟩⟩
  rintro ⟨hentry, hstylesheet, hfont, hprefix, hclasses, hpaths⟩ f
  cases f <;> assumption

/-- **The check agrees with the decoding**: a document is a configuration exactly if nothing is
wrong with its shape. So a file with a document that passes the check is loaded as the configuration
that matches it, and behind the check no document is malformed. -/
theorem check_agrees_with_ofDocument (disk : Disk) (root : Path) (d : Document) :
    ((∀ w ∈ (Site.mk disk root).check d, w.isOfShape = false) ↔ ∃ c, ofDocument d = .ok c) ∧
      ∀ (named : Option Path) (text : String),
        disk.readText (path root named) = .ok text → Document.ofText text = .ok d →
          ((Site.mk disk root).check d = [] →
            ∃ c, load disk root named = .ok c ∧ c.Matches d) ∧
          ∀ p cause, load disk root named ≠ .error (.malformed p cause) := by
  refine ⟨shapeRight_check_iff, fun named text hread htext => ?_⟩
  have hload := load_of_readText hread
  rw [ofText] at hload
  simp only [htext] at hload
  cases hcheck : (Site.mk disk root).check d with
  | cons w ws =>
    rw [hcheck] at hload
    exact ⟨by simp, fun p cause hmalformed => by simp [hload] at hmalformed⟩
  | nil =>
    obtain ⟨c, hc⟩ := shapeRight_check_iff.1 (show ShapeRight _ from hcheck ▸ shapeRight_nil)
    simp only [hcheck, hc] at hload
    refine ⟨fun _ => ⟨c, hload, (ofDocument_eq_ok_iff.1 hc).2⟩, fun p cause hmalformed => ?_⟩
    exact absurd (hload.symm.trans hmalformed) (by simp)

/-- The text of a configuration without the fields that may be missing. -/
def shortText : String :=
  "\x7b\"iconPrefix\":\"i\",\"entry\":[\"src\"],\"iconfontCssPath\":\"i.css\"," ++
    "\"fontTTFPath\":\"i.ttf\"\x7d"

/-- A disk with the configuration, and with the folder and the files that it names. -/
def shortDisk : Disk :=
  ⟨.folder [.mk "src" (.folder []), .mk "i.css" (.file .empty), .mk "i.ttf" (.file .empty),
    .mk fileName (.file (Text.encode shortText))], []⟩

/-- The text passes the check, so the configuration is loaded. -/
theorem exists_matches_shortText : ∃ d, shortDisk.readText (path ⟨"."⟩ none) = .ok shortText ∧
    Document.ofText shortText = .ok d ∧ (Site.mk shortDisk ⟨"."⟩).check d = [] ∧
    ∃ c, load shortDisk ⟨"."⟩ none = .ok c ∧ c.Matches d := by
  have hread : shortDisk.readText (path ⟨"."⟩ none) = .ok shortText := by decide +kernel
  have hpasses : (Document.ofText shortText).toOption.map (Site.mk shortDisk ⟨"."⟩).check =
      some [] := by decide +kernel
  obtain ⟨d, hd, hcheck⟩ := Option.map_eq_some_iff.1 hpasses
  have htext : Document.ofText shortText = .ok d := by
    cases h : Document.ofText shortText with
    | ok d' =>
      rw [h] at hd
      exact congrArg _ (Option.some.inj hd)
    | error e =>
      rw [h] at hd
      exact absurd hd (by simp [Except.toOption])
  exact ⟨d, hread, htext, hcheck,
    ((check_agrees_with_ofDocument shortDisk ⟨"."⟩ d).2 none shortText hread htext).1 hcheck⟩

end GlyphTrim.Config
