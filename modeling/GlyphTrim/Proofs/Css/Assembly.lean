import GlyphTrim.Proofs.Css.Margin
import Mathlib.Data.List.Forall2

/-!
# Stylesheets put together

`Leads cs rs` says that the text `cs` in front of any stylesheet adds rules that say `rs`. Comments,
line breaks and statements with a block do (`IsBlock.leads`), and so does what is put together of
them (`leads_intercalate`, `leads_trim_join`).
-/

namespace GlyphTrim.Css

open Text

/-- What a text says as a stylesheet. -/
def Says (cs : List Char) (rs : List (String × List Declaration)) : Prop :=
  ∃ items, Reads true (tokens cs) items ∧ (Node.rulesOfAll items.nodes).map Rule.content = rs

/-- What a text says in front of every stylesheet. -/
def Leads (cs : List Char) (rs : List (String × List Declaration)) : Prop :=
  ∀ z rs', Says z rs' → Says (cs ++ z) (rs ++ rs')

theorem says_nil : Says [] [] := ⟨{}, by rw [tokens, tokensFrom]; exact .done, rfl⟩

theorem Leads.says {cs : List Char} {rs : List (String × List Declaration)} (h : Leads cs rs) :
    Says cs rs := by
  have hsays := h [] [] says_nil
  rw [List.append_nil, List.append_nil] at hsays
  exact hsays

theorem leads_nil : Leads [] [] := fun _ _ h => h

theorem Leads.append {a b : List Char} {rs rs' : List (String × List Declaration)}
    (h : Leads a rs) (h' : Leads b rs') : Leads (a ++ b) (rs ++ rs') := by
  intro z rs'' hz
  rw [List.append_assoc, List.append_assoc]
  exact h _ _ (h' _ _ hz)

/-! ## Opening statements -/

theorem says_iff_exists_holds {cs : List Char} {rs : List (String × List Declaration)} :
    Says cs rs ↔ ∃ ns, Holds cs ns ∧ (Node.rulesOfAll ns).map Rule.content = rs := by
  constructor
  · rintro ⟨items, hreads, hrules⟩
    exact ⟨items.nodes, ⟨items, hreads, rfl⟩, hrules⟩
  · rintro ⟨ns, ⟨items, hreads, halike⟩, hrules⟩
    exact ⟨items, hreads, (Node.map_content_rulesOfAll halike).trans hrules⟩

/-- A text says the rules of the nodes that it opens. -/
theorem Opens.leads {cs : List Char} {ns : List Node} (h : Opens cs ns) :
    Leads cs ((Node.rulesOfAll ns).map Rule.content) := by
  intro z rs hz
  obtain ⟨ms, hms, rfl⟩ := says_iff_exists_holds.1 hz
  exact says_iff_exists_holds.2 ⟨ns ++ ms, h z ms hms, by
    rw [Node.rulesOfAll_append, List.map_append]⟩

theorem leads_newline : Leads ['\n'] [] := opens_newline.leads

/-- **A statement with a block** says its rules in front of every stylesheet. -/
theorem IsBlock.leads {ts : List Token} {n : Node} (h : IsBlock ts n) (hlexed : Lexed ts) :
    Leads (sourceText ts) (n.rules.map Rule.content) := by
  have hopens := (h.isStatement.opens hlexed).leads
  rwa [Node.rulesOfAll, Node.rulesOfAll, List.append_nil] at hopens

/-! ## Sections -/

/-- Texts with blank lines between them say what they say one after the other. -/
theorem leads_intercalate {s : String} {rs : List (String × List Declaration)}
    (hs : Leads s.toList rs) {ss : List String} {rss : List (List (String × List Declaration))}
    (h : List.Forall₂ (fun s rs => Leads s.toList rs) ss rss) :
    Leads ("\n\n".intercalate (s :: ss)).toList (rs ++ rss.flatten) := by
  induction h generalizing s rs with
  | nil => simpa using hs
  | @cons s' rs' ss rss hs' h ih =>
    have hrest := hs.append (leads_newline.append (leads_newline.append (ih hs')))
    rw [String.intercalate_cons_cons, String.toList_append, String.toList_append, List.append_assoc]
    exact hrest

/-- A statement that says `rs` also without the white space in front of it. -/
structure IsSection (s : String) (rs : List (String × List Declaration)) : Prop where
  leads : Leads s.toList rs
  leads_dropWhile : Leads (s.toList.dropWhile isBlank) rs
  ne_nil : s.toList ≠ []
  endsInk : EndsInk s.toList

/-- A statement with a block is a section if it begins with a class selector or an at sign. -/
theorem IsBlock.isSection {ts : List Token} {n : Node} (h : IsBlock ts n) (hlexed : Lexed ts)
    (hn : n.BeginsWithMark) : IsSection n.raw (n.rules.map Rule.content) := by
  have hsource := h.isStatement.toList_raw hlexed.marked
  obtain ⟨hholds, hclosed⟩ := h.isStatement.holds hlexed
  obtain ⟨a, x, w, hraw, ha, hx⟩ := hn.exists_raw_eq h.isStatement.raw_eq h.isStatement.called
  have hopens := (Holds.dropBlanks hraw ha hx hholds).opens (Closed.dropBlanks hraw ha hx hclosed)
  constructor
  · rw [hsource]
    exact h.leads hlexed
  · have hleads := hopens.leads
    rwa [Node.rulesOfAll, Node.rulesOfAll, List.append_nil, Node.map_content_rules_dropBlanks,
      Node.toList_raw_dropBlanks] at hleads
  · simp [hraw]
  · rw [h.isStatement.raw_eq]
    exact endsInk_rawText ts

theorem leads_flatMap {ss : List String} {rss : List (List (String × List Declaration))}
    (h : List.Forall₂ IsSection ss rss) :
    Leads (ss.flatMap fun s => '\n' :: s.toList) rss.flatten := by
  induction h with
  | nil => exact leads_nil
  | cons hs h ih => exact (leads_newline.append hs.leads).append ih

theorem forall_isSection {ss : List String} {rss : List (List (String × List Declaration))}
    (h : List.Forall₂ IsSection ss rss) : ∀ s ∈ ss, EndsInk s.toList ∧ s.toList ≠ [] := by
  induction h with
  | nil => simp
  | cons hs h ih => exact List.forall_mem_cons.2 ⟨⟨hs.endsInk, hs.ne_nil⟩, ih⟩

/-- **Statements on lines of their own**, without the white space around them all, say what they
say one after the other. -/
theorem leads_trim_join {ss : List String} {rss : List (List (String × List Declaration))}
    (h : List.Forall₂ IsSection ss rss) :
    Leads (Text.trim (String.join (ss.map (· ++ "\n")))).toList rss.flatten := by
  cases h with
  | nil => exact leads_nil
  | @cons s rs ss rss hs h =>
    rw [toList_trim_join (forall_isSection (.cons hs h))]
    exact hs.leads_dropWhile.append (leads_flatMap h)

end GlyphTrim.Css
