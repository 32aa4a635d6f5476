import GlyphTrim.Proofs.Css.Places
import GlyphTrim.Proofs.Css.Statement

/-!
# Statements in a text

`Holds cs ns` says that the text `cs` is a stylesheet with the nodes `ns`, and `Opens cs ns` that
it adds these nodes in front of any stylesheet. White space and comments open nothing, and closed
statements open what they hold (`Holds.opens`). Statements that are put one after the other stay
apart exactly if all but the last are closed (`holds_append_flatMap_iff`).
-/

namespace GlyphTrim.Css

open Text

/-! ## What a text holds -/

/-- The same nodes, perhaps on other lines. -/
def Node.Alike (ns ms : List Node) : Prop :=
  Node.mapLinesAll (fun _ => 0) ns = Node.mapLinesAll (fun _ => 0) ms

theorem Node.mapLinesAll_eq_map (f : Nat → Nat) (ns : List Node) :
    Node.mapLinesAll f ns = ns.map (Node.mapLines f) := by
  induction ns with
  | nil => rfl
  | cons n ns ih => rw [Node.mapLinesAll, ih, List.map_cons]

theorem Node.raw_mapLines (f : Nat → Nat) (n : Node) : (n.mapLines f).raw = n.raw := by
  cases n <;> rfl

theorem Node.alike_iff {ns ms : List Node} : Node.Alike ns ms ↔
    ns.map (Node.mapLines fun _ => 0) = ms.map (Node.mapLines fun _ => 0) := by
  rw [Node.Alike, Node.mapLinesAll_eq_map, Node.mapLinesAll_eq_map]

theorem Node.Alike.append {ns ns' ms ms' : List Node} (h : Node.Alike ns ms)
    (h' : Node.Alike ns' ms') : Node.Alike (ns ++ ns') (ms ++ ms') := by
  rw [Node.alike_iff] at *
  rw [List.map_append, List.map_append, h, h']

/-- The text is a stylesheet with the nodes. -/
def Holds (cs : List Char) (ns : List Node) : Prop :=
  ∃ items, Reads true (tokens cs) items ∧ Node.Alike items.nodes ns

/-- The text adds the nodes in front of every stylesheet. -/
def Opens (cs : List Char) (ns : List Node) : Prop :=
  ∀ z ms, Holds z ms → Holds (cs ++ z) (ns ++ ms)

/-- The same tokens hold the same nodes. -/
theorem Reads.exists_alike {cut : Bool} {ts us : List Token} {items : Items} {ns : List Node}
    (h : Reads cut ts items) (hsame : Same (fun _ => 0) (fun _ => 0) ts us)
    (hns : Node.Alike items.nodes ns) :
    ∃ items', Reads cut us items' ∧ Node.Alike items'.nodes ns := by
  obtain ⟨items', hreads, heq⟩ := h.exists_of_same hsame
  exact ⟨items', hreads, (congrArg Items.nodes heq).symm.trans hns⟩

/-- What a text holds does not depend on where it stands. -/
theorem holds_iff_exists_reads (l : Location) {cs : List Char} {ns : List Node} :
    Holds cs ns ↔ ∃ items, Reads true (tokensFrom l cs) items ∧ Node.Alike items.nodes ns := by
  constructor
  · rintro ⟨items, hreads, hns⟩
    exact hreads.exists_alike (same_tokensFrom _ _ cs) hns
  · rintro ⟨items, hreads, hns⟩
    exact hreads.exists_alike (same_tokensFrom _ _ cs) hns

/-- A text that begins with no byte order mark can be parsed to the nodes that it holds. -/
theorem exists_parse_alike_iff {text : String} {ns : List Node}
    (hmark : dropMark text.toList = text.toList) :
    (∃ out, Sheet.parse text = .ok out ∧ Node.Alike out.nodes ns) ↔ Holds text.toList ns := by
  constructor
  · rintro ⟨out, hout, halike⟩
    obtain ⟨items, hreads, hnodes⟩ := parse_eq_ok_iff.1 hout
    rw [hmark] at hreads
    exact ⟨items, hreads, hnodes ▸ halike⟩
  · rintro ⟨items, hreads, halike⟩
    refine ⟨⟨items.nodes⟩, parse_eq_ok_iff.2 ⟨items, ?_, rfl⟩, halike⟩
    rw [hmark]
    exact hreads

theorem holds_nil : Holds [] [] := ⟨{}, by rw [tokens, tokensFrom]; exact .done, rfl⟩

theorem Opens.holds {cs : List Char} {ns : List Node} (h : Opens cs ns) : Holds cs ns := by
  have hholds := h [] [] holds_nil
  rwa [List.append_nil, List.append_nil] at hholds

theorem opens_nil : Opens [] [] := fun _ _ h => h

theorem Opens.append {a b : List Char} {ns ns' : List Node} (h : Opens a ns) (h' : Opens b ns') :
    Opens (a ++ b) (ns ++ ns') := by
  intro z ms hz
  rw [List.append_assoc, List.append_assoc]
  exact h _ _ (h' _ _ hz)

/-! ## White space and comments -/

/-- White space and comments in front of statements can be left out. -/
theorem Reads.of_trivia_cons {cut : Bool} {t : Token} {ts : List Token} {items : Items}
    (h : Reads cut (t :: ts) items) (ht : t.isTrivia = true) : Reads cut ts items := by
  have hstarts : ¬StartsStatement (t :: ts) := by
    intro hstart
    have hnot : t.isTrivia = false := hstart t rfl
    exact absurd ht (by simp [hnot])
  generalize hus : t :: ts = us at h hstarts
  cases h with
  | done => exact absurd hus (by simp)
  | trivia hu h =>
    obtain ⟨rfl, rfl⟩ := List.cons.inj hus
    exact h
  | last hne hstart hpass ho => exact absurd hstart hstarts
  | semicolon hstart hpass hs h =>
    have hstop : Token.Stops true _ := .inl hs
    exact absurd (hstart.append_cons (isTrivia_eq_false_of_stops hstop) _) hstarts
  | block hstart hpass hbrace hbody hclose h =>
    have hstop : Token.Stops true _ := .inr (.inl hbrace)
    exact absurd (hstart.append_cons (isTrivia_eq_false_of_stops hstop) _) hstarts
  | cutBlock hstart hpass hbrace hbody =>
    have hstop : Token.Stops true _ := .inr (.inl hbrace)
    exact absurd (hstart.append_cons (isTrivia_eq_false_of_stops hstop) _) hstarts

theorem read_of_isSpace {c : Char} (hc : isSpace c = true) (cs : List Char) :
    read c cs = (.space, (cs.takeWhile isSpace).length) := by
  unfold read
  rw [if_pos hc]

theorem Holds.drop_spaces {cs : List Char} {ns : List Node} (h : Holds cs ns) :
    Holds (cs.drop (cs.takeWhile isSpace).length) ns := by
  cases cs with
  | nil => exact h
  | cons c cs =>
    rw [List.takeWhile_cons]
    split
    · rename_i hc
      obtain ⟨items, hreads, hns⟩ := h
      rw [tokens, tokensFrom, read_of_isSpace hc] at hreads
      exact (holds_iff_exists_reads _).2 ⟨items, hreads.of_trivia_cons rfl, hns⟩
    · exact h

/-- White space opens nothing, also where the text behind it begins with white space. -/
theorem opens_of_isSpace {c : Char} (hc : isSpace c = true) : Opens [c] [] := by
  intro z ns hz
  obtain ⟨items, hreads, hns⟩ := (holds_iff_exists_reads _).1 hz.drop_spaces
  refine ⟨items, ?_, hns⟩
  rw [List.singleton_append, tokens, tokensFrom, read_of_isSpace hc]
  exact .trivia rfl hreads

theorem opens_newline : Opens ['\n'] [] := opens_of_isSpace rfl

/-- A comment opens nothing. -/
theorem opens_comment {cs : List Char} (h : '*' ∉ cs) :
    Opens ('/' :: '*' :: (cs ++ ['*', '/'])) [] := by
  intro z ns hz
  have hbody : ¬['*', '/'] <:+: cs := fun hin => h (hin.subset List.mem_cons_self)
  obtain ⟨l, htokens⟩ := tokensFrom_commentText hbody ⟨0, 0⟩ z
  obtain ⟨items, hreads, hns⟩ := (holds_iff_exists_reads l).1 hz
  refine ⟨items, ?_, hns⟩
  rw [tokens, ← commentText, htokens]
  exact .trivia rfl hreads

/-! ## Closed statements -/

theorem Same.openAfter_eq {f g : Nat → Nat} {ts us : List Token} (h : Same f g ts us)
    (o : List Bracket) : openAfter o ts = openAfter o us := by
  induction ts generalizing us o with
  | nil =>
    obtain rfl := List.map_eq_nil_iff.1 h.symm
    rfl
  | cons t ts ih =>
    obtain ⟨u, us, rfl, hu, hus⟩ := h.exists_cons
    rw [openAfter_cons, openAfter_cons, stepBracket, stepBracket, kind_eq_of_key_eq hu]
    exact ih hus _

theorem Same.endsStatement {f g : Nat → Nat} {ts us : List Token} (h : Same f g ts us)
    (hts : EndsStatement ts) : EndsStatement us := by
  intro u hu
  have hlast : (ts.map (·.key f)).getLast? = some (u.key g) := by
    rw [h, List.getLast?_map, hu]
    rfl
  rw [List.getLast?_map, Option.map_eq_some_iff] at hlast
  obtain ⟨t, ht, hkey⟩ := hlast
  rw [← kind_eq_of_key_eq hkey]
  exact hts t ht

/-- **Tokens that end with a statement** are read again at every place and whatever text stands
behind them. -/
theorem Lexed.exists_tokensFrom_append {ts : List Token} (h : Lexed ts) (hend : EndsStatement ts) :
    ∃ l : Location, ∀ (f g : Nat → Nat) (l' : Location),
      (∀ n, f (l.breaks + n + 1) = g (l'.breaks + n + 1)) → ∀ z,
        ∃ us l'', tokensFrom l' (sourceText ts ++ z) = us ++ tokensFrom l'' z ∧ Same f g ts us := by
  obtain rfl | ⟨p, m, rfl⟩ := ts.eq_nil_or_concat'
  · exact ⟨⟨0, 0⟩, fun f g l' _ z => ⟨[], l', rfl, same_nil⟩⟩
  · obtain ⟨l, cs, rest, htokens⟩ := h
    rw [List.append_assoc] at htokens
    obtain ⟨b, hmark, hb⟩ : ∃ b, m.kind.mark? = some b ∧ IsStop b := by
      rcases hend m (by simp) with hk | hk <;> rw [hk]
      · exact ⟨';', rfl, .inl rfl⟩
      · exact ⟨'\x7d', rfl, .inr rfl⟩
    exact ⟨l, fun f g l' hl z => tokensFrom_slice htokens hmark hb hl z⟩

theorem Lexed.exists_tokens_append {ts : List Token} (h : Lexed ts) (hend : EndsStatement ts)
    (z : List Char) : ∃ us l, tokens (sourceText ts ++ z) = us ++ tokensFrom l z ∧
      Same (fun _ => 0) (fun _ => 0) ts us := by
  obtain ⟨l, hslice⟩ := h.exists_tokensFrom_append hend
  exact hslice _ _ ⟨0, 0⟩ (fun _ => rfl) z

/-- **A closed text** opens what it holds. -/
theorem Holds.opens {cs : List Char} {ns : List Node} (h : Holds cs ns) (hclosed : Closed cs) :
    Opens cs ns := by
  intro z ms hz
  obtain ⟨a, ha, hns⟩ := h
  obtain ⟨us, l, htokens, hsame⟩ :=
    (lexed_tokensFrom ⟨0, 0⟩ cs).exists_tokens_append hclosed.2 z
  rw [sourceText_tokensFrom] at htokens
  obtain ⟨b, hb, hms⟩ := (holds_iff_exists_reads l).1 hz
  have hreads := (ha.of_balanced hclosed.1).append hclosed.2 hb
  have hsame' := hsame.append (rfl : Same (fun _ => 0) (fun _ => 0) (tokensFrom l z) _)
  obtain ⟨items, hitems, halike⟩ := hreads.exists_alike hsame' (hns.append hms)
  exact ⟨items, by rw [htokens]; exact hitems, halike⟩

/-- No white space is cut off behind a mark. -/
theorem toList_rawText_of_endsStatement {ts : List Token} (h : EndsStatement ts)
    (hmarks : Marked ts) : (rawText ts).toList = sourceText ts := by
  obtain rfl | ⟨p, m, rfl⟩ := ts.eq_nil_or_concat'
  · rfl
  · obtain ⟨b, hmark, hblank⟩ : ∃ b, m.kind.mark? = some b ∧ isBlank b = false := by
      rcases h m (by simp) with hk | hk <;> rw [hk]
      · exact ⟨';', rfl, rfl⟩
      · exact ⟨'\x7d', rfl, rfl⟩
    have htext := hmarks m (by simp) b hmark
    rw [toList_rawText_append_cons htext hblank, sourceText_append, sourceText_cons, htext]
    rfl

theorem IsStatement.toList_raw {ts : List Token} {n : Node} (h : IsStatement ts n)
    (hmarks : Marked ts) : n.raw.toList = sourceText ts := by
  rw [h.raw_eq, toList_rawText_of_endsStatement h.ends hmarks]

/-- The text of a closed statement holds its node and is closed. -/
theorem IsStatement.holds {ts : List Token} {n : Node} (h : IsStatement ts n) (hlexed : Lexed ts) :
    Holds n.raw.toList [n] ∧ Closed n.raw.toList := by
  obtain ⟨us, l, htokens, hsame⟩ := hlexed.exists_tokens_append h.ends []
  rw [List.append_nil, tokensFrom, List.append_nil] at htokens
  rw [h.toList_raw hlexed.marked, Holds, Closed, htokens]
  refine ⟨?_, ?_, hsame.endsStatement h.ends⟩
  · obtain ⟨items, hreads, halike⟩ := h.reads.exists_alike hsame rfl
    exact ⟨items, hreads.mono true, halike⟩
  · rw [Balanced, ← hsame.openAfter_eq]
    exact h.reads.openAfter_eq []

theorem IsStatement.opens {ts : List Token} {n : Node} (h : IsStatement ts n) (hlexed : Lexed ts) :
    Opens (sourceText ts) [n] := by
  obtain ⟨hholds, hclosed⟩ := h.holds hlexed
  rw [← h.toList_raw hlexed.marked]
  exact hholds.opens hclosed

/-! ## Statements one after the other -/

theorem Node.Alike.raw_eq {n m : Node} (h : Node.Alike [n] [m]) : n.raw = m.raw := by
  have hlines : n.mapLines (fun _ => 0) = m.mapLines fun _ => 0 :=
    List.singleton_inj.1 (Node.alike_iff.1 h)
  rw [← Node.raw_mapLines (fun _ => 0) n, hlines, Node.raw_mapLines]

theorem Node.Alike.exists_append_cons {ns a b : List Node} {n : Node}
    (h : Node.Alike ns (a ++ n :: b)) : ∃ a' n' b', ns = a' ++ n' :: b' ∧ Node.Alike [n'] [n] ∧
      Node.Alike b' b := by
  rw [Node.alike_iff, List.map_append, List.map_cons] at h
  obtain ⟨a', c, rfl, -, hc⟩ := List.map_eq_append_iff.1 h
  obtain ⟨n', b', rfl, hn, hb⟩ := List.map_eq_cons_iff.1 hc
  exact ⟨a', n', b', rfl, Node.alike_iff.2 (congrArg (· :: []) hn), Node.alike_iff.2 hb⟩

/-- The source text of a node that others follow is closed. -/
theorem Holds.closed_raw {cs : List Char} {a b : List Node} {n : Node} (h : Holds cs (a ++ n :: b))
    (hb : b ≠ []) : Closed n.raw.toList := by
  obtain ⟨items, hreads, halike⟩ := h
  obtain ⟨a', n', b', hnodes, hn, hb'⟩ := halike.exists_append_cons
  rw [← hn.raw_eq]
  rcases hreads.exists_statement hnodes with ⟨us, hus, hstatement⟩ | ⟨rfl, -⟩
  · exact (hstatement.holds (Lexed.of_infix (lexed_tokensFrom ⟨0, 0⟩ cs) hus)).2
  · exact absurd (List.map_eq_nil_iff.1 (Node.alike_iff.1 hb').symm) hb

/-- Statements of which all but the last are closed can stand one after the other. -/
theorem holds_flatMap {ps : List (List Char × Node)} (hgap : ∀ p ∈ ps, Opens p.1 [])
    (halone : ∀ p ∈ ps, Holds p.2.raw.toList [p.2])
    (hclosed : ∀ p ∈ ps.dropLast, Closed p.2.raw.toList) :
    Holds (ps.flatMap fun p => p.1 ++ p.2.raw.toList) (ps.map (·.2)) := by
  induction ps with
  | nil => exact holds_nil
  | cons p ps ih =>
    have hp := halone p List.mem_cons_self
    rw [List.flatMap_cons, List.map_cons, List.append_assoc]
    apply hgap p List.mem_cons_self
    cases ps with
    | nil => simpa using hp
    | cons q ps =>
      rw [List.dropLast_cons_cons] at hclosed
      refine hp.opens (hclosed p List.mem_cons_self) _ _ (ih ?_ ?_ ?_)
      · exact fun r hr => hgap r (List.mem_cons_of_mem p hr)
      · exact fun r hr => halone r (List.mem_cons_of_mem p hr)
      · exact fun r hr => hclosed r (List.mem_cons_of_mem p hr)

/-- **Statements stay apart** when they are put one after the other, exactly if all but the last are
closed. -/
theorem holds_append_flatMap_iff {lead : List Char} (hlead : Opens lead [])
    {ps : List (List Char × Node)} (hgap : ∀ p ∈ ps, Opens p.1 [])
    (halone : ∀ p ∈ ps, Holds p.2.raw.toList [p.2]) :
    Holds (lead ++ ps.flatMap fun p => p.1 ++ p.2.raw.toList) (ps.map (·.2)) ↔
      ∀ n ∈ (ps.map (·.2)).dropLast, Closed n.raw.toList := by
  constructor
  · intro h n hn
    obtain ⟨a, b, hab⟩ := List.append_of_mem hn
    have hne : ps.map (·.2) ≠ [] := by
      intro hnil
      rw [hnil] at hn
      exact absurd hn (by simp)
    rw [← List.dropLast_append_getLast hne, hab, List.append_assoc, List.cons_append] at h
    exact h.closed_raw (by simp)
  · intro hclosed
    refine hlead _ _ (holds_flatMap hgap halone fun p hp => hclosed p.2 ?_)
    rw [← List.map_dropLast]
    exact List.mem_map_of_mem hp

end GlyphTrim.Css
