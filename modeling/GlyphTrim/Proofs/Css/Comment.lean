import GlyphTrim.Proofs.Css.LastToken
import GlyphTrim.Proofs.Css.Places
import GlyphTrim.Proofs.Css.Slash

/-!
# Comments between tokens

A token that ends in front of a place stays the same if a slash is put there (`keeps_read`). So a
comment between two tokens of a text is a token of its own, and the tokens around it stay the same
(`exists_tokensFrom_insert`). There are few places without room for a comment (`Parted`): a
backslash in front of a line break would escape its slash, a string that a line break cuts off would
go on with it, and an address would begin with it in place of a string. Between a dash and such a
backslash there is room, but the dash may be cut off from what is in front of it.
-/

namespace GlyphTrim.Css

variable {w : List Char} (hw : w ≠ []) (z : List Char)

/-! ## Tokens in front of a slash -/

/-- A token of `c :: (a ++ w)` ends in `a`, where a slash does not go on with it. -/
structure TokenEndsIn (w a : List Char) (c : Char) (x : Kind × Nat) : Prop where
  ends : EndsIn a x.2
  alone : c :: a ≠ ['\\']
  dash : NoDash w a
  string : (∃ text, x.1 = .badString text) → x.2 < a.length
  url : x.1 = .opening .round → isUrlName (c :: (a ++ w)) = true →
    ∃ d ∈ a.drop x.2, isSpace d = false

include hw

theorem readString_slash {quote : Char} (hquote : quote ≠ '\\') {a : List Char} {c : Char}
    (h : TokenEndsIn w a c (readString quote (a ++ w))) :
    readString quote (a ++ '/' :: z) = readString quote (a ++ w) := by
  have hends : StringEndsIn a (stringLength quote 0 (a ++ w)) := by
    have hle := h.ends.le
    have hlt := h.string
    rw [readString_eq] at hle hlt
    exact ⟨hle, fun hbad => hlt ⟨_, if_pos hbad⟩⟩
  rw [readString_eq, readString_eq, stringLength_slash hw z hquote hends,
    stringText_slash hw z hquote hends]

theorem addressToken_slash {d : Nat} {a : List Char}
    (h : (addressToken d (a ++ w)).2 ≤ d + a.length) :
    a ≠ [] ∧ addressToken d (a ++ '/' :: z) = addressToken d (a ++ w) := by
  have hlt : (urlLength 0 (a ++ w)).1 < a.length := by
    have hpos := List.length_pos_iff.2 hw
    simp only [addressToken] at h
    split at h
    · rename_i hend
      rw [List.isEmpty_iff, List.drop_eq_nil_iff, List.length_append] at hend
      omega
    · omega
  refine ⟨List.ne_nil_of_length_pos (Nat.zero_lt_of_lt hlt), ?_⟩
  have hempty : ∀ v, v ≠ [] → ((a ++ v).drop (urlLength 0 (a ++ w)).1).isEmpty = false := by
    intro v hv
    rw [List.drop_append_of_le_length hlt.le]
    simp [hv]
  rw [addressToken, addressToken, urlLength_slash hw z hlt, hempty w hw, hempty _ (by simp),
    List.take_append_of_le_length hlt.le, List.take_append_of_le_length hlt.le]

omit hw in
theorem readUrl_eq_none_iff {cs : List Char} :
    readUrl cs = none ↔
      ∃ q ∈ (cs.drop (cs.takeWhile isSpace).length).head?, q = '"' ∨ q = '\'' := by
  constructor
  · intro h
    by_contra hquote
    rw [readUrl_eq cs fun q hq hor => hquote ⟨q, hq, hor⟩] at h
    exact absurd h (by simp)
  · rintro ⟨q, hq, hor⟩
    obtain ⟨rest, hrest⟩ := List.head?_eq_some_iff.1 hq
    exact readUrl_of_quote hrest hor

theorem readUrl_slash {a : List Char} {x : Kind × Nat} (h : readUrl (a ++ w) = some x)
    (hle : x.2 ≤ a.length) : readUrl (a ++ '/' :: z) = some x := by
  have hquote : ∀ q ∈ ((a ++ w).drop ((a ++ w).takeWhile isSpace).length).head?,
      ¬(q = '"' ∨ q = '\'') := by
    intro q hq hor
    rw [readUrl_eq_none_iff.2 ⟨q, hq, hor⟩] at h
    exact absurd h (by simp)
  rw [readUrl_eq _ hquote] at h
  obtain rfl := Option.some.inj h
  have hspaces : ((a ++ w).takeWhile isSpace).length ≤ a.length := by
    have : ∀ d rest, d ≤ (addressToken d rest).2 := by
      intro d rest
      simp only [addressToken]
      omega
    exact (this _ _).trans hle
  have hbar := takeWhile_bar z isBar_slash.space hspaces
  have hdrop : ∀ v, (a ++ v).drop ((a ++ w).takeWhile isSpace).length =
      a.drop ((a ++ w).takeWhile isSpace).length ++ v :=
    fun v => List.drop_append_of_le_length hspaces
  rw [hdrop] at hquote hle ⊢
  have hlength : (a.drop ((a ++ w).takeWhile isSpace).length).length =
      a.length - ((a ++ w).takeWhile isSpace).length := List.length_drop
  have hrest : (addressToken ((a ++ w).takeWhile isSpace).length
      (a.drop ((a ++ w).takeWhile isSpace).length ++ w)).2 ≤
      ((a ++ w).takeWhile isSpace).length + (a.drop ((a ++ w).takeWhile isSpace).length).length := by
    omega
  obtain ⟨hne, htoken⟩ := addressToken_slash hw z hrest
  have hquote' : ∀ q ∈ ((a ++ '/' :: z).drop ((a ++ '/' :: z).takeWhile isSpace).length).head?,
      ¬(q = '"' ∨ q = '\'') := by
    rw [hbar, hdrop, head?_append (w := w) hne]
    exact hquote
  rw [readUrl_eq _ hquote', hbar, hdrop, htoken]

omit hw in
theorem length_takeWhile_lt {p : Char → Bool} {a : List Char} (ha : ∃ d ∈ a, p d = false) :
    ((a ++ w).takeWhile p).length < a.length := by
  induction a with
  | nil => exact absurd ha (by simp)
  | cons c a ih =>
    rw [List.cons_append, List.takeWhile_cons]
    split
    · rename_i hc
      obtain ⟨d, hd, hp⟩ := ha
      rcases List.mem_cons.1 hd with rfl | hd
      · exact absurd (hc.symm.trans hp) (by simp)
      · exact Nat.succ_lt_succ (ih ⟨d, hd, hp⟩)
    · exact Nat.succ_pos _

omit hw in
/-- A string that stands in an address stays there. -/
theorem readUrl_slash_of_none {a : List Char} (h : readUrl (a ++ w) = none)
    (ha : ∃ d ∈ a, isSpace d = false) : readUrl (a ++ '/' :: z) = none := by
  have hlt := length_takeWhile_lt (w := w) ha
  have hbar := takeWhile_bar z isBar_slash.space hlt.le
  obtain ⟨q, hq, hor⟩ := readUrl_eq_none_iff.1 h
  refine readUrl_eq_none_iff.2 ⟨q, ?_, hor⟩
  rw [List.drop_append_of_le_length hlt.le] at hq
  rw [hbar, List.drop_append_of_le_length hlt.le, head?_append (w := w)]
  · exact hq
  · intro hnil
    exact absurd (List.drop_eq_nil_iff.1 hnil) (Nat.not_le.2 hlt)

omit hw in
theorem succ_le_roundToken (url : Bool) (n : Nat) (rest : List Char) :
    n + 1 ≤ (roundToken url n rest).2 := by
  unfold roundToken
  split_ifs
  · split
    · exact Nat.le_add_right _ _
    · exact Nat.le_refl _
  · exact Nat.le_refl _

theorem roundToken_slash {url : Bool} {n : Nat} {a : List Char}
    (hle : (roundToken url n (a ++ w)).2 ≤ n + 1 + a.length)
    (hurl : (roundToken url n (a ++ w)).1 = .opening .round → url = true →
      ∃ d ∈ a, isSpace d = false) :
    roundToken url n (a ++ '/' :: z) = roundToken url n (a ++ w) := by
  cases url with
  | false => rfl
  | true =>
    cases hread : readUrl (a ++ w) with
    | none =>
      simp only [roundToken, hread, if_true] at hurl ⊢
      rw [readUrl_slash_of_none z hread (hurl trivial trivial)]
    | some x =>
      simp only [roundToken, hread, if_true] at hle ⊢
      rw [readUrl_slash hw z hread (by omega)]

section

variable {a : List Char} {c : Char} (h : TokenEndsIn w a c (readName c (a ++ w)))

include h

omit hw in
theorem TokenEndsIn.nameLength_le : nameLength 0 (c :: (a ++ w)) - 1 ≤ a.length :=
  (nameLength_le_readName c (a ++ w)).trans h.ends.le

omit hw in
/-- The name ends in `a`, also where the token goes on behind it. -/
theorem TokenEndsIn.endsIn_name : EndsIn (c :: a) (nameLength 0 (c :: a ++ w)) := by
  have hle := h.nameLength_le
  refine ⟨?_, fun hleft => ?_⟩
  · rw [List.length_cons]
    exact Nat.le_succ_of_pred_le hle
  cases hn : nameLength 0 (c :: a ++ w) with
  | zero =>
    rw [hn] at hleft
    exact h.alone hleft
  | succ n =>
    rw [hn] at hleft
    have hn' : nameLength 0 (c :: (a ++ w)) - 1 = n := by
      rw [← List.cons_append, hn, Nat.add_sub_cancel]
    have hleft' : a.drop n = ['\\'] := hleft
    have hread : readName c (a ++ w) = (.other, n) := by
      rw [← hn']
      refine readName_of_not_round fun d hd => ?_
      rw [hn', List.drop_append_of_le_length (hn' ▸ hle), hleft'] at hd
      rw [← Option.some.inj hd]
      decide
    have hends := h.ends.left
    rw [hread] at hends
    exact hends hleft'

theorem TokenEndsIn.nameLength_slash :
    nameLength 0 (c :: (a ++ '/' :: z)) = nameLength 0 (c :: (a ++ w)) :=
  nameLength_bar isBar_slash hw z h.endsIn_name

/-- Behind a name with its parenthesis. -/
theorem TokenEndsIn.readName_slash_of_round {rest : List Char}
    (hrest : a.drop (nameLength 0 (c :: (a ++ w)) - 1) = '(' :: rest) :
    readName c (a ++ '/' :: z) = readName c (a ++ w) := by
  have hle := h.nameLength_le
  have hlength := h.nameLength_slash hw z
  have hurl : isUrlName (c :: (a ++ '/' :: z)) = isUrlName (c :: (a ++ w)) := by
    have htext : nameText 0 (c :: (a ++ '/' :: z)) = nameText 0 (c :: (a ++ w)) :=
      nameText_bar isBar_slash hw z h.endsIn_name
    rw [isUrlName, isUrlName, htext]
  have hdrop : ∀ v, (a ++ v).drop (nameLength 0 (c :: (a ++ w)) - 1) = '(' :: (rest ++ v) := by
    intro v
    rw [List.drop_append_of_le_length hle, hrest, List.cons_append]
  have hread := readName_of_round (hdrop w)
  have hread' : readName c (a ++ '/' :: z) =
      roundToken (isUrlName (c :: (a ++ '/' :: z)))
        (nameLength 0 (c :: (a ++ '/' :: z)) - 1) (rest ++ '/' :: z) :=
    readName_of_round (by rw [hlength]; exact hdrop _)
  rw [hread', hread, hlength, hurl]
  have hcount := congrArg List.length hrest
  rw [List.length_drop, List.length_cons] at hcount
  have hends := h.ends.le
  have hfunction := h.url
  rw [hread] at hends hfunction
  refine roundToken_slash hw z (by omega) fun hkind hname => ?_
  obtain ⟨d, hd, hspace⟩ := hfunction hkind hname
  have hbehind := succ_le_roundToken (isUrlName (c :: (a ++ w)))
    (nameLength 0 (c :: (a ++ w)) - 1) (rest ++ w)
  rw [← Nat.add_sub_cancel' hbehind, ← List.drop_drop, ← List.drop_drop, hrest] at hd
  exact ⟨d, List.mem_of_mem_drop hd, hspace⟩

omit hw in
/-- A parenthesis that stands right behind the name belongs to the token. -/
theorem TokenEndsIn.head?_ne_round
    (hnil : a.drop (nameLength 0 (c :: (a ++ w)) - 1) = []) : w.head? ≠ some '(' := by
  intro hhead
  obtain ⟨rest, hrest⟩ := List.head?_eq_some_iff.1 hhead
  have hread := @readName_of_round c (a ++ w) rest (by
    rw [List.drop_append_of_le_length h.nameLength_le, hnil, List.nil_append, hrest])
  have hends := h.ends.le
  have hcount := List.drop_eq_nil_iff.1 hnil
  have hmore := succ_le_roundToken (isUrlName (c :: (a ++ w)))
    (nameLength 0 (c :: (a ++ w)) - 1) rest
  rw [hread] at hends
  omega

theorem readName_slash : readName c (a ++ '/' :: z) = readName c (a ++ w) := by
  cases hleft : a.drop (nameLength 0 (c :: (a ++ w)) - 1) with
  | cons d rest =>
    by_cases hround : d = '('
    · exact h.readName_slash_of_round hw z (hround ▸ hleft)
    · have hnot : ∀ v, ∀ e ∈ ((a ++ v).drop (nameLength 0 (c :: (a ++ w)) - 1)).head?, e ≠ '(' := by
        intro v e he
        rw [List.drop_append_of_le_length h.nameLength_le, hleft] at he
        rwa [← Option.some.inj he]
      rw [readName_of_not_round (hnot w), readName_of_not_round, h.nameLength_slash hw z]
      rw [h.nameLength_slash hw z]
      exact hnot _
  | nil =>
    have hdrop : ∀ v, (a ++ v).drop (nameLength 0 (c :: (a ++ w)) - 1) = v := by
      intro v
      rw [List.drop_append_of_le_length h.nameLength_le, hleft, List.nil_append]
    rw [readName_of_not_round, readName_of_not_round, h.nameLength_slash hw z]
    · rw [hdrop]
      rintro d hd rfl
      exact h.head?_ne_round hleft hd
    · rw [h.nameLength_slash hw z, hdrop]
      rintro d hd rfl
      exact absurd hd (by simp)

end

/-- A way to read tokens that a slash in place of `w` does not change. -/
def Keeps (w z a : List Char) (c : Char) (f : List Char → Kind × Nat) : Prop :=
  TokenEndsIn w a c (f (a ++ w)) → f (a ++ '/' :: z) = f (a ++ w)

section

variable {a : List Char} {c : Char} {f g : List Char → Kind × Nat} {z}

omit hw

theorem Keeps.ite_const {p : Prop} [Decidable p] (hf : p → Keeps w z a c f)
    (hg : ¬p → Keeps w z a c g) : Keeps w z a c fun cs => if p then f cs else g cs := by
  intro h
  by_cases hp : p
  · simp only [hp, if_true] at h ⊢
    exact hf hp h
  · simp only [hp, if_false] at h ⊢
    exact hg hp h

/-- A test that the slash does not change, unless the token that it leads to is not over. -/
theorem Keeps.ite {p : List Char → Bool}
    (hp : (p (a ++ w) = true → TokenEndsIn w a c (f (a ++ w))) →
      p (a ++ '/' :: z) = p (a ++ w))
    (hf : Keeps w z a c f) (hg : Keeps w z a c g) :
    Keeps w z a c fun cs => if p cs = true then f cs else g cs := by
  intro h
  simp only at h ⊢
  cases hpw : p (a ++ w) with
  | true =>
    rw [hpw, if_pos rfl] at h
    rw [hp fun _ => h, hpw, if_pos rfl, if_pos rfl, hf h]
  | false =>
    rw [hpw, if_neg Bool.false_ne_true] at h
    have hnot : p (a ++ w) = true → TokenEndsIn w a c (f (a ++ w)) := fun ht =>
      absurd (hpw.symm.trans ht) Bool.false_ne_true
    rw [hp hnot, hpw, if_neg Bool.false_ne_true, if_neg Bool.false_ne_true, hg h]

theorem keeps_const (x : Kind × Nat) : Keeps w z a c fun _ => x := fun _ => rfl

/-- Plain tokens are kept if their lengths are. -/
theorem keeps_of_length {k : Kind} {n : List Char → Nat}
    (h : TokenEndsIn w a c (k, n (a ++ w)) → n (a ++ '/' :: z) = n (a ++ w)) :
    Keeps w z a c fun cs => (k, n cs) :=
  fun hends => congrArg (Prod.mk k) (h hends)

end

variable {a : List Char} {c : Char} {z}

theorem keeps_comment : Keeps w z a c fun cs => (.comment, commentLength (cs.drop 1) + 1) := by
  refine keeps_of_length fun h => ?_
  have hle := h.ends.le
  cases a with
  | nil => exact absurd hle (Nat.not_succ_le_zero _)
  | cons d a => exact congrArg (· + 1) (commentLength_slash hw z (Nat.le_of_succ_le_succ hle))

/-- What is behind the first character of a number. -/
theorem keeps_number (hc : c ≠ '-') :
    Keeps w z a c fun cs => (.other, numberLength (c :: cs) - 1) := by
  refine keeps_of_length fun h => ?_
  have hle : numberLength (c :: (a ++ w)) - 1 ≤ a.length := h.ends.le
  have hleft : a.drop (numberLength (c :: (a ++ w)) - 1) ≠ ['\\'] := h.ends.left
  have hends : EndsIn (c :: a) (numberLength (c :: a ++ w)) := by
    rw [List.cons_append]
    refine ⟨Nat.le_succ_of_pred_le hle, fun hdrop => ?_⟩
    cases hn : numberLength (c :: (a ++ w)) with
    | zero =>
      rw [hn] at hdrop
      exact h.alone hdrop
    | succ n =>
      rw [hn] at hdrop hleft
      exact hleft hdrop
  have hdash : NoDash w (c :: a) := by
    intro hlast
    cases a with
    | nil => exact absurd (Option.some.inj hlast) hc
    | cons d a => exact h.dash (by rwa [List.getLast?_cons_cons] at hlast)
  exact congrArg (· - 1) (numberLength_slash hw z hends hdash)

theorem keeps_fraction : Keeps w z a '.' fun cs =>
    (.other, if startsDigit cs then numberLength ('.' :: cs) - 1 else 0) := by
  refine keeps_of_length fun h => ?_
  have hsame : startsDigit (a ++ '/' :: z) = startsDigit (a ++ w) := by
    cases a with
    | cons d a => rfl
    | nil =>
      cases hdigit : startsDigit w with
      | false => exact hdigit.symm
      | true =>
        have hle := h.ends.le
        have htwo := two_le_numberLength hdigit
        simp only [List.nil_append, hdigit, if_true, List.length_nil] at hle
        omega
  rw [hsame]
  split at h
  · rename_i hdigit
    rw [if_pos hdigit, if_pos hdigit]
    exact congrArg Prod.snd (keeps_number hw (by decide) h)
  · rename_i hdigit
    rw [if_neg hdigit, if_neg hdigit]

/-- What follows a hash. -/
theorem keeps_hash : Keeps w z a c fun cs =>
    match cs with
    | d :: _ =>
      if atName cs || d.isDigit || d == '-' then (.other, nameLength 0 cs) else (.other, 0)
    | [] => (.other, 0) := by
  have hhash : Keeps w z a c fun cs => (.other, hashLength cs) :=
    keeps_of_length fun h => hashLength_slash hw z h.ends
  convert hhash using 2 with cs
  cases cs with
  | nil => rfl
  | cons d ds => exact (apply_ite (Prod.mk Kind.other) _ _ _).symm

omit hw in
/-- A dash that ends its token: a name would go on behind it, unless a backslash escapes nothing. -/
theorem readName_of_single_dash
    (h : (if atName ('-' :: w) = true then readName '-' w else (Kind.other, 0)).2 = 0) :
    (if atName ('-' :: w) = true then readName '-' w else (Kind.other, 0)) = (.other, 0) := by
  by_cases hname : atName ('-' :: w) = true
  · rw [if_pos hname] at h ⊢
    have hle := nameLength_le_readName '-' w
    have hlone : StartsLone w := by
      by_contra hlone
      have htwo := two_le_nameLength_dash hlone hname
      omega
    obtain ⟨rest, rfl, hbreak⟩ := hlone
    have hone : nameLength 0 ('-' :: '\\' :: rest) = 1 := by
      rw [nameLength_cons_of_continues rfl, nameLength_backslash, if_pos hbreak]
    have hread := @readName_of_not_round '-' ('\\' :: rest) (by
      rw [hone]
      intro d hd
      rw [← Option.some.inj hd]
      decide)
    rw [hread, hone]
  · rw [if_neg hname]

theorem keeps_readName_of_atName :
    Keeps w z a c fun cs => if atName (c :: cs) = true then readName c cs else (.other, 0) := by
  intro h
  by_cases hsingle : c :: a = ['-']
  · obtain ⟨rfl, rfl⟩ := List.cons.inj hsingle
    exact (readName_of_single_dash (Nat.le_zero.1 h.ends.le)).symm
  · have hname : atName (c :: a ++ '/' :: z) = atName (c :: a ++ w) :=
      atName_append (List.cons_ne_nil c a) hsingle h.alone _
    rw [List.cons_append, List.cons_append] at hname
    simp only [hname] at h ⊢
    split at h
    · rename_i hatName
      rw [if_pos hatName, if_pos hatName, readName_slash hw z h]
    · rename_i hatName
      rw [if_neg hatName, if_neg hatName]

/-- **A token that ends in front of a slash** is the same whatever the slash stands for. -/
theorem keeps_read : Keeps w z a c (read c) := by
  have hmark : ∀ k : Kind, Keeps w z a c fun _ => (k, 0) := fun k => keeps_const _
  have hnumber : Keeps w z a c fun cs =>
      (.other, numberLength cs) :=
    keeps_of_length fun h => numberLength_slash hw z h.ends h.dash
  refine .ite_const (fun _ => keeps_of_length fun h => ?_) fun hspace => ?_
  · exact congrArg List.length (takeWhile_bar z isBar_slash.space h.ends.le)
  refine .ite_const (fun hc => readString_slash hw z ?_) fun hquote => ?_
  · rintro rfl
    simp at hc
  iterate 7 refine .ite_const (fun _ => hmark _) fun _ => ?_
  refine .ite (fun h => ?_) (keeps_comment hw) ?_
  · cases a with
    | nil =>
      cases hcomment : (c == '/' && w.head? == some '*') with
      | false => simp [hcomment]
      | true => exact absurd (h hcomment).ends.le (Nat.not_succ_le_zero _)
    | cons d a => rfl
  refine .ite_const (fun _ => keeps_hash hw) fun _ => ?_
  refine .ite_const (fun _ => keeps_of_length fun h => ?_) fun _ => ?_
  · exact nameLength?_slash hw z h.ends h.dash
  refine .ite_const (fun hdigit => keeps_number hw ?_) fun _ => ?_
  · rintro rfl
    exact absurd hdigit (by decide)
  refine .ite_const (fun hdot => ?_) fun _ => ?_
  · obtain rfl : c = '.' := by simpa using hdot
    exact keeps_fraction hw
  refine .ite_const (fun _ => keeps_of_length fun h => ?_) fun _ => ?_
  · have hends := h.ends
    simp only at hends
    have hsame := startsNumber_slash (w := w) z fun hp => by
      rw [if_pos hp] at hends
      exact hends.le
    rw [hsame]
    split at hends
    · rename_i hp
      rw [if_pos hp, if_pos hp, numberLength_slash hw z hends h.dash]
    · rename_i hp
      rw [if_neg hp, if_neg hp]
  refine .ite (fun h => ?_) (keeps_const _) ?_
  · cases hc : c == '<' with
    | false => rfl
    | true =>
      have hopen := take_slash_beq (v := ['!', '-', '-']) (w := w) (a := a) z (by decide)
      exact hopen fun htake => (h (by rw [hc]; exact htake)).ends.le
  refine .ite_const (fun _ => ?_) fun _ => keeps_readName_of_atName hw
  refine .ite (fun h => ?_) hnumber ?_
  · exact startsNumber_slash z fun hp => (h hp).ends.le
  refine .ite (fun h => ?_) (keeps_const _) (keeps_readName_of_atName hw)
  have harrow := take_slash_beq (v := ['-', '>']) (w := w) (a := a) z (by decide)
  exact harrow fun htake => (h htake).ends.le

/-! ## Tokens of a text -/

omit hw

/-- A token that begins with white space is white space. -/
theorem kind_eq_space_of_mem {l : Location} {cs : List Char} {t : Token}
    (ht : t ∈ tokensFrom l cs) (hspace : ∀ d ∈ t.text, isSpace d = true) : t.kind = .space := by
  induction l, cs using tokensFrom.induct with
  | case1 => simp [tokensFrom] at ht
  | case2 l c cs kind n h text ih =>
    rw [tokensFrom_cons] at ht
    rcases List.mem_cons.1 ht with rfl | ht
    · have hc : isSpace c = true := hspace c List.mem_cons_self
      unfold read
      simp only [hc, if_true]
    · rw [h] at ht
      exact ih ht

theorem read_of_startsLone {c : Char} {rest : List Char} (h : StartsLone (c :: rest)) :
    c = '\\' ∧ read c rest = (.other, 0) := by
  obtain ⟨rest', heq, hbreak⟩ := h
  obtain ⟨rfl, rfl⟩ := List.cons.inj heq
  have hread : read '\\' rest =
      if atName ('\\' :: rest) = true then readName '\\' rest else (.other, 0) := rfl
  have hname : atName ('\\' :: rest) = false := by simp [atName, hbreak]
  exact ⟨rfl, by rw [hread, hname]; rfl⟩

/-- A backslash that escapes nothing is a token of its own. -/
theorem text_head?_of_startsLone {l : Location} {cs : List Char} (h : StartsLone cs) :
    ∀ u ∈ (tokensFrom l cs).head?, u.text = ['\\'] := by
  cases cs with
  | nil =>
    obtain ⟨rest, heq, -⟩ := h
    exact absurd heq (by simp)
  | cons c cs =>
    obtain ⟨rfl, hread⟩ := read_of_startsLone h
    rw [tokensFrom_cons, hread]
    rintro u ⟨⟩
    rfl

/-- The opening parenthesis stands alone or behind a name. -/
theorem read_round {c : Char} {cs : List Char} (h : (read c cs).1 = .opening .round) :
    c = '(' ∨ read c cs = readName c cs := by
  have hstring : ∀ quote, (readString quote cs).1 ≠ .opening .round := by
    intro quote
    rw [readString_eq]
    dsimp only
    split <;> exact Kind.noConfusion
  have hsquare : Kind.opening .square ≠ .opening .round := by decide
  have hcurly : Kind.opening .curly ≠ .opening .round := by decide
  revert h
  unfold read
  -- one goal for each way a token can begin
  repeat' first
    | refine iteInduction (motive := fun r : Kind × Nat => r.1 = .opening .round → c = '(' ∨
        r = readName c cs) (fun hc => ?_) fun _ => ?_
    | exact fun _ => .inr rfl
    | exact fun _ => .inl (eq_of_beq hc)
    | exact fun h => absurd h (hstring c)
    | exact fun h => absurd h hsquare
    | exact fun h => absurd h hcurly
    | exact fun h => absurd h Kind.noConfusion
  -- what follows a hash
  cases cs with
  | nil => exact fun h => absurd h Kind.noConfusion
  | cons d cs =>
    refine iteInduction (motive := fun r : Kind × Nat => r.1 = .opening .round → c = '(' ∨
      r = readName c (d :: cs)) (fun _ => ?_) fun _ => ?_ <;>
        exact fun h => absurd h Kind.noConfusion

theorem roundToken_eq_of_kind {url : Bool} {n : Nat} {rest : List Char}
    (h : (roundToken url n rest).1 = .opening .round) :
    roundToken url n rest = (.opening .round, n + 1) := by
  unfold roundToken at h ⊢
  split
  · cases hread : readUrl rest with
    | none => rfl
    | some x =>
      obtain ⟨kind, more⟩ := x
      rcases readUrl_kind hread with hk | ⟨contents, hk⟩ <;> simp_all
  · rfl

/-- The name of a function can be told from its token. -/
theorem isUrlName_take {c : Char} {cs : List Char} (h : (read c cs).1 = .opening .round)
    (hname : isUrlName (c :: cs) = true) :
    isUrlName (c :: cs.take (read c cs).2) = true := by
  have hlength : nameLength 0 (c :: cs) ≠ 0 := by
    intro hzero
    rw [isUrlName, nameText_eq_nil hzero] at hname
    exact absurd hname (by decide)
  rcases read_round h with rfl | hread
  · exact absurd (nameLength_cons_of_not (by decide) (by decide) cs) hlength
  rw [hread] at h ⊢
  by_cases hround : ∃ rest, cs.drop (nameLength 0 (c :: cs) - 1) = '(' :: rest
  · obtain ⟨rest, hrest⟩ := hround
    obtain ⟨n, hn⟩ := Nat.exists_eq_succ_of_ne_zero hlength
    rw [readName_of_round hrest] at h ⊢
    rw [hn, Nat.succ_sub_one] at hrest h ⊢
    rw [roundToken_eq_of_kind h]
    -- the name ends in front of the parenthesis, also where nothing follows it
    have hcs : c :: cs = c :: cs.take n ++ '(' :: rest := by
      rw [List.cons_append, ← hrest, List.take_append_drop]
    have htake : c :: cs.take (n + 1) = c :: cs.take n ++ ['('] := by
      rw [List.take_add, hrest, List.cons_append]
      rfl
    have hends : EndsIn (c :: cs.take n) (nameLength 0 (c :: cs.take n ++ '(' :: rest)) := by
      rw [← hcs, hn]
      have hlt : n < cs.length := by
        by_contra hge
        rw [List.drop_eq_nil_of_le (Nat.le_of_not_lt hge)] at hrest
        exact absurd hrest (by simp)
      have hlen : (c :: cs.take n).length = n + 1 := by
        rw [List.length_cons, List.length_take, Nat.min_eq_left hlt.le]
      exact ⟨hlen.ge, by rw [List.drop_eq_nil_of_le hlen.le]; simp⟩
    rw [htake, isUrlName, nameText_bar isBar_round (List.cons_ne_nil _ rest) [] hends, ← hcs]
    exact hname
  · rw [readName_of_not_round] at h
    · exact absurd h (by simp)
    · rintro d hd rfl
      exact hround (List.head?_eq_some_iff.1 hd)

/-! ## Places between tokens -/

/-- A string that a line break cuts off. -/
def Kind.isBadString : Kind → Bool
  | .badString _ => true
  | _ => false

/-- A token behind which an address can stand in quotes. -/
def Token.opensUrl (t : Token) : Bool := t.kind == .opening .round && isUrlName t.text

/-- Between the tokens `ts` and `us` there is room for a comment, and the tokens stay as they are. -/
structure Parted (ts us : List Token) : Prop where
  /-- A comment does not go on with a string that a line break cuts off. -/
  string : ∀ t ∈ ts.getLast?, t.kind.isBadString = false
  /-- No backslash that escaped nothing is in front, to escape the slash of the comment. -/
  backslash : ∀ t ∈ ts.getLast?, t.text ≠ ['\\']
  /-- A comment does not part a dash from a backslash that escapes nothing. In front of one a dash
  belongs to the number or the at sign in front of it, and in front of a comment it is a token of its
  own: no text is lost, but the cut between plain tokens is another one. -/
  dash : (sourceText ts).getLast? = some '-' → ∀ u ∈ us.head?, u.text ≠ ['\\']
  /-- A comment does not begin an address in place of a string. -/
  url : ∀ t ∈ ts.reverse.find? (·.kind != .space), t.opensUrl = false

instance (ts us : List Token) : Decidable (Parted ts us) :=
  decidable_of_iff
    ((∀ t ∈ ts.getLast?, t.kind.isBadString = false) ∧ (∀ t ∈ ts.getLast?, t.text ≠ ['\\']) ∧
      ((sourceText ts).getLast? = some '-' → ∀ u ∈ us.head?, u.text ≠ ['\\']) ∧
      ∀ t ∈ ts.reverse.find? (·.kind != .space), t.opensUrl = false)
    ⟨fun ⟨hstring, hbackslash, hdash, hurl⟩ => ⟨hstring, hbackslash, hdash, hurl⟩,
      fun h => ⟨h.string, h.backslash, h.dash, h.url⟩⟩

theorem Parted.of_cons {t : Token} {ts us : List Token} (h : Parted (t :: ts) us) :
    Parted ts us where
  string u hu := h.string u (by rw [List.getLast?_cons, hu]; rfl)
  backslash u hu := h.backslash u (by rw [List.getLast?_cons, hu]; rfl)
  dash hdash := h.dash (by
    rw [sourceText_cons, List.getLast?_append, hdash]
    rfl)
  url u hu := h.url u (by
    rw [List.reverse_cons, List.find?_append, hu]
    rfl)

section

variable {ts us : List Token} (hus : us ≠ []) {l : Location}

theorem eq_singleton_of_sourceText {c : Char} (htexts : ∀ t ∈ ts, t.text ≠ [])
    (h : sourceText ts = [c]) : ∃ t, ts = [t] ∧ t.text = [c] := by
  cases ts with
  | nil => exact absurd h (by simp [sourceText])
  | cons t ts =>
    rw [sourceText_cons, List.append_eq_singleton_iff] at h
    rcases h with ⟨hnil, -⟩ | ⟨ht, hnil⟩
    · exact absurd hnil (htexts t List.mem_cons_self)
    · obtain rfl : ts = [] := by
        by_contra hne
        exact sourceText_ne_nil hne (fun u hu => htexts u (List.mem_cons_of_mem t hu)) hnil
      exact ⟨t, rfl, ht⟩

theorem Parted.sourceText_ne (h : Parted ts us) (htexts : ∀ t ∈ ts, t.text ≠ []) :
    sourceText ts ≠ ['\\'] := by
  intro hslash
  obtain ⟨t, rfl, ht⟩ := eq_singleton_of_sourceText htexts hslash
  exact h.backslash t rfl ht

theorem Parted.sourceText_ne_nil_of_badString {t : Token} (h : Parted (t :: ts) us)
    (htexts : ∀ u ∈ ts, u.text ≠ []) (ht : t.kind.isBadString = true) : sourceText ts ≠ [] := by
  refine sourceText_ne_nil ?_ htexts
  rintro rfl
  exact absurd (ht.symm.trans (h.string t rfl)) Bool.noConfusion

/-- Behind the name of an address and its parenthesis, a token that is not white space stands in
front of the place. -/
theorem Parted.exists_not_isSpace {t : Token} (h : Parted (t :: ts) us)
    (hts : ∀ u ∈ ts, (∀ d ∈ u.text, isSpace d = true) → u.kind = .space)
    (ht : t.opensUrl = true) : ∃ d ∈ sourceText ts, isSpace d = false := by
  by_contra hspaces
  have hkinds : ∀ u ∈ ts, u.kind = .space := by
    refine fun u hu => hts u hu fun d hd => ?_
    by_contra hnot
    exact hspaces ⟨d, List.mem_flatMap.2 ⟨u, hu, hd⟩, by simpa using hnot⟩
  have hnone : ts.reverse.find? (·.kind != .space) = none := by
    rw [List.find?_eq_none]
    intro u hu
    simp [hkinds u (List.mem_reverse.1 hu)]
  have hround : t.kind = .opening .round := eq_of_beq (Bool.and_eq_true_iff.1 ht).1
  have hfalse := h.url t (by
    rw [List.reverse_cons, List.find?_append, hnone]
    simp [hround])
  exact absurd (ht.symm.trans hfalse) Bool.noConfusion

include hus

theorem Parted.noDash (h : Parted ts us) (htokens : us = tokensFrom l (sourceText us)) :
    NoDash (sourceText us) (sourceText ts) := by
  intro hdash hlone
  obtain ⟨u, us, rfl⟩ := List.exists_cons_of_ne_nil hus
  exact h.dash hdash u rfl (text_head?_of_startsLone (l := l) hlone u (by rw [← htokens]; rfl))

/-- A token in front of the place ends there, so a slash does not go on with it. -/
theorem Parted.tokenEndsIn {c : Char} {cs : List Char}
    (h : Parted (⟨(read c cs).1, c :: cs.take (read c cs).2, l⟩ :: ts) us)
    (hrest : tokensFrom (l.advance (c :: cs.take (read c cs).2)) (cs.drop (read c cs).2) =
      ts ++ us) :
    ∃ a, cs = a ++ sourceText us ∧ a.take (read c cs).2 = cs.take (read c cs).2 ∧
      a.drop (read c cs).2 = sourceText ts ∧
      TokenEndsIn (sourceText us) a c (read c cs) := by
  have htexts : ∀ u ∈ ts ++ us, u.text ≠ [] := fun u hu => text_ne_nil_of_mem (hrest ▸ hu)
  have hts : ∀ u ∈ ts, u.text ≠ [] := fun u hu => htexts u (List.mem_append_left us hu)
  have hw : sourceText us ≠ [] :=
    sourceText_ne_nil hus fun u hu => htexts u (List.mem_append_right ts hu)
  have hdrop : cs.drop (read c cs).2 = sourceText ts ++ sourceText us := by
    rw [← sourceText_append, ← hrest, sourceText_tokensFrom]
  have hlen : (cs.take (read c cs).2).length = (read c cs).2 := by
    rw [List.length_take, Nat.min_eq_left]
    by_contra hlt
    rw [List.drop_eq_nil_of_le (Nat.le_of_not_le hlt)] at hdrop
    exact hw (List.append_eq_nil_iff.1 hdrop.symm).2
  have hcs : cs = cs.take (read c cs).2 ++ sourceText ts ++ sourceText us := by
    rw [List.append_assoc, ← hdrop, List.take_append_drop]
  have hleft : (cs.take (read c cs).2 ++ sourceText ts).drop (read c cs).2 = sourceText ts :=
    List.drop_left' hlen
  have hwhole : sourceText (⟨(read c cs).1, c :: cs.take (read c cs).2, l⟩ :: ts) =
      c :: (cs.take (read c cs).2 ++ sourceText ts) := by
    rw [sourceText_cons, List.cons_append]
  obtain ⟨l', hus'⟩ := exists_tokensFrom_of_append hrest
  refine ⟨_, hcs, List.take_left' hlen, hleft, ⟨?_, ?_⟩, ?_, fun hdash => ?_, ?_, ?_⟩
  · rw [List.length_append, hlen]
    exact Nat.le_add_right _ _
  · rw [hleft]
    exact h.of_cons.sourceText_ne hts
  · rw [← hwhole]
    exact h.sourceText_ne (List.forall_mem_cons.2 ⟨List.cons_ne_nil _ _, hts⟩)
  · refine h.noDash hus hus' ?_
    rw [hwhole, List.getLast?_cons, hdash]
    rfl
  · rintro ⟨text, hbad⟩
    have hne := h.sourceText_ne_nil_of_badString hts (by rw [hbad]; rfl)
    rw [List.length_append, hlen]
    exact Nat.lt_add_of_pos_right (List.length_pos_iff.2 hne)
  · intro hround hurl
    rw [← hcs] at hurl
    rw [hleft]
    refine h.exists_not_isSpace
      (fun u hu => kind_eq_space_of_mem (hrest ▸ List.mem_append_left us hu)) ?_
    rw [Token.opensUrl, isUrlName_take hround hurl, hround]
    rfl

/-- **Tokens stay the same** where a slash is put behind them. -/
theorem tokensFrom_insert (h : Parted ts us) {cs : List Char} (htokens : tokensFrom l cs = ts ++ us)
    (z : List Char) :
    ∃ l', tokensFrom l (sourceText ts ++ '/' :: z) = ts ++ tokensFrom l' ('/' :: z) := by
  induction ts generalizing l cs with
  | nil => exact ⟨l, rfl⟩
  | cons t ts ih =>
    cases cs with
    | nil => simp [tokensFrom] at htokens
    | cons c cs =>
      rw [List.cons_append] at htokens
      have htexts : ∀ u ∈ us, u.text ≠ [] := fun u hu =>
        text_ne_nil_of_mem (htokens ▸ List.mem_cons_of_mem t (List.mem_append_right ts hu))
      obtain ⟨rfl, hrest⟩ := tokensFrom_eq_cons_iff.1 htokens
      obtain ⟨l', htail⟩ := ih h.of_cons hrest.symm
      obtain ⟨a, hcs, htake, hdrop, hends⟩ := h.tokenEndsIn hus hrest.symm
      have hread : read c (a ++ '/' :: z) = read c cs := by
        rw [hcs] at hends ⊢
        exact keeps_read (sourceText_ne_nil hus htexts) hends
      refine ⟨l', ?_⟩
      have htext : sourceText (⟨(read c cs).1, c :: cs.take (read c cs).2, l⟩ :: ts) = c :: a := by
        rw [sourceText_cons, ← htake, ← hdrop, List.cons_append, List.take_append_drop]
      rw [htext, List.cons_append, List.cons_append, tokensFrom_eq_cons_iff, hread,
        List.take_append_of_le_length hends.ends.le, List.drop_append_of_le_length hends.ends.le,
        htake, hdrop, htail]
      exact ⟨rfl, rfl⟩

end

/-! ## Comments -/

/-- **A comment between the tokens of a text** is a token of its own, and the others stay the
same. -/
theorem exists_tokensFrom_insert {ts us : List Token} (hus : us ≠ []) (h : Parted ts us)
    {l : Location} {cs : List Char} (htokens : tokensFrom l cs = ts ++ us) {body : List Char}
    (hbody : ¬['*', '/'] <:+: body) :
    ∃ c us', tokensFrom l (sourceText ts ++ (commentText body ++ sourceText us)) =
        ts ++ c :: us' ∧
      c.kind = .comment ∧ c.text = commentText body ∧
      Same (fun _ => 0) (fun _ => 0) us us' := by
  obtain ⟨l₁, hfront⟩ := tokensFrom_insert hus h htokens
    ('*' :: (body ++ ['*', '/']) ++ sourceText us)
  obtain ⟨l₂, hcomment⟩ := tokensFrom_commentText hbody l₁ (sourceText us)
  obtain ⟨l₃, hback⟩ := exists_tokensFrom_of_append htokens
  refine ⟨⟨.comment, commentText body, l₁⟩, tokensFrom l₂ (sourceText us), ?_, rfl, rfl, ?_⟩
  · rw [← hcomment]
    exact hfront
  · have hsame := same_tokensFrom l₃ l₂ (sourceText us)
    rwa [← hback] at hsame

end GlyphTrim.Css
