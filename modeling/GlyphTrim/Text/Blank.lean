/-!
# White space and words

The white space of this library is the Unicode property `White_Space`. A class attribute is a
list of *words*: the maximal runs of characters that are not white space. The main statements
say that a word is never empty (`words_ne_nil`) and holds no white space
(`not_isBlank_of_mem_words`).
-/

namespace GlyphTrim.Text

/-- Membership in the Unicode property `White_Space`. -/
def isBlank (c : Char) : Bool :=
  let n := c.toNat
  (9 ≤ n && n ≤ 13) || n == 0x20 || n == 0x85 || n == 0xA0 || n == 0x1680 ||
    (0x2000 ≤ n && n ≤ 0x200A) || n == 0x2028 || n == 0x2029 || n == 0x202F || n == 0x205F ||
    n == 0x3000

/-- Puts a character that is not white space in front of the words of the text `rest`: it joins
the first word if the text begins with one, and is a word of its own otherwise. -/
def consWord (c : Char) (rest : List Char) (ws : List (List Char)) : List (List Char) :=
  match rest, ws with
  | d :: _, w :: ws => if isBlank d then [c] :: w :: ws else (c :: w) :: ws
  | _, ws => [c] :: ws

/-- The maximal runs of characters that are not white space, in order. -/
def words : List Char → List (List Char)
  | [] => []
  | c :: cs => if isBlank c then words cs else consWord c cs (words cs)

theorem words_ne_nil {w : List Char} {cs : List Char} (h : w ∈ words cs) : w ≠ [] := by
  induction cs generalizing w with
  | nil => simp [words] at h
  | cons c cs ih =>
    rw [words] at h
    split at h
    · exact ih h
    · unfold consWord at h
      split at h
      · rename_i d _ v vs hw
        split at h
        · rcases List.mem_cons.1 h with rfl | h
          · simp
          · exact ih (hw ▸ h)
        · rcases List.mem_cons.1 h with rfl | h
          · simp
          · exact ih (hw ▸ List.mem_cons_of_mem _ h)
      · rcases List.mem_cons.1 h with rfl | h
        · simp
        · exact ih h

theorem not_isBlank_of_mem_words {w : List Char} {cs : List Char} (h : w ∈ words cs) :
    ∀ c ∈ w, isBlank c = false := by
  induction cs generalizing w with
  | nil => simp [words] at h
  | cons c cs ih =>
    rw [words] at h
    split at h
    · exact ih h
    · rename_i hc
      have hc : isBlank c = false := by simpa using hc
      unfold consWord at h
      split at h
      · rename_i d _ v vs hw
        split at h
        · rcases List.mem_cons.1 h with rfl | h
          · simpa using hc
          · exact ih (hw ▸ h)
        · rcases List.mem_cons.1 h with rfl | h
          · intro x hx
            rcases List.mem_cons.1 hx with rfl | hx
            · exact hc
            · exact ih (hw ▸ List.mem_cons_self) x hx
          · exact ih (hw ▸ List.mem_cons_of_mem _ h)
      · rcases List.mem_cons.1 h with rfl | h
        · simpa using hc
        · exact ih h

/-- The words of a class attribute, in order and with repetitions. -/
def classTokens (s : String) : List String :=
  (words s.toList).map String.ofList

/-- The text without the white space at its two ends. -/
def trimChars (cs : List Char) : List Char :=
  ((cs.dropWhile isBlank).reverse.dropWhile isBlank).reverse

/-- The text without the white space at its two ends. -/
def trim (s : String) : String :=
  String.ofList (trimChars s.toList)

/-- A number of things, in words: `1 file`, `3 files`. -/
def counted (n : Nat) (one many : String) : String :=
  s!"{n} {if n == 1 then one else many}"

end GlyphTrim.Text
