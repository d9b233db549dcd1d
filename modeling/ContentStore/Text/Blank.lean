/-!
# Blank characters

Ids and keywords are read with the blanks around them cut off.  Blank means
the Unicode property White_Space: the ASCII blanks and controls, the no-break
space, and the spaces and separators of other scripts.
-/

namespace ContentStore.Text

/-- The character has the Unicode property White_Space. -/
def isBlank (c : Char) : Bool :=
  let n := c.toNat
  (9 ≤ n && n ≤ 13) || n == 0x20 || n == 0x85 || n == 0xa0 || n == 0x1680 ||
    (0x2000 ≤ n && n ≤ 0x200a) || n == 0x2028 || n == 0x2029 || n == 0x202f ||
    n == 0x205f || n == 0x3000

/-- The characters from the first that is not blank. -/
def dropBlanks (cs : List Char) : List Char :=
  cs.dropWhile isBlank

/-- The text without the blanks at its two ends. -/
def trim (s : String) : String :=
  String.ofList (dropBlanks (dropBlanks s.toList).reverse).reverse

/-- Every blank of the core library is blank here. -/
theorem isBlank_of_isWhitespace {c : Char} (h : c.isWhitespace) : isBlank c := by
  simp only [Char.isWhitespace, Bool.or_eq_true, decide_eq_true_eq] at h
  rcases h with ((h | h) | h) | h <;> subst h <;> decide

@[simp] theorem dropBlanks_nil : dropBlanks [] = [] := rfl

/-- Cutting blanks off twice is cutting them off once. -/
theorem dropBlanks_dropBlanks (cs : List Char) : dropBlanks (dropBlanks cs) = dropBlanks cs := by
  simp only [dropBlanks]
  induction cs with
  | nil => rfl
  | cons c cs ih =>
    by_cases h : isBlank c
    · simp [h, ih]
    · simp [h]

/-- Nothing is cut off where there is no blank in front. -/
theorem dropBlanks_eq_self {cs : List Char} (h : ∀ c ∈ cs.head?, isBlank c = false) :
    dropBlanks cs = cs := by
  cases cs with
  | nil => rfl
  | cons c cs => rw [dropBlanks, List.dropWhile_cons, h c rfl, if_neg (by decide)]

theorem trim_trim (s : String) : trim (trim s) = trim s := by
  have hfront : ∀ c ∈ (dropBlanks (dropBlanks s.toList).reverse).reverse.head?,
      isBlank c = false := by
    intro c hc
    -- what is left is the beginning of what was left after the front
    have hprefix : (dropBlanks (dropBlanks s.toList).reverse).reverse <+: dropBlanks s.toList := by
      have hsuffix : dropBlanks (dropBlanks s.toList).reverse <:+ (dropBlanks s.toList).reverse :=
        List.dropWhile_suffix _
      rwa [← List.reverse_prefix, List.reverse_reverse] at hsuffix
    obtain ⟨rest, hrest⟩ := hprefix
    have hhead : (dropBlanks s.toList).head? = some c := by
      rw [← hrest, List.head?_append, hc, Option.some_or]
    have hnot := List.head?_dropWhile_not isBlank s.toList
    rw [show s.toList.dropWhile isBlank = dropBlanks s.toList from rfl, hhead] at hnot
    exact hnot
  unfold trim
  rw [String.toList_ofList, dropBlanks_eq_self hfront, List.reverse_reverse, dropBlanks_dropBlanks]

end ContentStore.Text
