import ContentStore.Json.Printer
import ContentStore.Json.Reader
import Mathlib.Tactic.SplitIfs

/-!
# Text is read as it was written

The text of a value on one line is read back as this value (`read?_compact`),
if it holds no binary number, its whole numbers fit words, and its containers
do not stand too deep inside one another.  Such a value is called plain, and
records are written as plain values.

The reader of each piece is followed by the rest of the text.  A value is read
whatever stands after it (`Reads`), as long as that does not go on a number;
elements and members are then read one after the other.
-/

namespace ContentStore.Json

variable {depth fuel n : Nat} {c : Char} {cs ds rest : List Char}

/-! ## Strings -/

/-- Hexadecimal digits are read as they are written. -/
theorem hexValue?_hexDigit : ∀ n < 16, hexValue? (hexDigit n) = some n := by decide

/-- A control character is read from the two last of its four digits. -/
theorem readEscapedUnit_control (hc : c.toNat < 0x20) (rest : List Char) :
    readEscapedUnit ('0' :: '0' :: hexDigit (c.toNat / 16) :: hexDigit (c.toNat % 16) :: rest) =
      some (c, rest) := by
  have hzero : hexValue? '0' = some 0 := by decide
  have hhigh := hexValue?_hexDigit (c.toNat / 16) (by omega)
  have hlow := hexValue?_hexDigit (c.toNat % 16) (by omega)
  have hunit : ((0 * 16 + 0) * 16 + c.toNat / 16) * 16 + c.toNat % 16 = c.toNat := by omega
  have hread : readUnit ('0' :: '0' :: hexDigit (c.toNat / 16) :: hexDigit (c.toNat % 16) :: rest) =
      some (c.toNat, rest) := by
    simp only [readUnit, hzero, hhigh, hlow, Option.bind_eq_bind, Option.bind_some, hunit]
    rfl
  have hplain : ¬ (0xd800 ≤ c.toNat ∧ c.toNat ≤ 0xdbff) := by omega
  have hlater : ¬ (0xdc00 ≤ c.toNat ∧ c.toNat ≤ 0xdfff) := by omega
  unfold readEscapedUnit
  rw [hread, Option.bind_eq_bind, Option.bind_some]
  simp only [if_neg hplain, if_neg hlater, Char.ofNat_toNat]

/-- One character of a string is read as it was written. -/
theorem readChars_escape (fuel : Nat) (done : List Char) (c : Char) (rest : List Char) :
    readChars (fuel + 1) done (escape c ++ rest) = readChars fuel (c :: done) rest := by
  unfold escape
  split_ifs with hquote hslash _ _ _ _ _ hcontrol
  any_goals (subst c; rfl)
  · show (readEscapedUnit ('0' :: '0' :: hexDigit (c.toNat / 16) :: hexDigit (c.toNat % 16) ::
      rest)).bind _ = _
    rw [readEscapedUnit_control hcontrol]
    rfl
  · refine (readChars.eq_def (fuel + 1) done (c :: rest)).trans ?_
    simp only [if_neg hquote, if_neg hslash, if_neg hcontrol]

/-- Escapes make a text no shorter. -/
theorem length_le_flatMap_escape (cs : List Char) : cs.length ≤ (cs.flatMap escape).length := by
  induction cs with
  | nil => exact Nat.zero_le _
  | cons c cs ih =>
    have hone : 1 ≤ (escape c).length := by
      unfold escape
      split_ifs <;> simp
    rw [List.flatMap_cons, List.length_append, List.length_cons]
    omega

/-- **Escaped characters are read back** up to the quote behind them. -/
theorem readChars_flatMap_escape (h : cs.length < fuel) (done rest : List Char) :
    readChars fuel done (cs.flatMap escape ++ '\x22' :: rest) =
      some (String.ofList (done.reverse ++ cs), rest) := by
  induction cs generalizing fuel done with
  | nil =>
    obtain ⟨fuel, rfl⟩ := Nat.exists_eq_succ_of_ne_zero (Nat.ne_of_gt h)
    rw [List.append_nil]
    rfl
  | cons c cs ih =>
    obtain ⟨fuel, rfl⟩ := Nat.exists_eq_succ_of_ne_zero (Nat.ne_of_gt (Nat.zero_lt_of_lt h))
    rw [List.flatMap_cons, List.append_assoc, readChars_escape, ih (Nat.lt_of_succ_lt_succ h),
      List.reverse_cons, List.append_assoc, List.singleton_append]

/-- A string without its opening quote is read as it was written. -/
theorem readChars_quote (s : String) (rest : List Char) :
    readChars ((s.toList.flatMap escape ++ '\x22' :: rest).length + 1) []
      (s.toList.flatMap escape ++ '\x22' :: rest) = some (s, rest) := by
  have hlength := length_le_flatMap_escape s.toList
  rw [readChars_flatMap_escape, List.reverse_nil, List.nil_append, String.ofList_toList]
  rw [List.length_append]
  omega

/-- A text stands between two quotes, with its characters escaped. -/
theorem toList_quote (s : String) :
    (quote s).toList = '\x22' :: (s.toList.flatMap escape ++ ['\x22']) := by
  rw [quote, String.toList_ofList, List.cons_append]

/-! ## Numbers -/

/-- What may stand after a number. -/
def EndsNumber (rest : List Char) : Prop :=
  ∀ c ∈ rest.head?, c.isDigit = false ∧ c ≠ '.' ∧ c ≠ 'e' ∧ c ≠ 'E'

/-- Digits are taken up as long as their number fits the word. -/
theorem readWord_digits (hdigits : ∀ c ∈ ds, c.isDigit = true)
    (hrest : ∀ c ∈ rest.head?, c.isDigit = false) (count n : Nat)
    (hfits : Nat.ofDigitChars 10 ds n ≤ Number.largestNat64) :
    readWord n count (ds ++ rest) = (Nat.ofDigitChars 10 ds n, count + ds.length, rest) := by
  induction ds generalizing n count with
  | nil =>
    cases rest with
    | nil => rfl
    | cons c rest =>
      have hc : ¬ (c.isDigit = true ∧ n * 10 + digitValue c ≤ Number.largestNat64) := by
        rw [hrest c rfl]
        exact fun h => Bool.false_ne_true h.1
      rw [List.nil_append, readWord, if_neg hc]
      rfl
  | cons c ds ih =>
    have hvalue : n * 10 + digitValue c = 10 * n + (c.toNat - '0'.toNat) := by
      rw [Nat.mul_comm]
      rfl
    rw [Nat.ofDigitChars_cons] at hfits ⊢
    have hle : n * 10 + digitValue c ≤ Number.largestNat64 := by
      rw [hvalue]
      refine Nat.le_trans ?_ hfits
      rw [Nat.ofDigitChars_eq_ofDigitChars_zero (l := ds)]
      exact Nat.le_trans (Nat.le_mul_of_pos_left _ (Nat.pow_pos (by decide))) (Nat.le_add_right _ _)
    rw [List.cons_append, readWord, if_pos ⟨hdigits c List.mem_cons_self, hle⟩, hvalue,
      ih (fun d hd => hdigits d (List.mem_cons_of_mem _ hd)) _ _ hfits, List.length_cons]
    congr 2
    omega

/-- Only zero is written with a zero first. -/
theorem eq_zero_of_head?_toDigits (n : Nat) (h : (Nat.toDigits 10 n).head? = some '0') : n = 0 := by
  induction n using Nat.strongRecOn with
  | ind n ih =>
    rcases Nat.lt_or_ge n 10 with hlt | hge
    · have hdigit : ∀ n < 10, n.digitChar = '0' → n = 0 := by decide
      rw [Nat.toDigits_of_lt_base hlt] at h
      exact hdigit n hlt (Option.some.inj h)
    · rw [Nat.toDigits_of_base_le (by decide) hge, List.head?_append,
        Option.or_of_isSome (List.isSome_head?.mpr Nat.toDigits_ne_nil)] at h
      have hzero := ih (n / 10) (by omega) h
      omega

/-- Where no digit comes next there are none to count. -/
theorem countDigits_eq_zero (h : ∀ c ∈ rest.head?, c.isDigit = false) : countDigits rest = 0 := by
  cases rest with
  | nil => rfl
  | cons c rest => rw [countDigits, List.takeWhile_cons, h c rfl, if_neg Bool.false_ne_true]; rfl

/-- Nor are there any to skip. -/
theorem skipDigits_eq_self (h : ∀ c ∈ rest.head?, c.isDigit = false) : skipDigits rest = rest := by
  cases rest with
  | nil => rfl
  | cons c rest => rw [skipDigits, List.dropWhile_cons, h c rfl, if_neg Bool.false_ne_true]

/-- A whole number that fits the word is read with all its digits. -/
theorem readUnsigned_toDigits (hfits : n ≤ Number.largestNat64) (hrest : EndsNumber rest)
    (negative : Bool) :
    readUnsigned negative (Nat.toDigits 10 n ++ rest) =
      if !negative then some (.whole n, rest)
      else if n = 0 ∨ -(n : Int) < Number.leastInt64 then real? true n 0 rest
      else some (.whole (-n), rest) := by
  have hnone : ∀ c ∈ rest.head?, c.isDigit = false := fun c hc => (hrest c hc).1
  have hdigits : ∀ c ∈ Nat.toDigits 10 n, c.isDigit = true := fun c hc =>
    Nat.isDigit_of_mem_toDigits (by decide) (by decide) hc
  have hword := readWord_digits hdigits hnone 0 0 (by rwa [Nat.ofDigitChars_ten_toDigits])
  rw [Nat.ofDigitChars_ten_toDigits] at hword
  have hleading := eq_zero_of_head?_toDigits n
  cases hds : Nat.toDigits 10 n with
  | nil => exact absurd hds Nat.toDigits_ne_nil
  | cons c ds =>
    rw [hds] at hdigits hword hleading
    have hfirst : ¬ ((!c.isDigit) = true) := by
      rw [hdigits c List.mem_cons_self]
      decide
    -- after a zero there is no other digit
    have hzero : ¬ (c = '0' ∧ countDigits (ds ++ rest) ≠ 0) := by
      rintro ⟨rfl, hcount⟩
      rw [hleading rfl, Nat.toDigits_zero] at hds
      obtain rfl := (List.cons.inj hds).2
      exact hcount (countDigits_eq_zero hnone)
    rw [List.cons_append] at hword ⊢
    unfold readUnsigned
    simp only [if_neg hfirst, if_neg hzero, hword, countDigits_eq_zero hnone,
      skipDigits_eq_self hnone]
    split
    · exact absurd rfl (hrest _ rfl).2.1
    · exact absurd rfl (hrest _ rfl).2.2.1
    · exact absurd rfl (hrest _ rfl).2.2.2
    · rfl

/-- Without a minus a number has no sign. -/
theorem readNumber_of_ne (hc : c ≠ '-') (cs : List Char) :
    readNumber (c :: cs) = readUnsigned false (c :: cs) := by
  unfold readNumber
  split
  · rename_i heq
    exact absurd (List.cons.inj heq).1 hc
  · rfl

/-- Digits are read as a number without sign. -/
theorem readNumber_toDigits (n : Nat) (rest : List Char) :
    readNumber (Nat.toDigits 10 n ++ rest) = readUnsigned false (Nat.toDigits 10 n ++ rest) := by
  have hdigits : ∀ c ∈ Nat.toDigits 10 n, c.isDigit = true := fun c hc =>
    Nat.isDigit_of_mem_toDigits (by decide) (by decide) hc
  cases hds : Nat.toDigits 10 n with
  | nil => exact absurd hds Nat.toDigits_ne_nil
  | cons c ds =>
    have hc : c ≠ '-' := by
      rintro rfl
      exact absurd (hdigits '-' (hds ▸ List.mem_cons_self)) (by decide)
    exact readNumber_of_ne hc _

/-- A whole number that fits a word is read as it was written. -/
theorem readNumber_whole {n : Int} (hfits : Number.fitsWord n = true) (hrest : EndsNumber rest) :
    readNumber ((toString n).toList ++ rest) = some (.whole n, rest) := by
  have hrange := of_decide_eq_true hfits
  unfold Number.leastInt64 Number.largestNat64 at hrange
  rw [Int.toString_eq_repr, Int.repr_eq_if]
  split
  · rename_i hpos
    have hread := readUnsigned_toDigits (n := n.toNat) (by unfold Number.largestNat64; omega) hrest
      false
    rw [Nat.toList_repr, readNumber_toDigits, hread, Int.toNat_of_nonneg hpos]
    rfl
  · rename_i hneg
    have hread := readUnsigned_toDigits (n := (-n).toNat) (by unfold Number.largestNat64; omega)
      hrest true
    have hback : -((-n).toNat : Int) = n := by omega
    have hword : ¬ ((-n).toNat = 0 ∨ n < Number.leastInt64) := by
      unfold Number.leastInt64
      omega
    rw [String.toList_append, Nat.toList_repr]
    show readUnsigned true (Nat.toDigits 10 (-n).toNat ++ rest) = _
    rw [hread, hback, if_neg hword]
    rfl

/-! ## Values -/

/-- A value without binary numbers, whose whole numbers fit words and whose containers stand at
most so many inside one another. -/
inductive Plain : Nat → Json → Prop where
  | null {depth : Nat} : Plain depth .null
  | bool {depth : Nat} (b : Bool) : Plain depth (.bool b)
  | whole {depth : Nat} {n : Int} (hfits : Number.fitsWord n = true) :
    Plain depth (.number (.whole n))
  | string {depth : Nat} (s : String) : Plain depth (.string s)
  | array {depth : Nat} {xs : List Json} (helements : ∀ x ∈ xs, Plain depth x) :
    Plain (depth + 1) (.array xs)
  | object {depth : Nat} {ms : List (String × Json)} (hmembers : ∀ m ∈ ms, Plain depth m.2) :
    Plain (depth + 1) (.object ms)

/-- The text of a value is read back, whatever stands after it. -/
def Reads (depth : Nat) (j : Json) : Prop :=
  ∀ fuel rest, j.compact.length < fuel → EndsNumber rest →
    readValue fuel depth (j.compact.toList ++ rest) = some (j, rest)

/-- A text that does not begin with a blank has none to skip. -/
theorem skipGaps_of_not_isGap {c : Char} (hc : isGap c = false) (cs : List Char) :
    skipGaps (c :: cs) = c :: cs := by
  rw [skipGaps, List.dropWhile_cons, hc, if_neg Bool.false_ne_true]

/-- Null is read as it is written. -/
theorem reads_null : Reads depth .null := by
  intro fuel rest hfuel _
  obtain ⟨fuel, rfl⟩ := Nat.exists_eq_succ_of_ne_zero (Nat.ne_of_gt (Nat.zero_lt_of_lt hfuel))
  rfl

/-- So are truth values. -/
theorem reads_bool (b : Bool) : Reads depth (.bool b) := by
  intro fuel rest hfuel _
  obtain ⟨fuel, rfl⟩ := Nat.exists_eq_succ_of_ne_zero (Nat.ne_of_gt (Nat.zero_lt_of_lt hfuel))
  cases b <;> rfl

/-- So are texts, whatever characters they have. -/
theorem reads_string (s : String) : Reads depth (.string s) := by
  intro fuel rest hfuel _
  obtain ⟨fuel, rfl⟩ := Nat.exists_eq_succ_of_ne_zero (Nat.ne_of_gt (Nat.zero_lt_of_lt hfuel))
  have hread := readChars_quote s rest
  rw [compact, toList_quote, List.cons_append, List.append_assoc, List.singleton_append]
  show (readChars _ [] _).map _ = _
  rw [hread]
  rfl

/-- A digit or the sign begins a number, and nothing else. -/
def BeginsNumber (c : Char) : Prop := c.isDigit = true ∨ c = '-'

/-- A number begins with no other character than a digit or a minus. -/
theorem BeginsNumber.ne {d : Char} (hc : BeginsNumber c) (hd : d.isDigit = false)
    (hsign : d ≠ '-') : c ≠ d := by
  rintro rfl
  rcases hc with hc | hc
  · exact absurd (hd ▸ hc) Bool.false_ne_true
  · exact hsign hc

/-- In particular, with no blank. -/
theorem BeginsNumber.isGap (hc : BeginsNumber c) : isGap c = false := by
  have hspace : c ≠ ' ' := hc.ne rfl (by decide)
  have hline : c ≠ '\n' := hc.ne rfl (by decide)
  have htab : c ≠ '\t' := hc.ne rfl (by decide)
  have hreturn : c ≠ '\r' := hc.ne rfl (by decide)
  simp [Json.isGap, hspace, hline, htab, hreturn]

/-- The text of an integer begins with a digit or a minus. -/
theorem toList_toString (n : Int) :
    ∃ c cs, (toString n).toList = c :: cs ∧ BeginsNumber c := by
  rw [Int.toString_eq_repr, Int.repr_eq_if]
  split
  · rw [Nat.toList_repr]
    cases hds : Nat.toDigits 10 n.toNat with
    | nil => exact absurd hds Nat.toDigits_ne_nil
    | cons c ds =>
      have hc := Nat.isDigit_of_mem_toDigits (b := 10) (n := n.toNat) (c := c) (by decide)
        (by decide) (hds ▸ List.mem_cons_self)
      exact ⟨c, ds, rfl, .inl hc⟩
  · exact ⟨'-', _, String.toList_append, .inr rfl⟩

/-- What begins like a number is read as one. -/
theorem readValue_number (hc : BeginsNumber c) (cs : List Char) :
    readValue (fuel + 1) depth (c :: cs) =
      (readNumber (c :: cs)).map fun r => (.number r.1, r.2) := by
  have hquote : c ≠ '\x22' := hc.ne rfl (by decide)
  have harray : c ≠ '[' := hc.ne rfl (by decide)
  have hobject : c ≠ '\x7b' := hc.ne rfl (by decide)
  have htrue : c ≠ 't' := hc.ne rfl (by decide)
  have hfalse : c ≠ 'f' := hc.ne rfl (by decide)
  have hnull : c ≠ 'n' := hc.ne rfl (by decide)
  rw [readValue.eq_2, skipGaps_of_not_isGap hc.isGap]
  simp only [if_neg hquote, if_neg harray, if_neg hobject, if_neg htrue, if_neg hfalse,
    if_neg hnull]

/-- **Whole numbers are read as they are written** if they fit a word. -/
theorem reads_whole {n : Int} (hfits : Number.fitsWord n = true) :
    Reads depth (.number (.whole n)) := by
  intro fuel rest hfuel hrest
  obtain ⟨fuel, rfl⟩ := Nat.exists_eq_succ_of_ne_zero (Nat.ne_of_gt (Nat.zero_lt_of_lt hfuel))
  have hread := readNumber_whole hfits hrest
  obtain ⟨c, cs, htext, hc⟩ := toList_toString n
  show readValue (fuel + 1) depth ((toString n).toList ++ rest) = _
  rw [htext, List.cons_append] at hread ⊢
  rw [readValue_number hc, hread]
  rfl

/-- The text of a value begins neither with a blank nor with the end of an array. -/
theorem Plain.toList_compact {j : Json} (h : Plain depth j) :
    ∃ c cs, j.compact.toList = c :: cs ∧ isGap c = false ∧ c ≠ ']' := by
  cases h with
  | null => exact ⟨'n', _, rfl, by decide, by decide⟩
  | bool b => cases b <;> exact ⟨_, _, rfl, by decide, by decide⟩
  | @whole _ n _ =>
    obtain ⟨c, cs, htext, hc⟩ := toList_toString n
    exact ⟨c, cs, htext, hc.isGap, hc.ne rfl (by decide)⟩
  | string s => exact ⟨'\x22', _, toList_quote s, by decide, by decide⟩
  | array =>
    rw [compact, String.toList_append, String.toList_append]
    exact ⟨'[', _, rfl, by decide, by decide⟩
  | object =>
    rw [compact, String.toList_append, String.toList_append]
    exact ⟨'\x7b', _, rfl, by decide, by decide⟩

/-- Whatever may stand behind an element ends a number. -/
theorem endsNumber_cons (hc : c = ',' ∨ c = ']' ∨ c = '\x7d') (cs : List Char) :
    EndsNumber (c :: cs) := by
  intro d hd
  obtain rfl := Option.some.inj hd
  rcases hc with rfl | rfl | rfl <;> decide

/-- A comma stands between the first of the texts and the others. -/
theorem toList_intercalate_cons (t u : String) (ts : List String) :
    (",".intercalate (t :: u :: ts)).toList =
      t.toList ++ ',' :: (",".intercalate (u :: ts)).toList := by
  rw [String.intercalate_cons_cons, String.toList_append, String.toList_append, List.append_assoc]
  rfl

/-- The comma takes one character. -/
theorem length_intercalate_cons (t u : String) (ts : List String) :
    (",".intercalate (t :: u :: ts)).length =
      t.length + 1 + (",".intercalate (u :: ts)).length := by
  rw [String.intercalate_cons_cons, String.length_append, String.length_append]
  rfl

/-- The elements of an array are read one after the other. -/
theorem readElements_compactAll {xs : List Json} (hne : xs ≠ [])
    (hreads : ∀ x ∈ xs, Reads depth x) (done : List Json) (rest : List Char)
    (hfuel : (",".intercalate (compactAll xs)).length + 1 < fuel) :
    readElements fuel depth done ((",".intercalate (compactAll xs)).toList ++ ']' :: rest) =
      some (done.reverse ++ xs, rest) := by
  induction xs generalizing fuel done with
  | nil => exact absurd rfl hne
  | cons x xs ih =>
    obtain ⟨fuel, rfl⟩ := Nat.exists_eq_succ_of_ne_zero (Nat.ne_of_gt (Nat.zero_lt_of_lt hfuel))
    have hx := hreads x List.mem_cons_self
    cases xs with
    | nil =>
      simp only [compactAll, String.intercalate_singleton] at hfuel ⊢
      rw [readElements.eq_2, hx fuel _ (by omega) (endsNumber_cons (.inr (.inl rfl)) _)]
      show some ((x :: done).reverse, rest) = _
      rw [List.reverse_cons]
    | cons y ys =>
      rw [compactAll, compactAll, length_intercalate_cons, ← compactAll] at hfuel
      rw [compactAll, compactAll, toList_intercalate_cons, ← compactAll, List.append_assoc,
        readElements.eq_2, List.cons_append, hx fuel _ (by omega) (endsNumber_cons (.inl rfl) _)]
      show readElements fuel depth (x :: done) _ = _
      rw [ih (List.cons_ne_nil _ _) (fun z hz => hreads z (List.mem_cons_of_mem _ hz)) _ (by omega),
        List.reverse_cons, List.append_assoc, List.singleton_append]

/-- A member is its quoted name, a colon and its value. -/
theorem toList_member (name : String) (v : Json) (rest : List Char) :
    (quote name ++ ":" ++ v.compact).toList ++ rest =
      '\x22' :: (name.toList.flatMap escape ++ '\x22' :: ':' :: (v.compact.toList ++ rest)) := by
  rw [String.toList_append, String.toList_append, toList_quote]
  simp

/-- A member with a comma after it is read, and then the members after the comma. -/
theorem readMembers_next {v : Json} (hv : Reads depth v) (name : String)
    (done : List (String × Json)) (rest : List Char) (hfuel : v.compact.length < fuel) :
    readMembers (fuel + 1) depth done ((quote name ++ ":" ++ v.compact).toList ++ ',' :: rest) =
      readMembers fuel depth ((name, v) :: done) rest := by
  rw [toList_member, readMembers.eq_2, skipGaps_of_not_isGap (by decide)]
  simp only [readChars_quote, skipGaps_of_not_isGap (c := ':') (by decide),
    hv fuel _ hfuel (endsNumber_cons (.inl rfl) rest), skipGaps_of_not_isGap (c := ',') (by decide)]

/-- The member that the brace stands after is the last one. -/
theorem readMembers_last {v : Json} (hv : Reads depth v) (name : String)
    (done : List (String × Json)) (rest : List Char) (hfuel : v.compact.length < fuel) :
    readMembers (fuel + 1) depth done ((quote name ++ ":" ++ v.compact).toList ++ '\x7d' :: rest) =
      some (((name, v) :: done).reverse, rest) := by
  rw [toList_member, readMembers.eq_2, skipGaps_of_not_isGap (by decide)]
  simp only [readChars_quote, skipGaps_of_not_isGap (c := ':') (by decide),
    hv fuel _ hfuel (endsNumber_cons (.inr (.inr rfl)) rest),
    skipGaps_of_not_isGap (c := '\x7d') (by decide)]

/-- The members of an object are read one after the other. -/
theorem readMembers_compactMembers {ms : List (String × Json)} (hne : ms ≠ [])
    (hreads : ∀ m ∈ ms, Reads depth m.2) (done : List (String × Json)) (rest : List Char)
    (hfuel : (",".intercalate (compactMembers ms)).length + 1 < fuel) :
    readMembers fuel depth done ((",".intercalate (compactMembers ms)).toList ++ '\x7d' :: rest) =
      some (done.reverse ++ ms, rest) := by
  induction ms generalizing fuel done with
  | nil => exact absurd rfl hne
  | cons m ms ih =>
    obtain ⟨name, v⟩ := m
    obtain ⟨fuel, rfl⟩ := Nat.exists_eq_succ_of_ne_zero (Nat.ne_of_gt (Nat.zero_lt_of_lt hfuel))
    have hv : Reads depth v := hreads (name, v) List.mem_cons_self
    have hlength : v.compact.length ≤ (quote name ++ ":" ++ v.compact).length := by
      rw [String.length_append]
      exact Nat.le_add_left _ _
    cases ms with
    | nil =>
      simp only [compactMembers, String.intercalate_singleton] at hfuel ⊢
      rw [readMembers_last hv name done rest (by omega), List.reverse_cons]
    | cons n ms =>
      obtain ⟨other, w⟩ := n
      rw [compactMembers, compactMembers, length_intercalate_cons, ← compactMembers] at hfuel
      rw [compactMembers, compactMembers, toList_intercalate_cons, ← compactMembers,
        List.append_assoc, List.cons_append, readMembers_next hv name done _ (by omega),
        ih (List.cons_ne_nil _ _) (fun z hz => hreads z (List.mem_cons_of_mem _ hz)) _ (by omega),
        List.reverse_cons, List.append_assoc, List.singleton_append]

/-- A bracket is followed by elements, unless it is closed at once. -/
theorem readValue_array (hgap : isGap c = false) (hend : c ≠ ']') (cs : List Char) :
    readValue (fuel + 1) (depth + 1) ('[' :: c :: cs) =
      (readElements fuel depth [] (c :: cs)).map fun r => (.array r.1, r.2) := by
  rw [readValue.eq_2, skipGaps_of_not_isGap (by decide)]
  dsimp only
  rw [if_neg (by decide), if_pos rfl, if_neg (Nat.succ_ne_zero depth),
    skipGaps_of_not_isGap hgap]
  split
  · rename_i heq
    exact absurd (List.cons.inj heq).1 hend
  · rfl

/-- A brace with a quote behind it is followed by members. -/
theorem readValue_object (cs : List Char) :
    readValue (fuel + 1) (depth + 1) ('\x7b' :: '\x22' :: cs) =
      (readMembers fuel depth [] ('\x22' :: cs)).map fun r => (.object r.1, r.2) := rfl

/-- The text of a list begins as its first one does. -/
theorem intercalate_head {t : String} {c : Char} (h : t.toList.head? = some c)
    (ts : List String) (rest : List Char) :
    ∃ cs, (",".intercalate (t :: ts)).toList ++ rest = c :: cs := by
  have hcons : ∃ cs, t.toList = c :: cs := by
    cases htext : t.toList with
    | nil => rw [htext] at h; cases h
    | cons d cs => rw [htext] at h; exact ⟨cs, by rw [Option.some.inj h]⟩
  obtain ⟨cs, hcs⟩ := hcons
  cases ts with
  | nil => exact ⟨cs ++ rest, by rw [String.intercalate_singleton, hcs, List.cons_append]⟩
  | cons u ts =>
    exact ⟨_, by rw [toList_intercalate_cons, hcs, List.append_assoc, List.cons_append]⟩

/-- **An array is read** if its elements are. -/
theorem reads_array {xs : List Json} (hplain : ∀ x ∈ xs, Plain depth x)
    (hreads : ∀ x ∈ xs, Reads depth x) : Reads (depth + 1) (.array xs) := by
  intro fuel rest hfuel _
  obtain ⟨fuel, rfl⟩ := Nat.exists_eq_succ_of_ne_zero (Nat.ne_of_gt (Nat.zero_lt_of_lt hfuel))
  have htext : (compact (.array xs)).toList ++ rest =
      '[' :: ((",".intercalate (compactAll xs)).toList ++ ']' :: rest) := by
    simp [compact]
  have hlength : (compact (.array xs)).length = (",".intercalate (compactAll xs)).length + 2 := by
    rw [compact, String.length_append, String.length_append]
    show 1 + _ + 1 = _
    omega
  rw [htext]
  rw [hlength] at hfuel
  cases xs with
  | nil => rfl
  | cons x xs =>
    have hread := readElements_compactAll (List.cons_ne_nil x xs) hreads [] rest
      (Nat.lt_of_succ_lt_succ hfuel)
    -- the text goes on with the first element, not with the end of the array
    obtain ⟨c, cs, hfirst, hgap, hend⟩ := (hplain x List.mem_cons_self).toList_compact
    have hhead : x.compact.toList.head? = some c := by
      rw [hfirst]
      rfl
    obtain ⟨cs, hcs⟩ := intercalate_head hhead (compactAll xs) (']' :: rest)
    rw [compactAll, hcs] at hread ⊢
    rw [readValue_array hgap hend, hread]
    rfl

/-- **An object is read** if the values of its members are. -/
theorem reads_object {ms : List (String × Json)} (hreads : ∀ m ∈ ms, Reads depth m.2) :
    Reads (depth + 1) (.object ms) := by
  intro fuel rest hfuel _
  obtain ⟨fuel, rfl⟩ := Nat.exists_eq_succ_of_ne_zero (Nat.ne_of_gt (Nat.zero_lt_of_lt hfuel))
  have htext : (compact (.object ms)).toList ++ rest =
      '\x7b' :: ((",".intercalate (compactMembers ms)).toList ++ '\x7d' :: rest) := by
    simp [compact]
  have hlength : (compact (.object ms)).length =
      (",".intercalate (compactMembers ms)).length + 2 := by
    rw [compact, String.length_append, String.length_append]
    show 1 + _ + 1 = _
    omega
  rw [htext]
  rw [hlength] at hfuel
  cases ms with
  | nil => rfl
  | cons m ms =>
    obtain ⟨name, v⟩ := m
    have hread := readMembers_compactMembers (List.cons_ne_nil (name, v) ms) hreads [] rest
      (Nat.lt_of_succ_lt_succ hfuel)
    have hquote : (quote name ++ ":" ++ v.compact).toList.head? = some '\x22' := by
      rw [String.toList_append, String.toList_append, toList_quote]
      rfl
    obtain ⟨cs, hcs⟩ := intercalate_head hquote (compactMembers ms) ('\x7d' :: rest)
    rw [compactMembers, hcs] at hread ⊢
    rw [readValue_object, hread]
    rfl

/-- A plain value is read as it was written, whatever stands after it. -/
theorem Plain.reads {j : Json} (h : Plain depth j) : Reads depth j := by
  induction h with
  | null => exact reads_null
  | bool b => exact reads_bool b
  | whole hfits => exact reads_whole hfits
  | string s => exact reads_string s
  | array helements ih => exact reads_array helements ih
  | object _ ih => exact reads_object ih

/-- A text that is read whatever stands after it is read on its own. -/
theorem read?_of_reads {j : Json} (h : Reads 127 j) : read? j.compact = some j := by
  have hfuel : j.compact.length < j.compact.toList.length + 1 := by
    rw [String.length_toList]
    exact Nat.lt_succ_self _
  have hread := h _ [] hfuel (by rintro c hc; cases hc)
  rw [List.append_nil] at hread
  unfold read?
  simp only [hread]
  rfl

/-- **The text of a plain value is read as this value.** -/
theorem read?_compact {j : Json} (h : Plain 127 j) : read? j.compact = some j :=
  read?_of_reads h.reads

end ContentStore.Json
