import ContentStore.Proofs.Values.Calendar
import ContentStore.Time.Rfc3339
import Mathlib.Data.List.Induction
import Mathlib.Data.List.TakeWhile

/-!
# Instants are read as they are written

Each piece of a written instant is read by its reader, whatever follows
(`digits?_of_spells`, `fraction?_writeFraction`), so that the strict reader gives
back what was written if the year has four digits (`read?_writeOffset`).  A longer
year is written with a sign.  The strict reader takes no sign, and the reader of
days takes one but no time after the day (`not_read_of_long`).

What was read is not just any instant: its leap seconds end a minute
(`Instant.Regular`).
-/

namespace ContentStore.Time

namespace Rfc3339

variable {cs ds rest : List Char} {low high width n : Nat}

/-! ## Digits -/

/-- So many decimal digits that stand for a number. -/
structure Spells (ds : List Char) (width n : Nat) : Prop where
  digits : ∀ c ∈ ds, c.isDigit = true
  length : ds.length = width
  value : Nat.ofDigitChars 10 ds 0 = n

/-- The readers take digits as decimal digits, the first one first. -/
theorem foldl_digits (ds : List Char) (n : Nat) :
    ds.foldl (fun n c => n * 10 + (c.toNat - 48)) n = Nat.ofDigitChars 10 ds n := by
  induction ds generalizing n with
  | nil => rfl
  | cons c ds ih =>
    rw [List.foldl_cons, ih, Nat.ofDigitChars_cons, Nat.mul_comm]
    rfl

/-- A number of so many digits is below that power of ten. -/
theorem Spells.lt (h : Spells ds width n) : n < 10 ^ width := by
  obtain ⟨hdigits, rfl, rfl⟩ := h
  induction ds using List.reverseRecOn with
  | nil => decide
  | append_singleton ds c ih =>
    have hlt := ih fun d hd => hdigits d (List.mem_append_left _ hd)
    have hc := Char.isDigit_iff_toNat.mp
      (hdigits c (List.mem_append_right _ (List.mem_singleton_self c)))
    have hnine : '9'.toNat = '0'.toNat + 9 := rfl
    rw [Nat.ofDigitChars_append, List.length_append, List.length_singleton, Nat.pow_succ]
    rw [Nat.ofDigitChars_cons, Nat.ofDigitChars_nil]
    omega

/-- A number written with leading zeros. -/
theorem spells_padded (width n : Nat) :
    Spells (padded width n).toList (max width (Nat.toDigits 10 n).length) n := by
  unfold padded
  dsimp only
  rw [String.toList_ofList]
  constructor
  case digits =>
    intro c hc
    rcases List.mem_append.mp hc with hc | hc
    · rw [(List.mem_replicate.mp hc).2]
      rfl
    · exact Nat.isDigit_of_mem_toDigits (by decide) (by decide) hc
  case length =>
    rw [List.length_append, List.length_replicate]
    omega
  case value =>
    have hzeros : ∀ k, Nat.ofDigitChars 10 (List.replicate k '0') 0 = 0 := by
      intro k
      induction k with
      | zero => rfl
      | succ k ih => exact ih
    rw [Nat.ofDigitChars_append, hzeros, Nat.ofDigitChars_toDigits (by decide) (by decide)]

/-- A number that is not too long is written with just so many digits. -/
theorem spells_padded_of_lt (hwidth : 0 < width) (h : n < 10 ^ width) :
    Spells (padded width n).toList width n := by
  have hlength := (Nat.length_toDigits_le_iff (b := 10) (by decide) hwidth).mpr h
  have hspells := spells_padded width n
  rwa [Nat.max_eq_left hlength] at hspells

/-- Digits are read up to what is no digit, and no more of them than may be read. -/
theorem digits?_of_spells (h : Spells ds width n) (hlow : low ≤ width) (hhigh : width ≤ high)
    (hend : width = high ∨ ∀ c ∈ cs.head?, c.isDigit = false) :
    digits? low high (ds ++ cs) = some (n, cs) := by
  obtain ⟨hdigits, rfl, rfl⟩ := h
  have htake : ((ds ++ cs).take high).takeWhile Char.isDigit = ds := by
    rw [List.take_append, List.take_of_length_le hhigh, List.takeWhile_append_of_pos hdigits]
    have hnone : (cs.take (high - ds.length)).takeWhile Char.isDigit = [] := by
      rcases hend with hend | hend
      · rw [hend, Nat.sub_self]
        rfl
      · cases cs with
        | nil => simp
        | cons c cs =>
          have hc : c.isDigit = false := hend c rfl
          cases high - ds.length <;> simp [hc]
    rw [hnone, List.append_nil]
  unfold digits?
  dsimp only
  rw [htake, if_neg (by omega), foldl_digits, List.drop_left]

/-- Two digits are read as the number that they were written for. -/
theorem twoDigits?_padded (h : n < 100) (cs : List Char) :
    digits? 2 2 ((padded 2 n).toList ++ cs) = some (n, cs) :=
  digits?_of_spells (spells_padded_of_lt (by decide) h) (by decide) (by decide) (.inl rfl)

/-- What is read are digits. -/
theorem spells_of_digits? (h : digits? low high cs = some (n, rest)) :
    ∃ ds, cs = ds ++ rest ∧ Spells ds ds.length n ∧ low ≤ ds.length ∧ ds.length ≤ high := by
  unfold digits? at h
  dsimp only at h
  split at h
  · cases h
  · rename_i hlong
    rw [foldl_digits] at h
    obtain ⟨hn, hrest⟩ := Prod.mk.inj (Option.some.inj h)
    have hprefix : ((cs.take high).takeWhile Char.isDigit) <+: cs :=
      (List.takeWhile_prefix _).trans (List.take_prefix _ _)
    refine ⟨(cs.take high).takeWhile Char.isDigit, ?_, ⟨fun c => ?_, rfl, hn⟩, by omega, ?_⟩
    · rw [← hrest]
      exact (List.prefix_iff_eq_append.mp hprefix).symm
    · exact fun hc => List.mem_takeWhile_imp hc
    · exact Nat.le_trans (List.takeWhile_prefix _).length_le (List.length_take_le _ _)

/-! ## Decimal places -/

/-- Decimal places are read as they are written. -/
theorem places?_of_spells {k nanos : Nat} (h : Spells ds k n) (hone : 1 ≤ k) (hnine : k ≤ 9)
    (hend : ∀ c ∈ cs.head?, c.isDigit = false) (hnanos : n * 10 ^ (9 - k) = nanos) :
    fraction? ('.' :: (ds ++ cs)) = some (nanos, cs) := by
  have hrest : cs.dropWhile Char.isDigit = cs := by
    cases cs with
    | nil => rfl
    | cons c cs => rw [List.dropWhile_cons, hend c rfl, if_neg (by decide)]
  have hcount : (ds ++ cs).length - cs.length = k := by
    rw [List.length_append, Nat.add_sub_cancel, h.length]
  show places? (ds ++ cs) = _
  unfold places?
  rw [digits?_of_spells h hone hnine (.inr hend)]
  show some (n * Nat.pow 10 (9 - ((ds ++ cs).length - cs.length)), cs.dropWhile Char.isDigit) = _
  rw [hcount, hrest, ← hnanos]
  rfl

/-- A fraction of a second is read as it was written, whether of three, six or nine places
or left out. -/
theorem fraction?_writeFraction {nanos : Nat} (h : nanos < Instant.second)
    (hend : ∀ c ∈ cs.head?, c.isDigit = false ∧ c ≠ '.') :
    fraction? ((writeFraction nanos).toList ++ cs) = some (nanos, cs) := by
  have hsecond : Instant.second = 1000000000 := rfl
  have hplaces : ∀ k n, 1 ≤ k → k ≤ 9 → n < 10 ^ k → n * 10 ^ (9 - k) = nanos →
      fraction? (("." ++ padded k n).toList ++ cs) = some (nanos, cs) := by
    intro k n hone hnine hn hnanos
    rw [String.toList_append, List.append_assoc]
    exact places?_of_spells (spells_padded_of_lt hone hn) hone hnine (fun c hc => (hend c hc).1)
      hnanos
  unfold writeFraction
  split
  · rename_i hzero
    subst hzero
    cases cs with
    | nil => rfl
    | cons c cs =>
      have hc : c ≠ '.' := (hend c rfl).2
      show fraction? (c :: cs) = _
      unfold fraction?
      split
      · rename_i heq
        exact (hc (List.cons.inj heq).1).elim
      · rfl
  · split
    · exact hplaces 3 _ (by decide) (by decide) (by omega) (by omega)
    · split
      · exact hplaces 6 _ (by decide) (by decide) (by omega) (by omega)
      · exact hplaces 9 _ (by decide) (by decide) (by omega) (by omega)

/-- Decimal places are less than a second. -/
theorem fraction?_lt {nanos : Nat} (h : fraction? cs = some (nanos, rest)) :
    nanos < Instant.second := by
  unfold fraction? at h
  split at h
  · rename_i cs
    unfold places? at h
    obtain ⟨⟨n, rest'⟩, hdigits, h⟩ := Option.bind_eq_some_iff.mp h
    obtain ⟨ds, rfl, hspells, hone, hnine⟩ := spells_of_digits? hdigits
    have hnanos := (Prod.mk.inj (Option.some.inj h)).1
    have hcount : (ds ++ rest').length - rest'.length = ds.length := by
      rw [List.length_append, Nat.add_sub_cancel]
    have hten : 10 ^ ds.length * 10 ^ (9 - ds.length) = Instant.second := by
      rw [← Nat.pow_add, Nat.add_sub_cancel' hnine]
      rfl
    rw [← hnanos, hcount, ← hten]
    exact Nat.mul_lt_mul_of_pos_right hspells.lt (Nat.pow_pos (by decide))
  · cases h
    decide

/-! ## Offsets -/

/-- An offset is a number of minutes. -/
theorem offset?_minutes {separator : List Char → Option (List Char)} {offset : Int}
    (h : offset? separator cs = some (offset, rest)) : offset % 60 = 0 := by
  unfold offset? at h
  split at h
  · cases h
  · split at h
    · cases h
      rfl
    · split at h
      · obtain ⟨⟨hours, cs⟩, -, h⟩ := Option.bind_eq_some_iff.mp h
        obtain ⟨cs, -, h⟩ := Option.bind_eq_some_iff.mp h
        obtain ⟨⟨minutes, cs⟩, -, h⟩ := Option.bind_eq_some_iff.mp h
        dsimp only at h
        split at h
        · cases h
        · cases h
          split <;> omega
      · cases h

end Rfc3339

/-! ## Instants that are read -/

/-- An instant as it is read: in range, and with no leap second but at the end of a
minute.

Left out are leap seconds at any other second.  An instant has room for them, and they
arise when the nanoseconds or the second of an instant are set by themselves; but no reader
makes one, and no clock shows one.  Such an instant is written with its leap second in the
second after, where it is not read as one. -/
structure Instant.Regular (t : Instant) : Prop where
  range : t.inRange = true
  nanos : t.nanos < 2 * Instant.second
  leap : Instant.second ≤ t.nanos → t.seconds % 60 = 59

namespace Instant

/-- The second of the minute as it is written: 60 for a leap second. -/
def writtenSecond (t : Instant) : Nat := t.secondOfDay % 60 + if second ≤ t.nanos then 1 else 0

/-- The nanoseconds that are written after it. -/
def writtenNanos (t : Instant) : Nat := if second ≤ t.nanos then t.nanos - second else t.nanos

variable {t : Instant}

/-- A day has so many seconds. -/
theorem secondOfDay_lt (t : Instant) : t.secondOfDay < 86400 := by
  unfold secondOfDay
  omega

/-- Second 60 is written for a leap second, and for nothing else. -/
theorem Regular.written (ht : t.Regular) :
    (t.writtenSecond = 60 ∧ t.secondOfDay % 60 = 59 ∧ t.writtenNanos + second = t.nanos) ∨
      (t.writtenSecond = t.secondOfDay % 60 ∧ t.writtenNanos = t.nanos ∧ t.nanos < second) := by
  have hminute : t.seconds % 60 = t.secondOfDay % 60 := by
    unfold secondOfDay
    omega
  unfold writtenSecond writtenNanos
  rcases Nat.lt_or_ge t.nanos second with hplain | hleap
  · have hnot : ¬ second ≤ t.nanos := Nat.not_le.mpr hplain
    rw [if_neg hnot, if_neg hnot]
    exact .inr ⟨Nat.add_zero _, rfl, hplain⟩
  · have hlast := ht.leap hleap
    rw [if_pos hleap, if_pos hleap]
    exact .inl ⟨by omega, by omega, Nat.sub_add_cancel hleap⟩

/-- No second beyond 60 is written. -/
theorem Regular.writtenSecond_le (ht : t.Regular) : t.writtenSecond ≤ 60 := by
  rcases ht.written with ⟨hsecond, -, -⟩ | ⟨hsecond, -, -⟩ <;> omega

/-- The fraction written stays below one second. -/
theorem Regular.writtenNanos_lt (ht : t.Regular) : t.writtenNanos < second := by
  have hnanos := ht.nanos
  rcases ht.written with ⟨-, -, hwritten⟩ | ⟨-, hwritten, hplain⟩ <;> omega

end Instant

namespace Rfc3339

/-- An instant made from a date and a time is regular. -/
theorem regular_of_instant? {date : Date} {hour minute sec nanos : Nat} {offset : Int} {t : Instant}
    (h : instant? date hour minute sec nanos offset = some t) (hnanos : nanos < Instant.second)
    (hoffset : offset % 60 = 0) : t.Regular := by
  unfold instant? at h
  dsimp only at h
  obtain ⟨hparts, h⟩ := Option.ite_none_right_eq_some.mp h
  obtain ⟨hrange, h⟩ := Option.ite_none_right_eq_some.mp h
  obtain rfl := Option.some.inj h
  refine ⟨hrange.2, ?_, ?_⟩
  · dsimp only
    split <;> omega
  · intro hleap
    dsimp only at hleap ⊢
    split at hleap
    · rename_i hsixty
      rw [if_pos hsixty]
      omega
    · omega

/-- **What the strict reader reads is regular.** -/
theorem regular_of_read? {text : String} {t : Instant} (h : read? text = some t) : t.Regular := by
  unfold read? at h
  obtain ⟨year, -, h⟩ := Option.bind_eq_some_iff.mp h
  obtain ⟨cs, -, h⟩ := Option.bind_eq_some_iff.mp h
  obtain ⟨month, -, h⟩ := Option.bind_eq_some_iff.mp h
  obtain ⟨cs, -, h⟩ := Option.bind_eq_some_iff.mp h
  obtain ⟨day, -, h⟩ := Option.bind_eq_some_iff.mp h
  obtain ⟨cs, -, h⟩ := Option.bind_eq_some_iff.mp h
  obtain ⟨hour, -, h⟩ := Option.bind_eq_some_iff.mp h
  obtain ⟨cs, -, h⟩ := Option.bind_eq_some_iff.mp h
  obtain ⟨minute, -, h⟩ := Option.bind_eq_some_iff.mp h
  obtain ⟨cs, -, h⟩ := Option.bind_eq_some_iff.mp h
  obtain ⟨sec, -, h⟩ := Option.bind_eq_some_iff.mp h
  obtain ⟨nanos, hnanos, h⟩ := Option.bind_eq_some_iff.mp h
  obtain ⟨offset, hoffset, h⟩ := Option.bind_eq_some_iff.mp h
  dsimp only at h
  split at h
  · exact regular_of_instant? h (fraction?_lt hnanos) (offset?_minutes hoffset)
  · cases h

/-- So is what the reader of days reads. -/
theorem regular_of_readDay? {text : String} {t : Instant} (h : readDay? text = some t) :
    t.Regular := by
  unfold readDay? at h
  obtain ⟨date, -, h⟩ := Option.bind_eq_some_iff.mp h
  dsimp only at h
  split at h
  · exact regular_of_instant? h (by decide) rfl
  · cases h

/-! ## Instants that are written -/

variable {t : Instant}

/-- A written instant, piece by piece. -/
theorem toList_writeWith (offset : String) (t : Instant) : (writeWith offset t).toList =
    (writeYear (Date.ofDays t.day).year).toList ++ '-' ::
      ((padded 2 (Date.ofDays t.day).month).toList ++ '-' ::
        ((padded 2 (Date.ofDays t.day).day).toList ++ 'T' ::
          ((padded 2 (t.secondOfDay / 3600)).toList ++ ':' ::
            ((padded 2 (t.secondOfDay / 60 % 60)).toList ++ ':' ::
              ((padded 2 t.writtenSecond).toList ++
                ((writeFraction t.writtenNanos).toList ++ offset.toList)))))) := by
  simp [writeWith, Instant.writtenSecond, Instant.writtenNanos]

/-- What is written of an instant stands for this instant. -/
theorem instant?_of_regular (ht : t.Regular) :
    instant? (Date.ofDays t.day) (t.secondOfDay / 3600) (t.secondOfDay / 60 % 60) t.writtenSecond
      t.writtenNanos 0 = some t := by
  have hday : (Instant.mk (t.day * 86400) 0).day = t.day := Int.mul_ediv_cancel _ (by decide)
  have hlocal : (Instant.mk (t.day * 86400) 0).inRange = true := by
    have hsame := ht.range
    unfold Instant.inRange at hsame ⊢
    rwa [hday]
  have hseconds : t.day * 86400 + t.secondOfDay = t.seconds := by
    unfold Instant.day Instant.secondOfDay
    omega
  have hclock := t.secondOfDay_lt
  have hparts : t.secondOfDay =
      t.secondOfDay / 3600 * 3600 + t.secondOfDay / 60 % 60 * 60 + t.secondOfDay % 60 := by omega
  have hat : (⟨t.day * 86400 + ((t.secondOfDay / 3600 * 3600 + t.secondOfDay / 60 % 60 * 60 +
      if t.writtenSecond = 60 then 59 else t.writtenSecond : Nat) : Int) - 0,
      if t.writtenSecond = 60 then t.writtenNanos + Instant.second else t.writtenNanos⟩ : Instant) =
        t := by
    show _ = (⟨t.seconds, t.nanos⟩ : Instant)
    rcases ht.written with ⟨hsecond, hlast, hnanos⟩ | ⟨hsecond, hnanos, -⟩
    · rw [if_pos hsecond, if_pos hsecond, hnanos, ← hlast, ← hparts, hseconds, Int.sub_zero]
    · have hnot : t.secondOfDay % 60 ≠ 60 := by omega
      rw [hsecond, if_neg hnot, if_neg hnot, hnanos, ← hparts, hseconds, Int.sub_zero]
  unfold instant?
  dsimp only
  rw [Date.toDays_ofDays, hat]
  refine Option.ite_none_right_eq_some.mpr ⟨⟨Date.isValid_ofDays _, ?_⟩, ?_⟩
  · exact ⟨by omega, by omega, ht.writtenSecond_le, by decide, by decide⟩
  · exact if_pos ⟨hlocal, ht.range⟩

/-- A character that is asked for is taken. -/
theorem char?_cons (c : Char) (cs : List Char) : char? c (c :: cs) = some cs := if_pos rfl

/-- The letter between date and time is taken. -/
theorem middle?_cons (cs : List Char) : middle? ('T' :: cs) = some cs := rfl

/-- **An instant of a year with four digits is read as it was written.** -/
theorem read?_writeOffset (ht : t.Regular) (hfirst : 0 ≤ (Date.ofDays t.day).year)
    (hlast : (Date.ofDays t.day).year ≤ 9999) : read? (writeOffset t) = some t := by
  have hinstant := instant?_of_regular ht
  have hvalid := Date.isValid_ofDays t.day
  have hclock := t.secondOfDay_lt
  have hsecond := ht.writtenSecond_le
  unfold read? writeOffset
  rw [toList_writeWith]
  generalize Date.ofDays t.day = date at hfirst hlast hinstant hvalid ⊢
  obtain ⟨hmonth, hday⟩ := date.le_of_isValid hvalid
  have hyear : ∀ cs,
      digits? 4 4 ((writeYear date.year).toList ++ cs) = some (date.year.toNat, cs) := by
    intro cs
    rw [writeYear, if_pos ⟨hfirst, hlast⟩]
    exact digits?_of_spells (spells_padded_of_lt (by decide) (by omega)) (Nat.le_refl 4)
      (Nat.le_refl 4) (.inl rfl)
  have hoffset : offset? (char? ':') "+00:00".toList = some (0, []) := by decide
  have hend : ∀ c ∈ "+00:00".toList.head?, c.isDigit = false ∧ c ≠ '.' := by
    intro c hc
    cases hc
    decide
  -- piece by piece, each reader leaves what the next one reads
  refine Option.bind_eq_some_iff.mpr ⟨_, hyear _, ?_⟩
  refine Option.bind_eq_some_iff.mpr ⟨_, char?_cons _ _, ?_⟩
  refine Option.bind_eq_some_iff.mpr ⟨_, twoDigits?_padded (by omega) _, ?_⟩
  refine Option.bind_eq_some_iff.mpr ⟨_, char?_cons _ _, ?_⟩
  refine Option.bind_eq_some_iff.mpr ⟨_, twoDigits?_padded (by omega) _, ?_⟩
  refine Option.bind_eq_some_iff.mpr ⟨_, middle?_cons _, ?_⟩
  refine Option.bind_eq_some_iff.mpr ⟨_, twoDigits?_padded (by omega) _, ?_⟩
  refine Option.bind_eq_some_iff.mpr ⟨_, char?_cons _ _, ?_⟩
  refine Option.bind_eq_some_iff.mpr ⟨_, twoDigits?_padded (by omega) _, ?_⟩
  refine Option.bind_eq_some_iff.mpr ⟨_, char?_cons _ _, ?_⟩
  refine Option.bind_eq_some_iff.mpr ⟨_, twoDigits?_padded (by omega) _, ?_⟩
  refine Option.bind_eq_some_iff.mpr ⟨_, fraction?_writeFraction ht.writtenNanos_lt hend, ?_⟩
  refine Option.bind_eq_some_iff.mpr ⟨_, hoffset, ?_⟩
  refine Option.ite_none_right_eq_some.mpr ⟨⟨rfl, by decide, by decide⟩, ?_⟩
  have hdate : (⟨(date.year.toNat : Int), date.month, date.day⟩ : Date) = date := by
    rw [Int.toNat_of_nonneg hfirst]
  rw [← hdate] at hinstant
  exact hinstant

/-! ## Years with a sign -/

/-- A digit is no blank. -/
theorem isBlank_of_isDigit {c : Char} (h : c.isDigit = true) : Text.isBlank c = false := by
  have hc := Char.isDigit_iff_toNat.mp h
  have hzero : '0'.toNat = 48 := rfl
  have hnine : '9'.toNat = 57 := rfl
  simp only [Text.isBlank, Bool.or_eq_false_iff, Bool.and_eq_false_iff, decide_eq_false_iff_not,
    beq_eq_false_iff_ne]
  omega

/-- Digits with no blanks before them. -/
theorem short?_padded (h : n < 100) (cs : List Char) :
    short? ((padded 2 n).toList ++ cs) = some (n, cs) := by
  have hspells : Spells (padded 2 n).toList 2 n := spells_padded_of_lt (by decide) h
  generalize (padded 2 n).toList = ds at hspells ⊢
  have hblank : Text.dropBlanks (ds ++ cs) = ds ++ cs := by
    match ds, hspells with
    | [], hspells => exact absurd hspells.length (by decide)
    | c :: ds, hspells =>
      refine Text.dropBlanks_eq_self fun d hd => ?_
      cases hd
      exact isBlank_of_isDigit (hspells.digits c List.mem_cons_self)
  rw [short?, hblank]
  exact digits?_of_spells hspells (by decide) (by decide) (.inl rfl)

/-- A year of more or fewer than four digits has a sign. -/
theorem writeYear_of_long {year : Int} (hlong : ¬ (0 ≤ year ∧ year ≤ 9999)) :
    ∃ sign : Char, (sign = '-' ∨ sign = '+') ∧
      (writeYear year).toList = sign :: (padded 4 year.natAbs).toList := by
  rw [writeYear, if_neg hlong, String.toList_append]
  split
  · exact ⟨'-', .inl rfl, rfl⟩
  · exact ⟨'+', .inr rfl, rfl⟩

/-- A sign is no digit. -/
theorem digits?_of_sign {c : Char} (hc : c.isDigit = false) (hlow : 0 < low) :
    digits? low high (c :: cs) = none := by
  have hnone : ((c :: cs).take high).takeWhile Char.isDigit = [] := by
    cases high with
    | zero => rfl
    | succ high => rw [List.take_succ_cons, List.takeWhile_cons, hc, if_neg (by decide)]
  unfold digits?
  dsimp only
  rw [hnone]
  exact if_pos hlow

/-- A year with a sign is read up to the hyphen after it. -/
theorem year?_of_sign {sign : Char} (hsign : sign = '-' ∨ sign = '+') (h : Spells ds width n)
    (hwidth : 0 < width) (cs : List Char) :
    ∃ y, year? (sign :: (ds ++ '-' :: cs)) = some (y, '-' :: cs) := by
  have hread : digits? 1 (ds ++ '-' :: cs).length (ds ++ '-' :: cs) = some (n, '-' :: cs) := by
    refine digits?_of_spells h hwidth ?_ (.inr fun c hc => ?_)
    · rw [List.length_append, h.length]
      omega
    · cases hc
      decide
  have hminus : ∀ cs, year? ('-' :: cs) =
      (digits? 1 cs.length cs).map fun r => (-(r.1 : Int), r.2) := fun _ => rfl
  have hplus : ∀ cs, year? ('+' :: cs) =
      (digits? 1 cs.length cs).map fun r => ((r.1 : Int), r.2) := fun _ => rfl
  rcases hsign with rfl | rfl
  · exact ⟨-n, by rw [hminus, hread]; rfl⟩
  · exact ⟨n, by rw [hplus, hread]; rfl⟩

/-- **An instant of another year is not read as a value.** -/
theorem not_read_of_long
    (hlong : ¬ (0 ≤ (Date.ofDays t.day).year ∧ (Date.ofDays t.day).year ≤ 9999)) :
    read? (writeOffset t) = none ∧ readDay? (writeOffset t) = none := by
  have hvalid := Date.isValid_ofDays t.day
  unfold writeOffset read? readDay?
  rw [toList_writeWith]
  generalize Date.ofDays t.day = date at hlong hvalid ⊢
  obtain ⟨hmonth, hday⟩ := date.le_of_isValid hvalid
  obtain ⟨sign, hsign, hyear⟩ := writeYear_of_long hlong
  rw [hyear, List.cons_append]
  constructor
  · have hdigit : sign.isDigit = false := by
      rcases hsign with rfl | rfl <;> decide
    rw [digits?_of_sign hdigit (by decide)]
    rfl
  · have hspells := spells_padded 4 date.year.natAbs
    -- what is left after the date begins with the letter before the time
    have hdate : ∀ cs, ∃ d, date? id (sign :: ((padded 4 date.year.natAbs).toList ++ '-' ::
        ((padded 2 date.month).toList ++ '-' :: ((padded 2 date.day).toList ++ 'T' :: cs)))) =
          some (d, 'T' :: cs) := by
      intro cs
      obtain ⟨y, hy⟩ := year?_of_sign hsign hspells (by omega) _
      refine ⟨⟨y, date.month, date.day⟩, ?_⟩
      refine Option.bind_eq_some_iff.mpr ⟨_, hy, ?_⟩
      refine Option.bind_eq_some_iff.mpr ⟨_, char?_cons _ _, ?_⟩
      refine Option.bind_eq_some_iff.mpr ⟨_, short?_padded (by omega) _, ?_⟩
      refine Option.bind_eq_some_iff.mpr ⟨_, char?_cons _ _, ?_⟩
      exact Option.bind_eq_some_iff.mpr ⟨_, short?_padded (by omega) _, rfl⟩
    obtain ⟨d, hdate⟩ := hdate _
    rw [hdate]
    rfl

end Rfc3339

end ContentStore.Time
