import ContentStore.Ident.Version
import Mathlib.Algebra.Group.Nat.Defs

/-!
# Version ids are read as they are written

The written form has five groups of the 32 digits of the number.  Without the
hyphens they are the digits again (`groups_append`), zeros in front of the
digits count for nothing (`hex?_toDigits`), and so the number is read back
(`read?_toText`).
-/

namespace ContentStore.VersionId

theorem hexValue?_digitChar : ∀ n < 16, Json.hexValue? n.digitChar = some n := by decide

theorem hex?_append_digit {cs : List Char} {n d : Nat} (h : hex? cs = some n) (hd : d < 16) :
    hex? (cs ++ [d.digitChar]) = some (16 * n + d) := by
  unfold hex? at h ⊢
  rw [List.foldl_append, h]
  show (Json.hexValue? d.digitChar).map (16 * n + ·) = _
  rw [hexValue?_digitChar d hd]
  rfl

theorem hex?_zeros (k : Nat) : hex? (List.replicate k '0') = some 0 := by
  induction k with
  | zero => rfl
  | succ k ih =>
    rw [List.replicate_succ']
    exact hex?_append_digit (d := 0) ih (by decide)

/-- Digits with zeros in front of them stand for their number. -/
theorem hex?_toDigits (k n : Nat) : hex? (List.replicate k '0' ++ Nat.toDigits 16 n) = some n := by
  induction n using Nat.strongRecOn with
  | ind n ih =>
    rcases Nat.lt_or_ge n 16 with hlt | hge
    · rw [Nat.toDigits_of_lt_base hlt, hex?_append_digit (hex?_zeros k) hlt, Nat.mul_zero,
        Nat.zero_add]
    · rw [Nat.toDigits_of_base_le (by decide) hge, ← List.append_assoc,
        hex?_append_digit (ih (n / 16) (by omega)) (by omega), Nat.div_add_mod]

/-- The number fits 128 bits. -/
def Fits (v : VersionId) : Prop := v.number < 2 ^ 128

instance (v : VersionId) : Decidable v.Fits := inferInstanceAs (Decidable (v.number < 2 ^ 128))

theorem length_hexDigits {v : VersionId} (h : v.Fits) : v.hexDigits.length = 32 := by
  have hlength := (Nat.length_toDigits_le_iff (b := 16) (k := 32) (n := v.number) (by decide)
    (by decide)).mpr h
  unfold hexDigits
  dsimp only
  rw [List.length_append, List.length_replicate]
  omega

/-- Five groups of the right lengths are read as one row of digits. -/
theorem hyphenated?_groups {a b c d e : List Char} (ha : a.length = 8) (hb : b.length = 4)
    (hc : c.length = 4) (hd : d.length = 4) (he : e.length = 12) :
    hyphenated? (a ++ '-' :: b ++ '-' :: c ++ '-' :: d ++ '-' :: e) =
      hex? (a ++ b ++ c ++ d ++ e) := by
  unfold hyphenated?
  dsimp only
  simp [List.drop_append, List.drop_of_length_le, ha, hb, hc, hd, he]

/-- The five groups together are all the digits. -/
theorem groups_append (ds : List Char) :
    ds.take 8 ++ (ds.drop 8).take 4 ++ (ds.drop 12).take 4 ++ (ds.drop 16).take 4 ++ ds.drop 20 =
      ds := by
  have htwo : ds.take 8 ++ (ds.drop 8).take 4 = ds.take 12 := List.take_add.symm
  have hthree : ds.take 12 ++ (ds.drop 12).take 4 = ds.take 16 := List.take_add.symm
  have hfour : ds.take 16 ++ (ds.drop 16).take 4 = ds.take 20 := List.take_add.symm
  rw [htwo, hthree, hfour, List.take_append_drop]

/-- A version id is read as it was written. -/
theorem read?_toText {v : VersionId} (h : v.Fits) : read? v.toText = some v := by
  have hlength := length_hexDigits h
  have hgroups : hyphenated? v.toText.toList = some v.number := by
    unfold toText
    dsimp only
    rw [String.toList_ofList, hyphenated?_groups (by simp [hlength]) (by simp [hlength])
      (by simp [hlength]) (by simp [hlength]) (by simp [hlength]), groups_append]
    exact hex?_toDigits _ _
  have hlong : v.toText.toList.length = 36 := by
    unfold toText
    simp [hlength]
  unfold read?
  simp only [hlong, hgroups]
  rfl

end ContentStore.VersionId
