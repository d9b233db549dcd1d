/-!
# Order of texts

Ids, keys and texts are ordered by their characters, compared by code point;
a text comes before its continuations.  This is also the order of their UTF-8
bytes.  `compare` is a total order: only equal texts compare equal, swapping
the sides reverses the answer, and it is transitive, as a lexicographic order.
-/

namespace ContentStore.Text

/-- Order of characters by code point. -/
def compareChars (a b : Char) : Ordering :=
  if a.toNat < b.toNat then .lt else if b.toNat < a.toNat then .gt else .eq

/-- Order of character sequences. -/
def compareLists : List Char → List Char → Ordering
  | [], [] => .eq
  | [], _ :: _ => .lt
  | _ :: _, [] => .gt
  | a :: as, b :: bs =>
    match compareChars a b with
    | .eq => compareLists as bs
    | o => o

/-- Order of texts. -/
def compare (a b : String) : Ordering := compareLists a.toList b.toList

theorem compareChars_swap (a b : Char) : (compareChars a b).swap = compareChars b a := by
  unfold compareChars
  split
  · next h => simp [Nat.not_lt_of_gt h]
  · split
    · simp
    · rfl

theorem compareChars_eq_iff {a b : Char} : compareChars a b = .eq ↔ a = b := by
  unfold compareChars
  constructor
  · intro h
    split at h
    · cases h
    · split at h
      · cases h
      · have : a.toNat = b.toNat := by omega
        exact Char.toNat_inj.1 this
  · rintro rfl
    simp

theorem compareLists_swap (as bs : List Char) :
    (compareLists as bs).swap = compareLists bs as := by
  induction as generalizing bs with
  | nil => cases bs <;> rfl
  | cons a as ih =>
    cases bs with
    | nil => rfl
    | cons b bs =>
      have h := compareChars_swap a b
      simp only [compareLists]
      rw [← h]
      cases compareChars a b <;> simp [ih]

theorem compareLists_eq_iff {as bs : List Char} : compareLists as bs = .eq ↔ as = bs := by
  induction as generalizing bs with
  | nil => cases bs <;> simp [compareLists]
  | cons a as ih =>
    cases bs with
    | nil => simp [compareLists]
    | cons b bs =>
      simp only [compareLists, List.cons.injEq]
      rw [← compareChars_eq_iff (a := a)]
      cases compareChars a b <;> simp [ih]

theorem compareChars_eq (a b : Char) : compareChars a b = compareOn Char.toNat a b := by
  rw [compareOn, Nat.compare_eq_ite_lt]
  rfl

theorem compareLists_eq : compareLists = List.compareLex (compareOn Char.toNat) := by
  funext as bs
  induction as generalizing bs with
  | nil => cases bs <;> rfl
  | cons a as ih =>
    cases bs with
    | nil => rfl
    | cons b bs =>
      rw [List.compareLex_cons_cons, ← ih, ← compareChars_eq, compareLists]
      cases compareChars a b <;> rfl

/-- Swapping the sides reverses the answer. -/
theorem compare_swap (a b : String) : (compare a b).swap = compare b a :=
  compareLists_swap _ _

/-- Only equal texts compare equal. -/
theorem compare_eq_iff {a b : String} : compare a b = .eq ↔ a = b := by
  unfold compare
  rw [compareLists_eq_iff, String.toList_inj]

instance : Std.TransCmp compare where
  eq_swap := (compare_swap _ _).symm
  isLE_trans := by
    unfold compare
    rw [compareLists_eq]
    exact Std.TransCmp.isLE_trans

end ContentStore.Text
