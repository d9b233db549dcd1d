import ContentStore.Ident.Basic

/-!
# Fresh ids never repeat

The text of a fresh id is the serial number it was made from, written to the
base 32 with zeros in front.  Reading the digits back gives the number, so
different numbers make different ids (`ofSerial_inj`).
-/

namespace ContentStore.Id

/-- What a digit stands for. -/
def digitValue (c : Char) : Nat := alphabet.idxOf c

/-- What digits stand for, after digits that stand for `n`. -/
def valueFrom (n : Nat) (cs : List Char) : Nat := cs.foldl (fun n c => n * 32 + digitValue c) n

theorem digitValue_digit : ∀ k < 32, digitValue (alphabet.getD k '0') = k := by decide

theorem valueFrom_zeros (k : Nat) (cs : List Char) :
    valueFrom 0 (List.replicate k '0' ++ cs) = valueFrom 0 cs := by
  induction k with
  | zero => rfl
  | succ k ih =>
    have hzero : digitValue '0' = 0 := digitValue_digit 0 (by decide)
    simpa [List.replicate_succ, valueFrom, hzero] using ih

/-- The digits of a number stand for it. -/
theorem valueFrom_digits {fuel n : Nat} (h : n < fuel) (after : List Char) :
    valueFrom 0 (digits fuel n after) = valueFrom n after := by
  induction fuel generalizing n after with
  | zero => omega
  | succ fuel ih =>
    have hdigit := digitValue_digit (n % 32) (Nat.mod_lt n (by decide))
    unfold digits
    split
    · have hn : n % 32 = n := by omega
      show valueFrom (0 * 32 + digitValue (alphabet.getD (n % 32) '0')) after = _
      rw [hdigit, hn, Nat.zero_mul, Nat.zero_add]
    · have hn : n / 32 * 32 + n % 32 = n := by omega
      rw [ih (by omega)]
      show valueFrom (n / 32 * 32 + digitValue (alphabet.getD (n % 32) '0')) after = _
      rw [hdigit, hn]

/-- **Different serial numbers make different ids.** -/
theorem ofSerial_inj {k : IdKind} {n m : Nat} (h : (ofSerial n : Id k) = ofSerial m) : n = m := by
  have htext := String.ofList_injective (Id.mk.inj h)
  have hvalue := congrArg (valueFrom 0) htext
  rwa [valueFrom_zeros, valueFrom_zeros, valueFrom_digits (Nat.lt_succ_self n),
    valueFrom_digits (Nat.lt_succ_self m)] at hvalue

/-- The id was made from a number below the bound. -/
def Given {k : IdKind} (id : Id k) (n : Nat) : Prop := ∃ j, j < n ∧ id = .ofSerial j

namespace Given

variable {k : IdKind} {n m : Nat} {id : Id k}

theorem mono (h : id.Given n) (hle : n ≤ m) : id.Given m := by
  obtain ⟨j, hj, hid⟩ := h
  exact ⟨j, Nat.lt_of_lt_of_le hj hle, hid⟩

/-- An id that was made is none that is yet to be made. -/
theorem ne_ofSerial (h : id.Given n) (hle : n ≤ m) : id ≠ .ofSerial m := by
  intro heq
  obtain ⟨j, hj, hid⟩ := h
  have hjm := ofSerial_inj (hid.symm.trans heq)
  omega

end Given

end ContentStore.Id
