import ContentStore.Proofs.Values.Instants

/-!
# Dates of records

Records hold instants in the loose form.  Its reader takes years of any length
with their sign, so it gives back every instant that is regular
(`readLoose?_write`), and it gives nothing else (`regular_of_readLoose?`).
-/

namespace ContentStore.Time

instance (t : Instant) : Decidable t.Regular :=
  decidable_of_iff (t.inRange = true ∧ t.nanos < 2 * Instant.second ∧
      (Instant.second ≤ t.nanos → t.seconds % 60 = 59))
    ⟨fun h => ⟨h.1, h.2.1, h.2.2⟩, fun h => ⟨h.1, h.2, h.3⟩⟩

namespace Rfc3339

variable {cs rest : List Char} {t : Instant}

/-! ## What is read -/

theorem looseOffset?_minutes {offset : Int} (h : looseOffset? cs = some (offset, rest)) :
    offset % 60 = 0 := by
  unfold looseOffset? at h
  split at h
  · split at h
    · obtain ⟨rfl, -⟩ := Prod.mk.inj (Option.some.inj h)
      rfl
    · exact offset?_minutes h
  · exact offset?_minutes h

/-- What records give back is regular as well. -/
theorem regular_of_readLoose? {text : String} (h : readLoose? text = some t) : t.Regular := by
  unfold readLoose? at h
  obtain ⟨date, -, h⟩ := Option.bind_eq_some_iff.mp h
  obtain ⟨cs, -, h⟩ := Option.bind_eq_some_iff.mp h
  obtain ⟨hour, -, h⟩ := Option.bind_eq_some_iff.mp h
  obtain ⟨cs, -, h⟩ := Option.bind_eq_some_iff.mp h
  obtain ⟨minute, -, h⟩ := Option.bind_eq_some_iff.mp h
  obtain ⟨cs, -, h⟩ := Option.bind_eq_some_iff.mp h
  obtain ⟨sec, -, h⟩ := Option.bind_eq_some_iff.mp h
  obtain ⟨nanos, hnanos, h⟩ := Option.bind_eq_some_iff.mp h
  obtain ⟨offset, hoffset, h⟩ := Option.bind_eq_some_iff.mp h
  dsimp only at h
  split at h
  · exact regular_of_instant? h (fraction?_lt hnanos) (looseOffset?_minutes hoffset)
  · cases h

/-! ## What is written -/

theorem year?_minus (cs : List Char) :
    year? ('-' :: cs) = (digits? 1 cs.length cs).map fun r => (-(r.1 : Int), r.2) := rfl

theorem year?_plus (cs : List Char) :
    year? ('+' :: cs) = (digits? 1 cs.length cs).map fun r => ((r.1 : Int), r.2) := rfl

theorem year?_of_isDigit {c : Char} (hc : c.isDigit = true) (cs : List Char) :
    year? (c :: cs) = (digits? 1 4 (c :: cs)).map fun r => ((r.1 : Int), r.2) := by
  have hblank : Text.dropBlanks (c :: cs) = c :: cs := by
    refine Text.dropBlanks_eq_self fun d hd => ?_
    obtain rfl := Option.some.inj hd
    exact isBlank_of_isDigit hc
  unfold year?
  rw [hblank]
  split
  · rename_i heq
    rw [(List.cons.inj heq).1] at hc
    exact absurd hc (by decide)
  · rename_i heq
    rw [(List.cons.inj heq).1] at hc
    exact absurd hc (by decide)
  · rfl

/-- A year is read as it was written: with four digits, or with a sign. -/
theorem year?_writeYear (year : Int) (cs : List Char) :
    year? ((writeYear year).toList ++ '-' :: cs) = some (year, '-' :: cs) := by
  have hend : ∀ c ∈ ('-' :: cs).head?, c.isDigit = false := by
    intro c hc
    obtain rfl := Option.some.inj hc
    decide
  by_cases hshort : 0 ≤ year ∧ year ≤ 9999
  · have hspells : Spells (padded 4 year.toNat).toList 4 year.toNat :=
      spells_padded_of_lt (by decide) (by omega)
    have hread : digits? 1 4 ((padded 4 year.toNat).toList ++ '-' :: cs) =
        some (year.toNat, '-' :: cs) :=
      digits?_of_spells hspells (by decide) (by decide) (.inr hend)
    rw [writeYear, if_pos hshort]
    generalize (padded 4 year.toNat).toList = ds at hspells hread ⊢
    cases ds with
    | nil => exact absurd hspells.length (by decide)
    | cons c ds =>
      rw [List.cons_append] at hread ⊢
      rw [year?_of_isDigit (hspells.digits c List.mem_cons_self), hread, Option.map_some,
        Int.toNat_of_nonneg hshort.1]
  · have hspells := spells_padded 4 year.natAbs
    have hread : digits? 1 ((padded 4 year.natAbs).toList ++ '-' :: cs).length
        ((padded 4 year.natAbs).toList ++ '-' :: cs) = some (year.natAbs, '-' :: cs) := by
      refine digits?_of_spells hspells (by omega) ?_ (.inr hend)
      rw [List.length_append, hspells.length]
      omega
    rw [writeYear, if_neg hshort, String.toList_append]
    split
    · rename_i hneg
      have hyear : -(year.natAbs : Int) = year := by omega
      show year? ('-' :: ((padded 4 year.natAbs).toList ++ '-' :: cs)) = _
      rw [year?_minus, hread, Option.map_some, hyear]
    · have hyear : (year.natAbs : Int) = year := by omega
      show year? ('+' :: ((padded 4 year.natAbs).toList ++ '-' :: cs)) = _
      rw [year?_plus, hread, Option.map_some, hyear]

/-- **An instant is read from a record as it was written**, in any year and on a leap second. -/
theorem readLoose?_write (ht : t.Regular) : readLoose? (write t) = some t := by
  have hinstant := instant?_of_regular ht
  have hvalid := Date.isValid_ofDays t.day
  have hclock := t.secondOfDay_lt
  have hsecond := ht.writtenSecond_le
  unfold readLoose? write
  rw [toList_writeWith]
  generalize Date.ofDays t.day = date at hinstant hvalid ⊢
  obtain ⟨hmonth, hday⟩ := date.le_of_isValid hvalid
  have hdate : ∀ cs, date? Text.dropBlanks ((writeYear date.year).toList ++ '-' ::
      ((padded 2 date.month).toList ++ '-' :: ((padded 2 date.day).toList ++ 'T' :: cs))) =
        some (date, 'T' :: cs) := by
    intro cs
    refine Option.bind_eq_some_iff.mpr ⟨_, year?_writeYear date.year _, ?_⟩
    refine Option.bind_eq_some_iff.mpr ⟨_, char?_cons _ _, ?_⟩
    refine Option.bind_eq_some_iff.mpr ⟨_, short?_padded (by omega) _, ?_⟩
    refine Option.bind_eq_some_iff.mpr ⟨_, char?_cons _ _, ?_⟩
    exact Option.bind_eq_some_iff.mpr ⟨_, short?_padded (by omega) _, rfl⟩
  have hoffset : looseOffset? "Z".toList = some (0, []) := by decide
  have hend : ∀ c ∈ "Z".toList.head?, c.isDigit = false ∧ c ≠ '.' := by
    intro c hc
    cases hc
    decide
  refine Option.bind_eq_some_iff.mpr ⟨_, hdate _, ?_⟩
  refine Option.bind_eq_some_iff.mpr ⟨_, middle?_cons _, ?_⟩
  refine Option.bind_eq_some_iff.mpr ⟨_, short?_padded (by omega) _, ?_⟩
  refine Option.bind_eq_some_iff.mpr ⟨_, char?_cons _ _, ?_⟩
  refine Option.bind_eq_some_iff.mpr ⟨_, short?_padded (by omega) _, ?_⟩
  refine Option.bind_eq_some_iff.mpr ⟨_, char?_cons _ _, ?_⟩
  refine Option.bind_eq_some_iff.mpr ⟨_, short?_padded (by omega) _, ?_⟩
  refine Option.bind_eq_some_iff.mpr ⟨_, fraction?_writeFraction ht.writtenNanos_lt hend, ?_⟩
  refine Option.bind_eq_some_iff.mpr ⟨_, hoffset, ?_⟩
  exact (if_pos rfl).trans hinstant

end Rfc3339

end ContentStore.Time
