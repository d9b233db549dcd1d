import ContentStore.Proofs.Effects
import ContentStore.Proofs.Values.Instants
import ContentStore.Value.Values

/-!
# Values read back

A value that raw input stands for is written as plain JSON, and read again it is
the same value, unless it is a date whose year takes more or fewer than four digits
(`coerce_render`).  Such dates are accepted: an offset may lead out of the years
with four digits, and a day alone may have a year with a sign.  What is written of
them is no input that is accepted.  The same holds of lists of values
(`roundTrip`).
-/

namespace ContentStore

open Time (Date Instant)
open Time.Rfc3339

/-- An instant is read again from the text of a value just if its year has four
digits. -/
theorem readInstant?_writeOffset {s : String} {t : Instant} (h : readInstant? s = some t) :
    readInstant? (writeOffset t) = some t ↔
      0 ≤ (Date.ofDays t.day).year ∧ (Date.ofDays t.day).year ≤ 9999 := by
  have hregular : t.Regular := by
    rcases Option.or_eq_some_iff.mp h with hread | ⟨-, hday⟩
    · exact regular_of_read? hread
    · exact regular_of_readDay? hday
  unfold readInstant?
  constructor
  · intro hagain
    by_contra hlong
    obtain ⟨hread, hday⟩ := not_read_of_long hlong
    rw [hread, hday] at hagain
    cases hagain
  · intro hyear
    rw [read?_writeOffset hregular hyear.1 hyear.2]
    rfl

namespace Value

variable {kind : Kind} {raw : Json} {v : Value}

/-- If the value is a date, its year has four digits. -/
def FourDigits (v : Value) : Prop :=
  ∀ t ∈ v.dateTime?, 0 ≤ (Date.ofDays t.day).year ∧ (Date.ofDays t.day).year ≤ 9999

instance (v : Value) : Decidable v.FourDigits :=
  inferInstanceAs (Decidable (∀ t ∈ v.dateTime?, _))

theorem coerce_eq_ok : coerce kind raw = .ok v ↔ coerce? kind raw = some v := by
  unfold coerce
  cases coerce? kind raw <;> simp

/-- An id has no blanks around it that could be cut off again. -/
theorem rawId?_render {k : IdKind} {id : Id k} (h : rawId? raw = some id) :
    rawId? (.string id.text) = some id := by
  obtain ⟨s, -, hid⟩ := Option.bind_eq_some_iff.mp h
  unfold Id.parse? at hid
  obtain ⟨hne, hid⟩ := Option.ite_none_left_eq_some.mp hid
  have htext : Text.trim s = id.text := congrArg Id.text (Option.some.inj hid)
  rw [rawId?, Json.asString?, Option.bind_some, Id.parse?, ← htext, Text.trim_trim]
  exact Option.ite_none_left_eq_some.mpr ⟨hne, hid⟩

/-- An integer that is read has 64 bits. -/
theorem isInt64_of_rawInteger? {n : Int} (h : rawInteger? raw = some n) :
    Number.isInt64 n = true := by
  unfold rawInteger? at h
  split at h
  · obtain ⟨hfits, hn⟩ := Option.ite_none_right_eq_some.mp h
    exact Option.some.inj hn ▸ hfits
  · obtain ⟨-, hsmall⟩ := Option.filter_eq_some_iff.mp h
    have hle : (n.natAbs : Int) ≤ Number.largestInt64 := of_decide_eq_true hsmall
    unfold Number.largestInt64 at hle
    unfold Number.isInt64 Number.leastInt64 Number.largestInt64
    exact decide_eq_true ⟨by omega, by omega⟩
  · exact (Option.filter_eq_some_iff.mp h).2
  · cases h

/-- Values that one reader reads are read again if the reader reads what is written
of them. -/
theorem coerce?_render_of {α : Type} {read : Json → Option α} {make : α → Value}
    (hkind : ∀ raw, coerce? kind raw = (read raw).map make)
    (hagain : ∀ raw a, read raw = some a → read (make a).render = some a)
    (h : coerce? kind raw = some v) : coerce? kind v.render = some v := by
  rw [hkind] at h
  obtain ⟨a, ha, rfl⟩ := Option.map_eq_some_iff.mp h
  rw [hkind, hagain raw a ha]
  rfl

/-- **Values of all kinds but dates are read again.** -/
theorem coerce?_render (hkind : kind ≠ .dateTime) (h : coerce? kind raw = some v) :
    coerce? kind v.render = some v := by
  cases kind with
  | text | textArea | markdown | select =>
    exact coerce?_render_of (fun _ => rfl) (fun _ _ _ => rfl) h
  | bool | checkbox => exact coerce?_render_of (fun _ => rfl) (fun _ _ _ => rfl) h
  | integer =>
    refine coerce?_render_of (fun _ => rfl) (fun _ n hn => ?_) h
    exact if_pos (isInt64_of_rawInteger? hn)
  | url =>
    refine coerce?_render_of (fun _ => rfl) (fun _ s hs => ?_) h
    exact Option.filter_eq_some_iff.mpr ⟨rfl, (Option.filter_eq_some_iff.mp hs).2⟩
  | tag | asset | reference | group =>
    exact coerce?_render_of (fun _ => rfl) (fun _ _ hid => rawId?_render hid) h
  | dateTime => exact (hkind rfl).elim

theorem kind_of_coerce? (h : coerce? kind raw = some v) : v.kind = kind := by
  unfold coerce? at h
  cases kind <;> obtain ⟨a, -, rfl⟩ := Option.map_eq_some_iff.mp h <;> rfl

theorem kind_of_dateTime? {t : Instant} (h : t ∈ v.dateTime?) : v.kind = .dateTime := by
  cases v with
  | dateTime => rfl
  | _ => cases h

/-- **A value is read again just if it is no date of a longer year.** -/
theorem coerce_render (h : coerce kind raw = .ok v) :
    coerce kind v.render = .ok v ↔ v.FourDigits := by
  rw [coerce_eq_ok] at h ⊢
  by_cases hkind : kind = .dateTime
  · subst hkind
    obtain ⟨t, hread, rfl⟩ := Option.map_eq_some_iff.mp h
    obtain ⟨s, -, hs⟩ := Option.bind_eq_some_iff.mp hread
    have hrender : coerce? .dateTime (render (.dateTime t)) =
        (readInstant? (writeOffset t)).map .dateTime := by
      rw [coerce?, render, Json.asString?, Option.bind_some]
    have hfour : FourDigits (.dateTime t) ↔
        0 ≤ (Date.ofDays t.day).year ∧ (Date.ofDays t.day).year ≤ 9999 := by
      simp [FourDigits, dateTime?]
    rw [hfour, ← readInstant?_writeOffset hs, hrender, Option.map_eq_some_iff]
    simp
  · refine iff_of_true (coerce?_render hkind h) fun t ht => ?_
    have hdate := kind_of_dateTime? ht
    exact (hkind ((kind_of_coerce? h).symm.trans hdate)).elim

/-- What is written of a value is not null. -/
theorem isNull_render (v : Value) : v.render.isNull = false := by
  cases v <;> rfl

end Value

namespace Values

variable {kind : Kind} {raw : Json} {m : Values}

theorem mapM_render {vs : List Value} : (vs.map Value.render).mapM (Value.coerce kind) = .ok vs ↔
    ∀ v ∈ vs, Value.coerce kind v.render = .ok v := by
  induction vs with
  | nil => exact iff_of_true rfl fun _ h => (List.not_mem_nil h).elim
  | cons v vs ih =>
    rw [List.map_cons, List.mapM_cons, List.forall_mem_cons, ← ih]
    constructor
    · intro h
      obtain ⟨w, hw, h⟩ := bind_eq_ok.mp h
      obtain ⟨ws, hws, h⟩ := bind_eq_ok.mp h
      obtain ⟨rfl, rfl⟩ := List.cons.inj (Except.ok.inj h)
      exact ⟨hw, hws⟩
    · intro h
      rw [h.1, h.2]
      rfl

/-- An array of written values is read value by value. -/
theorem coerce_array {vs : List Value} :
    coerce kind (.array (vs.map Value.render)) = .ok ⟨kind, vs⟩ ↔
      ∀ v ∈ vs, Value.coerce kind v.render = .ok v := by
  have hall : (vs.map Value.render).filter (fun x => !x.isNull) = vs.map Value.render := by
    rw [List.filter_eq_self]
    intro x hx
    obtain ⟨v, -, rfl⟩ := List.mem_map.mp hx
    rw [Value.isNull_render]
    rfl
  rw [← mapM_render, coerce, hall]
  constructor
  · intro h
    obtain ⟨ws, hws, h⟩ := bind_eq_ok.mp h
    cases h
    exact hws
  · intro h
    rw [h]
    rfl

/-- A written value is read as this one value. -/
theorem coerce_single {v : Value} : coerce kind v.render = .ok ⟨kind, [v]⟩ ↔
    Value.coerce kind v.render = .ok v := by
  have halone : coerce kind v.render = do
      let w ← Value.coerce kind v.render
      return ⟨kind, [w]⟩ := by
    cases v <;> rfl
  rw [halone]
  constructor
  · intro h
    obtain ⟨w, hw, h⟩ := bind_eq_ok.mp h
    cases h
    exact hw
  · intro h
    rw [h]
    rfl

/-- All values come from raw input of the kind. -/
theorem exists_of_coerce (h : coerce kind raw = .ok m) :
    m.kind = kind ∧ ∀ v ∈ m.elements, ∃ r, Value.coerce kind r = .ok v := by
  unfold coerce at h
  split at h
  · cases h
    exact ⟨rfl, fun _ hv => (List.not_mem_nil hv).elim⟩
  · obtain ⟨vs, hvs, h⟩ := bind_eq_ok.mp h
    cases h
    have hmem := mem_of_mapM hvs
    refine ⟨rfl, fun v hv => ?_⟩
    obtain ⟨r, -, hr⟩ := hmem v hv
    exact ⟨r, hr⟩
  · obtain ⟨v, hv, h⟩ := bind_eq_ok.mp h
    cases h
    exact ⟨rfl, fun w hw => ⟨raw, List.mem_singleton.mp hw ▸ hv⟩⟩

/-- Written values are read again just if none of them is a date of a longer year. -/
theorem coerce_render_iff (h : coerce kind raw = .ok m) :
    (∀ v ∈ m.elements, Value.coerce kind v.render = .ok v) ↔ ∀ v ∈ m.elements, v.FourDigits := by
  obtain ⟨-, hall⟩ := exists_of_coerce h
  refine forall₂_congr fun v hv => ?_
  obtain ⟨r, hr⟩ := hall v hv
  exact Value.coerce_render hr

end Values

/-- What raw input of a kind stands for is written and read again, unless it holds
dates of longer years. -/
structure RoundTrips (kind : Kind) (raw : Json) : Prop where
  value : ∀ v, Value.coerce kind raw = .ok v →
    (Value.coerce kind v.render = .ok v ↔ v.FourDigits)
  list : ∀ m, Values.coerce kind raw = .ok m →
    (Values.coerce kind (m.render true) = .ok m ↔ ∀ v ∈ m.elements, v.FourDigits)
  single : ∀ m, Values.coerce kind raw = .ok m → m.size ≤ 1 →
    (Values.coerce kind (m.render false) = .ok m ↔ ∀ v ∈ m.elements, v.FourDigits)

/-- **Just the values without dates of longer years are read as they are written.** -/
theorem roundTrip (kind : Kind) (raw : Json) : RoundTrips kind raw := by
  constructor
  case value => exact fun v hv => Value.coerce_render hv
  case list =>
    intro m hm
    obtain ⟨hkind, -⟩ := Values.exists_of_coerce hm
    rw [← Values.coerce_render_iff hm, ← Values.coerce_array, ← hkind]
    rfl
  case single =>
    intro m hm hsize
    obtain ⟨hkind, -⟩ := Values.exists_of_coerce hm
    rw [← Values.coerce_render_iff hm]
    obtain ⟨k, vs⟩ := m
    obtain rfl : k = kind := hkind
    match vs, hsize with
    | [], _ => exact iff_of_true rfl fun _ h => (List.not_mem_nil h).elim
    | [v], _ =>
      show Values.coerce k v.render = _ ↔ ∀ w ∈ [v], _
      rw [Values.coerce_single, List.forall_mem_singleton]
    | _ :: _ :: _, hsize => exact absurd hsize (by simp [Values.size])

/-- A leap day and a leap second. -/
def leaps : Json := .array [.string "2024-02-29", .string "2016-12-31T23:59:60.5Z"]

/-- A leap day and a leap second are read again. -/
theorem roundTrip_of_leaps : ∃ m, Values.coerce .dateTime leaps = .ok m ∧ m.size = 2 ∧
    Values.coerce .dateTime (m.render true) = .ok m := by
  have hleaps : Values.coerce .dateTime leaps = .ok
      ⟨.dateTime, [.dateTime ⟨1709164800, 0⟩, .dateTime ⟨1483228799, 1500000000⟩]⟩ := by
    decide +kernel
  exact ⟨_, hleaps, rfl, ((roundTrip .dateTime leaps).list _ hleaps).mpr (by decide +kernel)⟩

/-- The last minute of a year with four digits, an hour west of universal time. -/
def lastMinute : Json := .string "9999-12-31T23:59:59-01:00"

/-- **The last minute of the year 9999 may not be read again.** -/
theorem roundTrip_lost : ∃ v, Value.coerce .dateTime lastMinute = .ok v ∧
    Value.coerce .dateTime v.render = .error (.unreadable .dateTime "string") :=
  ⟨.dateTime ⟨253402304399, 0⟩, by decide +kernel, by decide +kernel⟩

end ContentStore
