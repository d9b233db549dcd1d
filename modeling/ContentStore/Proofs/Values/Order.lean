import ContentStore.Value.Basic
import Mathlib.Data.String.Basic
import Mathlib.Order.Compare

/-!
# The order of values

The values of one kind are in order: numbers by size, instants in time, false before
true, and all others by their texts, character by character (`Value.Before`).  Values of
different kinds stand in no order.  The comparison tells how two values of one kind
stand: one comes first, or they are the same (`Value.compares`).  It tells nothing else
(`Value.compare_eq_some_iff`), so it has the laws of the order (`Value.compare_total`).
-/

namespace ContentStore

open Time (Instant)

/-- What keeps the order also keeps what a comparison tells. -/
theorem compares_map {α β : Type} [LT α] [LT β] {f : α → β} (hf : ∀ a b, a < b → f a < f b)
    {o : Ordering} {a b : α} (h : o.Compares a b) : o.Compares (f a) (f b) := by
  cases o with
  | lt => exact hf a b h
  | eq => exact congrArg f h
  | gt => exact hf b a h

/-! ## Texts -/

namespace Text

theorem compareChars_compares (a b : Char) : (compareChars a b).Compares a b := by
  unfold compareChars
  split
  · next h => exact Char.lt_def.mpr (UInt32.lt_iff_toNat_lt.mpr h)
  · split
    · next h => exact Char.lt_def.mpr (UInt32.lt_iff_toNat_lt.mpr h)
    · exact Char.toNat_inj.mp (by omega)

theorem compareLists_compares (as bs : List Char) : (compareLists as bs).Compares as bs := by
  induction as generalizing bs with
  | nil =>
    cases bs with
    | nil => exact rfl
    | cons b bs => exact List.nil_lt_cons b bs
  | cons a as ih =>
    cases bs with
    | nil => exact List.nil_lt_cons a as
    | cons b bs =>
      have hfirst := compareChars_compares a b
      rw [compareLists]
      cases hc : compareChars a b with
      | lt =>
        rw [hc] at hfirst
        exact List.cons_lt_cons_iff.mpr (.inl hfirst)
      | gt =>
        rw [hc] at hfirst
        exact List.cons_lt_cons_iff.mpr (.inl hfirst)
      | eq =>
        obtain rfl := compareChars_eq_iff.mp hc
        exact compares_map (fun _ _ h => List.cons_lt_cons_iff.mpr (.inr ⟨rfl, h⟩)) (ih bs)

/-- Texts are compared in the order of their characters. -/
theorem compares (a b : String) : (compare a b).Compares a b := by
  have h : (compare a b).Compares (String.ofList a.toList) (String.ofList b.toList) := by
    refine compares_map (fun as bs hlt => ?_) (compareLists_compares a.toList b.toList)
    rwa [String.lt_iff_toList_lt, String.toList_ofList, String.toList_ofList]
  rwa [String.ofList_toList, String.ofList_toList] at h

end Text

/-! ## Instants -/

/-- Instants are in the order of their seconds, those in one second by nanoseconds. -/
instance : LT Instant :=
  ⟨fun a b => a.seconds < b.seconds ∨ a.seconds = b.seconds ∧ a.nanos < b.nanos⟩

namespace Time.Instant

/-- An instant is before another by its seconds, or by its nanoseconds in the same second.
-/
theorem lt_iff {a b : Instant} :
    a < b ↔ a.seconds < b.seconds ∨ a.seconds = b.seconds ∧ a.nanos < b.nanos := Iff.rfl

instance : IsStrictOrder Instant (· < ·) where
  irrefl a := by
    rw [lt_iff]
    omega
  trans a b c hab hbc := by
    rw [lt_iff] at hab hbc ⊢
    omega

theorem compares (a b : Instant) : (a.compare b).Compares a b := by
  unfold compare
  split
  · next h => exact .inl h
  · split
    · next h => exact .inl h
    · split
      · next h => exact .inr ⟨by omega, h⟩
      · split
        · next h => exact .inr ⟨by omega, h⟩
        · have hseconds : a.seconds = b.seconds := by omega
          have hnanos : a.nanos = b.nanos := by omega
          exact congr (congrArg Instant.mk hseconds) hnanos

end Time.Instant

/-! ## Values -/

namespace Value

/-- One value comes before another of its kind. -/
inductive Before : Value → Value → Prop
  | integer {a b : Int} (h : a < b) : Before (.integer a) (.integer b)
  | dateTime {a b : Instant} (h : a < b) : Before (.dateTime a) (.dateTime b)
  | bool {v w : Value} (hkind : v.kind = w.kind) (hv : v.bool? = some false)
      (hw : w.bool? = some true) : Before v w
  | text {v w : Value} {s t : String} (hkind : v.kind = w.kind) (hv : v.text? = some s)
      (hw : w.text? = some t) (h : s < t) : Before v w

instance : LT Value := ⟨Before⟩

/-- No value is a truth value and a text. -/
theorem text?_of_bool? {v : Value} {b : Bool} (h : v.bool? = some b) : v.text? = none := by
  cases v <;> first | rfl | cases h

instance : IsStrictOrder Value (· < ·) where
  irrefl v h := by
    cases h with
    | integer h => exact Int.lt_irrefl _ h
    | dateTime h => exact irrefl _ h
    | bool _ hv hw =>
      rw [hv] at hw
      cases hw
    | text _ hv hw h =>
      rw [hv] at hw
      cases hw
      exact String.lt_irrefl _ h
  trans u v w huv hvw := by
    cases huv with
    | integer hab =>
      cases hvw with
      | integer hbc => exact .integer (Int.lt_trans hab hbc)
      | bool _ hv _ => cases hv
      | text _ hv _ _ => cases hv
    | dateTime hab =>
      cases hvw with
      | dateTime hbc => exact .dateTime (trans_of (· < ·) hab hbc)
      | bool _ hv _ => cases hv
      | text _ hv _ _ => cases hv
    | bool hkind hu hv =>
      cases hvw with
      | integer => cases hv
      | dateTime => cases hv
      | bool _ hv' _ =>
        rw [hv] at hv'
        cases hv'
      | text _ hv' _ _ =>
        rw [text?_of_bool? hv] at hv'
        cases hv'
    | text hkind hu hv hab =>
      cases hvw with
      | integer => cases hv
      | dateTime => cases hv
      | bool _ hv' _ =>
        rw [text?_of_bool? hv'] at hv
        cases hv
      | text hkind' hv' hw hbc =>
        rw [hv] at hv'
        cases hv'
        exact .text (hkind.trans hkind') hu hw (String.lt_trans hab hbc)

theorem compareInts_compares (a b : Int) : (compareInts a b).Compares a b := by
  unfold compareInts
  split
  · next h => exact h
  · split
    · next h => exact h
    · exact Int.le_antisymm (by omega) (by omega)

/-- Kinds that are compared by their texts. -/
theorem text_compares (f : String → Value) {k : Kind}
    (hf : ∀ s, (f s).kind = k ∧ (f s).text? = some s) (s t : String) :
    (Text.compare s t).Compares (f s) (f t) := by
  refine compares_map (fun a b h => ?_) (Text.compares s t)
  exact .text ((hf a).1.trans (hf b).1.symm) (hf a).2 (hf b).2 h

/-- Kinds that are compared by their truth. -/
theorem bool_compares (f : Bool → Value) {k : Kind}
    (hf : ∀ b, (f b).kind = k ∧ (f b).bool? = some b) (a b : Bool) :
    (compareBools a b).Compares (f a) (f b) := by
  have hlt : f false < f true :=
    .bool ((hf false).1.trans (hf true).1.symm) (hf false).2 (hf true).2
  cases a <;> cases b <;> first | exact rfl | exact hlt

/-- **The comparison tells the order of any two values of one kind.** -/
theorem compares {v w : Value} (h : v.kind = w.kind) :
    ∃ o, v.compare w = some o ∧ o.Compares v w :=
  match v, w, h with
  | integer a, integer b, _ =>
    ⟨_, rfl, compares_map (fun _ _ => Before.integer) (compareInts_compares a b)⟩
  | dateTime a, dateTime b, _ =>
    ⟨_, rfl, compares_map (fun _ _ => Before.dateTime) (a.compares b)⟩
  | bool a, bool b, _ => ⟨_, rfl, bool_compares bool (fun _ => ⟨rfl, rfl⟩) a b⟩
  | checkbox a, checkbox b, _ => ⟨_, rfl, bool_compares checkbox (fun _ => ⟨rfl, rfl⟩) a b⟩
  | text s, text t, _ => ⟨_, rfl, text_compares text (fun _ => ⟨rfl, rfl⟩) s t⟩
  | textArea s, textArea t, _ => ⟨_, rfl, text_compares textArea (fun _ => ⟨rfl, rfl⟩) s t⟩
  | markdown s, markdown t, _ => ⟨_, rfl, text_compares markdown (fun _ => ⟨rfl, rfl⟩) s t⟩
  | select s, select t, _ => ⟨_, rfl, text_compares select (fun _ => ⟨rfl, rfl⟩) s t⟩
  | url s, url t, _ => ⟨_, rfl, text_compares url (fun _ => ⟨rfl, rfl⟩) s t⟩
  | tag ⟨s⟩, tag ⟨t⟩, _ => ⟨_, rfl, text_compares (tag ⟨·⟩) (fun _ => ⟨rfl, rfl⟩) s t⟩
  | asset ⟨s⟩, asset ⟨t⟩, _ => ⟨_, rfl, text_compares (asset ⟨·⟩) (fun _ => ⟨rfl, rfl⟩) s t⟩
  | reference ⟨s⟩, reference ⟨t⟩, _ =>
    ⟨_, rfl, text_compares (reference ⟨·⟩) (fun _ => ⟨rfl, rfl⟩) s t⟩
  | group ⟨s⟩, group ⟨t⟩, _ => ⟨_, rfl, text_compares (group ⟨·⟩) (fun _ => ⟨rfl, rfl⟩) s t⟩

/-- What stands in order is of one kind. -/
theorem kind_eq_of_compares {v w : Value} {o : Ordering} (h : o.Compares v w) :
    v.kind = w.kind := by
  have hbefore : ∀ {a b : Value}, Before a b → a.kind = b.kind := by
    intro a b hab
    cases hab with
    | integer => rfl
    | dateTime => rfl
    | bool hkind => exact hkind
    | text hkind => exact hkind
  cases o with
  | lt => exact hbefore h
  | eq => exact congrArg kind h
  | gt => exact (hbefore h).symm

/-- Values of different kinds are not compared. -/
theorem compare_of_kind_ne {v w : Value} (h : v.kind ≠ w.kind) : v.compare w = none := by
  unfold compare
  split
  · exact (h rfl).elim
  · exact (h rfl).elim
  · exact if_pos h

/-- **The comparison answers with the order**, and with nothing else. -/
theorem compare_eq_some_iff {v w : Value} {o : Ordering} :
    v.compare w = some o ↔ o.Compares v w := by
  let _ : PartialOrder Value := partialOrderOfSO (· < ·)
  constructor
  · intro h
    by_cases hkind : v.kind = w.kind
    · obtain ⟨o', ho', hcompares⟩ := compares hkind
      obtain rfl := Option.some.inj (ho'.symm.trans h)
      exact hcompares
    · rw [compare_of_kind_ne hkind] at h
      cases h
  · intro h
    obtain ⟨o', ho', hcompares⟩ := compares (kind_eq_of_compares h)
    rw [ho', Ordering.Compares.inj hcompares h]

/-- Just values of different kinds are not compared. -/
theorem compare_eq_none_iff {v w : Value} : v.compare w = none ↔ v.kind ≠ w.kind := by
  refine ⟨fun hnone hkind => ?_, compare_of_kind_ne⟩
  obtain ⟨o, ho, -⟩ := compares hkind
  rw [ho] at hnone
  cases hnone

/-- The other way round the answer is reversed. -/
theorem compare_swap (v w : Value) : w.compare v = (v.compare w).map Ordering.swap := by
  cases h : v.compare w with
  | none =>
    have hkind : w.kind ≠ v.kind := (compare_eq_none_iff.mp h).symm
    exact compare_of_kind_ne hkind
  | some o =>
    have hcompares : o.Compares v w := compare_eq_some_iff.mp h
    exact compare_eq_some_iff.mpr (Ordering.compares_swap.mpr hcompares)

/-- **The comparison is a total order on the values of each kind**, and compares no
others. -/
theorem compare_total (u v w : Value) :
    (u.compare v = none ↔ u.kind ≠ v.kind) ∧
    v.compare u = (u.compare v).map Ordering.swap ∧
    (u.compare v = some .eq ↔ u = v) ∧
    (u.compare v = some .lt → v.compare w = some .lt → u.compare w = some .lt) := by
  refine ⟨compare_eq_none_iff, compare_swap u v, compare_eq_some_iff, fun huv hvw => ?_⟩
  have hbefore : u < v := compare_eq_some_iff.mp huv
  have hthen : v < w := compare_eq_some_iff.mp hvw
  exact compare_eq_some_iff.mpr (trans_of (· < ·) hbefore hthen)

/-- Upper case comes first, and a letter with a mark last. -/
theorem compare_letters : (text "Z").compare (text "a") = some .lt ∧
    (text "a").compare (text "ä") = some .lt ∧ (text "Z").compare (text "ä") = some .lt := by
  have hfirst : (text "Z").compare (text "a") = some .lt := by decide +kernel
  have hsecond : (text "a").compare (text "ä") = some .lt := by decide +kernel
  exact ⟨hfirst, hsecond, (compare_total _ _ _).2.2.2 hfirst hsecond⟩

end Value

end ContentStore
