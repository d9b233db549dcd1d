import ContentStore.Proofs.Items.Input
import ContentStore.Proofs.Values.RoundTrip

/-!
# Prepared values prepared again

What raw input is prepared as for a field comes from raw input of the field's kind, by
way of the default if the input was empty, and a field that is not multiple gets one
value at most.  So it is read as it is written (`Values.coerce_render_of_size`).  Being
read it is given the default's place only if it is empty, and then it is the default
already.

A prepared value is settled therefore (`Field.settled_of_prepare`): input of what is
written of it is accepted and stored as the same value.  Only dates are left out, which
may be read but not read again.
-/

namespace ContentStore

namespace Values

variable {kind : Kind} {m : Values}

/-- Values that come from raw input of a kind. -/
def Given (kind : Kind) (m : Values) : Prop := ∃ raw, coerce kind raw = .ok m

/-- Given values of all kinds but dates are read value by value. -/
theorem Given.coerce_render (h : m.Given kind) (hkind : kind ≠ .dateTime) :
    ∀ v ∈ m.elements, Value.coerce kind v.render = .ok v := by
  obtain ⟨raw, hraw⟩ := h
  intro v hv
  obtain ⟨r, hr⟩ := (exists_of_coerce hraw).2 v hv
  exact Value.coerce_eq_ok.mpr (Value.coerce?_render hkind (Value.coerce_eq_ok.mp hr))

/-- **Given values are read as they are written**, as a list or, if there is one at most, as
a single value. -/
theorem coerce_render_of_size {multiple : Bool} (h : m.Given kind) (hkind : kind ≠ .dateTime)
    (hsize : multiple = false → m.size ≤ 1) : coerce kind (m.render multiple) = .ok m := by
  have hall := h.coerce_render hkind
  obtain ⟨raw, hraw⟩ := h
  obtain ⟨k, vs⟩ := m
  obtain rfl : k = kind := (exists_of_coerce hraw).1
  cases multiple with
  | true => exact coerce_array.mpr hall
  | false =>
    match vs, hsize rfl with
    | [], _ => rfl
    | [v], _ => exact coerce_single.mpr (hall v List.mem_cons_self)
    | _ :: _ :: _, hsize => exact absurd hsize (by simp [size])

end Values

/-- The key of a slot as it is now. -/
def rekey (slot : Slot) (key : String) (fields : List ItemField) : List ItemField :=
  updateFirst (fun e => e.slot == slot) (fun e => { e with key }) fields

/-- A value that is in its slot already is put there with no change but of the key. -/
theorem putValue_eq_rekey {fields : List ItemField} {v e : ItemField}
    (h : valueAt? fields v.slot = some e) (hvalue : e.value = v.value) :
    putValue fields v = rekey v.slot v.key fields := by
  have hsome : (valueAt? fields v.slot).isSome := by rw [h]; rfl
  rw [putValue, if_pos hsome, rekey]
  clear hsome
  induction fields with
  | nil => cases h
  | cons e' es ih =>
    unfold updateFirst
    by_cases he : (e'.slot == v.slot) = true
    · obtain rfl : e' = e := by simpa [valueAt?, he] using h
      obtain ⟨hfield, hgroup⟩ := Slot.mk.inj (eq_of_beq he)
      rw [if_pos he, if_pos he, hvalue, hfield, hgroup]
    · have hrest : valueAt? es v.slot = some e := by simpa [valueAt?, he] using h
      rw [if_neg he, if_neg he, ih hrest]

namespace Field

variable {f : Field} {raw : Json} {m : Values}

/-- A field that is not multiple holds one value at most. -/
theorem size_of_check (h : f.check m = .ok ()) (hsingle : f.multiple = false) : m.size ≤ 1 := by
  by_contra hmany
  have hrefused : (!f.multiple) = true ∧ 1 < m.size := ⟨by rw [hsingle]; rfl, by omega⟩
  unfold check at h
  dsimp only at h
  rw [if_pos hrefused] at h
  split at h
  · cases h
  · split at h <;> cases h

/-- What is prepared is what is given, or else the default. -/
theorem prepare_eq_ok : f.prepare raw = .ok m ↔ ∃ given, Values.coerce f.kind raw = .ok given ∧
    f.check m = .ok () ∧ m = if given.isEmpty then f.default.getD given else given := by
  unfold prepare
  constructor
  · intro h
    obtain ⟨given, hgiven, h⟩ := bind_eq_ok.mp h
    obtain ⟨_, hcheck, h⟩ := bind_eq_ok.mp h
    cases h
    exact ⟨given, liftValue_eq_ok.mp hgiven, liftValue_eq_ok.mp hcheck, rfl⟩
  · rintro ⟨given, hgiven, hcheck, rfl⟩
    rw [hgiven]
    exact bind_eq_ok.mpr ⟨given, rfl, bind_eq_ok.mpr ⟨(), liftValue_eq_ok.mpr hcheck, rfl⟩⟩

/-- It is what is given only if that is not empty or there is no default. -/
theorem prepare_cases (h : f.prepare raw = .ok m) : f.default = some m ∨
    Values.coerce f.kind raw = .ok m ∧ (m.isEmpty = true → f.default = none) := by
  obtain ⟨given, hgiven, -, rfl⟩ := prepare_eq_ok.mp h
  by_cases hempty : given.isEmpty = true
  · rw [if_pos hempty]
    cases f.default with
    | none => exact .inr ⟨hgiven, fun _ => rfl⟩
    | some d => exact .inl rfl
  · rw [if_neg hempty]
    exact .inr ⟨hgiven, fun hnot => (hempty hnot).elim⟩

/-- A value that a field keeps: it may stand there, and what is written of it is
accepted as input and gives the value again. -/
structure Settled (f : Field) (m : Values) : Prop where
  check : f.check m = .ok ()
  prepare : f.prepare (m.render f.multiple) = .ok m
  /-- In an item that holds the value, such input only brings the key up to date. -/
  submit : ∀ (S : Schema) (r : RawField), Embedding.fieldOf S r = .ok f →
    r.value = m.render f.multiple → Embedding.valueOf S r = .ok ⟨f.id, f.key, m, r.group⟩ ∧
      ∀ (it : Item) (e : ItemField), valueAt? it.fields ⟨f.id, r.group⟩ = some e → e.value = m →
        it.update [⟨f.id, f.key, m, r.group⟩] =
          { it with fields := rekey ⟨f.id, r.group⟩ f.key it.fields }.update []

/-- **What has been prepared is settled**, in a field of any kind but dates whose default
comes from raw input. -/
theorem settled_of_prepare (hkind : f.kind ≠ .dateTime)
    (hdefault : ∀ d ∈ f.default, ∃ r, Values.coerce f.kind r = .ok d)
    (h : f.prepare raw = .ok m) : f.Settled m := by
  obtain ⟨-, -, hcheck, -⟩ := prepare_eq_ok.mp h
  have hcome : m.Given f.kind := by
    rcases prepare_cases h with hd | ⟨hgiven, -⟩
    · exact hdefault m hd
    · exact ⟨raw, hgiven⟩
  have hread := Values.coerce_render_of_size hcome hkind (size_of_check hcheck)
  -- an empty value is the default already, or there is none
  have hstays : m = if m.isEmpty then f.default.getD m else m := by
    rcases prepare_cases h with hd | ⟨-, hnone⟩
    · rw [hd]
      exact (ite_self m).symm
    · by_cases hempty : m.isEmpty = true
      · rw [hnone hempty]
        exact (ite_self m).symm
      · rw [if_neg hempty]
  have hagain := prepare_eq_ok.mpr ⟨m, hread, hcheck, hstays⟩
  refine ⟨hcheck, hagain, fun S r hr hinput => ⟨?_, fun it e he hvalue => ?_⟩⟩
  · rw [Embedding.valueOf, hr, hinput]
    exact bind_eq_ok.mpr ⟨f, rfl, bind_eq_ok.mpr ⟨m, hagain, rfl⟩⟩
  · unfold Item.update mergeValues
    rw [List.foldl_cons, putValue_eq_rekey he hvalue]
    rfl

/-- Labels of which there must be one at least. -/
def labels : Field :=
  { named ⟨"labels"⟩ "labels" (.text (some 8)) with
    multiple := true, required := true, default := some ⟨.text, [.text "", .text "other"]⟩ }

/-- Blank labels are given up for the default, which is kept. -/
theorem settled_labels :
    labels.prepare (.array [.null, .string ""]) = .ok ⟨.text, [.text "", .text "other"]⟩ ∧
    labels.Settled ⟨.text, [.text "", .text "other"]⟩ := by
  have hlabels : labels.prepare (.array [.null, .string ""]) =
      .ok ⟨.text, [.text "", .text "other"]⟩ := by decide +kernel
  refine ⟨hlabels, settled_of_prepare (by decide) (fun d hd => ?_) hlabels⟩
  obtain rfl : _ = d := Option.some.inj hd
  exact ⟨.array [.string "", .string "other"], by decide +kernel⟩

end Field

end ContentStore
