import ContentStore.Proofs.Items.Input

/-!
# The schemas of instances

The values of an item follow the item schema at top level, and in an instance the
schema of the group whose field lists it, at top level or in another instance
(`Governs`).  The instances that are known while input is read are among these,
with one such schema each (`governs_of_instanceSchemas`).  Which they are depends
on the values in the slots alone, and not on the order in which the values stand
(`instanceSchemas_perm`).
-/

namespace ContentStore.Embedding

/-- The schemas that the values of an item follow, when `lists` says which
instances are listed in a slot. -/
inductive Governs (p : Package) (lists : Slot → InstanceId → Prop) :
    Schema → Option InstanceId → Prop
  | top : Governs p lists p.schema none
  | inner {S G : Schema} {owner : Option InstanceId} {F : Field} {i : InstanceId}
      (h : Governs p lists S owner) (hF : F ∈ S.groupFields) (hG : groupSchema p F = .ok G)
      (hi : lists ⟨F.id, owner⟩ i) : Governs p lists G (some i)

/-- The slot lists the instance in its new value, or without one in the stored
value. -/
def ListsOver (values stored : List ItemField) (s : Slot) (i : InstanceId) : Prop :=
  ∃ e ∈ listing? values stored s, i ∈ e.value.groups

variable {p : Package} {lists : Slot → InstanceId → Prop}

/-- What is governed follows the item schema or that of a group. -/
theorem Governs.visitable {S : Schema} {owner : Option InstanceId} (h : Governs p lists S owner) :
    Visitable p (S, owner) := by
  cases h with
  | top => exact .inl rfl
  | inner _ _ hG _ => exact .inr ⟨rfl, mem_of_groupSchema hG⟩

/-! ## Instances known to the input -/

/-- Adding an instance adds nothing else. -/
theorem Found.mem_insert {found : Found} {i : InstanceId} {s : Schema} {e : InstanceId × Schema}
    (h : e ∈ found.insert i s) : e ∈ found ∨ e = (i, s) := by
  unfold Found.insert at h
  split at h
  · rcases mem_updateFirst h with h | ⟨_, -, -, rfl⟩
    · exact .inl h
    · exact .inr rfl
  · rcases List.mem_append.mp h with h | h
    · exact .inl h
    · exact .inr (List.mem_singleton.mp h)

/-- Instances found and schemas to be visited are governed as they are noted. -/
structure Governed (p : Package) (lists : Slot → InstanceId → Prop) (found : Found)
    (pending : List Visit) : Prop where
  found : ∀ e ∈ found, Governs p lists e.2 (some e.1)
  pending : ∀ v ∈ pending, Governs p lists v.1 v.2

theorem governed_addInstances {inner : Schema} {found : Found} {pending : List Visit}
    {is : List InstanceId} (h : Governed p lists found pending)
    (hinner : ∀ i ∈ is, Governs p lists inner (some i)) :
    Governed p lists (addInstances inner found pending is).1
      (addInstances inner found pending is).2 := by
  induction is generalizing found pending with
  | nil => exact h
  | cons i is ih =>
    have hi := hinner i List.mem_cons_self
    refine ih ⟨fun e he => ?_, fun v hv => ?_⟩ fun j hj => hinner j (List.mem_cons_of_mem _ hj)
    · rcases Found.mem_insert he with he | rfl
      · exact h.found e he
      · exact hi
    · split at hv
      · exact h.pending v hv
      · rcases List.mem_cons.mp hv with rfl | hv
        · exact hi
        · exact h.pending v hv

section Visits

variable {values stored : List ItemField} {found found' : Found} {pending pending' : List Visit}

theorem governed_visitHosts {S : Schema} {owner : Option InstanceId} {hosts : List Field}
    (hS : Governs p (ListsOver values stored) S owner) (hhosts : ∀ F ∈ hosts, F ∈ S.groupFields)
    (hgoverned : Governed p (ListsOver values stored) found pending)
    (h : visitHosts p values stored owner hosts found pending = .ok (found', pending')) :
    Governed p (ListsOver values stored) found' pending' := by
  induction hosts generalizing found pending with
  | nil =>
    cases h
    exact hgoverned
  | cons host hosts ih =>
    have hrest : ∀ F ∈ hosts, F ∈ S.groupFields := fun F hF => hhosts F (List.mem_cons_of_mem _ hF)
    unfold visitHosts at h
    split at h
    · exact ih hrest hgoverned h
    · rename_i e he
      split at h
      · cases h
      · rename_i inner hinner
        refine ih hrest (governed_addInstances hgoverned fun i hi => ?_) h
        exact .inner hS (hhosts host List.mem_cons_self) hinner ⟨e, he, hi⟩

/-- Whatever the visits find follows a schema that governs it. -/
theorem governed_visitAll {fuel : Nat}
    (hgoverned : Governed p (ListsOver values stored) found pending)
    (h : visitAll p values stored fuel found pending = .ok found') :
    ∀ e ∈ found', Governs p (ListsOver values stored) e.2 (some e.1) := by
  induction fuel generalizing found pending with
  | zero =>
    cases h
    exact hgoverned.found
  | succ fuel ih =>
    rcases pending with _ | ⟨⟨S, owner⟩, pending⟩
    · cases h
      exact hgoverned.found
    · rw [visitAll] at h
      split at h
      · cases h
      · rename_i hvisit
        have hrest : Governed p (ListsOver values stored) found pending :=
          ⟨hgoverned.found, fun v hv => hgoverned.pending v (List.mem_cons_of_mem _ hv)⟩
        have hS := hgoverned.pending _ List.mem_cons_self
        exact ih (governed_visitHosts hS (fun _ hF => hF) hrest hvisit) h

end Visits

/-- **Input is read with schemas that govern.** -/
theorem governs_of_instanceSchemas {values stored : List ItemField} {found : Found}
    (h : instanceSchemas p values stored = .ok found) {i : InstanceId} {S : Schema}
    (hi : found.lookup i = some S) : Governs p (ListsOver values stored) S (some i) := by
  refine governed_visitAll ⟨fun e he => (List.not_mem_nil he).elim, fun v hv => ?_⟩ h (i, S)
    (mem_of_lookup hi)
  rw [List.mem_singleton.mp hv]
  exact .top

/-! ## Order does not matter -/

section Congr

variable {values values' stored : List ItemField}
  (hsame : ∀ s, valueAt? values s = valueAt? values' s)

include hsame in
theorem visitHosts_congr (owner : Option InstanceId) (hosts : List Field) (found : Found)
    (pending : List Visit) :
    visitHosts p values stored owner hosts found pending =
      visitHosts p values' stored owner hosts found pending := by
  induction hosts generalizing found pending with
  | nil => rfl
  | cons host hosts ih =>
    have hlisting : listing? values stored ⟨host.id, owner⟩ =
        listing? values' stored ⟨host.id, owner⟩ := by
      rw [listing?, listing?, hsame]
    simp only [visitHosts, hlisting, ih]

include hsame in
theorem visitAll_congr (fuel : Nat) (found : Found) (pending : List Visit) :
    visitAll p values stored fuel found pending = visitAll p values' stored fuel found pending := by
  induction fuel generalizing found pending with
  | zero => rfl
  | succ fuel ih =>
    rcases pending with _ | ⟨⟨S, owner⟩, pending⟩
    · rfl
    · simp only [visitAll, visitHosts_congr hsame, ih]

end Congr

/-- What stands in a slot is found in any order, if there is one value for each. -/
theorem valueAt?_perm {values values' : List ItemField} (h : values.Perm values')
    (hslots : (values.map ItemField.slot).Nodup) (s : Slot) :
    valueAt? values s = valueAt? values' s := by
  have hslots' : (values'.map ItemField.slot).Nodup := (h.map _).nodup_iff.mp hslots
  refine Option.ext fun e => ?_
  rw [valueAt?_eq_some_iff hslots, valueAt?_eq_some_iff hslots', h.mem_iff]

/-- **The instances known to the input** are the same in whatever order the values
stand. -/
theorem instanceSchemas_perm {values values' stored : List ItemField} (h : values.Perm values')
    (hslots : (values.map ItemField.slot).Nodup) :
    instanceSchemas p values stored = instanceSchemas p values' stored := by
  have hlength : (listedIn values).length = (listedIn values').length :=
    (h.flatMap_right _).length_eq
  rw [instanceSchemas, instanceSchemas, hlength]
  exact visitAll_congr (valueAt?_perm h hslots) _ _ _

/-! ## Books -/

/-- A schema of the library with one field. -/
def shelf (id : String) (f : Field) : Schema := ⟨⟨id⟩, ⟨"library"⟩, ⟨"reading"⟩, [f], none⟩

/-- Books have chapters, and chapters sections.  A section has to have a heading, and
a chapter has an opening section unless others are given. -/
def books : Package where
  model := ⟨⟨"book"⟩, ⟨"library"⟩, "book", "book", "", ⟨"book"⟩, none⟩
  schema := shelf "book"
    { Field.named ⟨"chapters"⟩ "chapters" (.group ⟨"chapter"⟩) with multiple := true }
  metadataSchema := none
  groups := [
    (⟨⟨"chapter"⟩, ⟨"library"⟩, "chapter", "chapter", "", ⟨"chapter"⟩⟩, shelf "chapter"
      { Field.named ⟨"sections"⟩ "sections" (.group ⟨"section"⟩) with
        multiple := true, default := some (.single (.group ⟨"opening"⟩)) }),
    (⟨⟨"section"⟩, ⟨"library"⟩, "section", "section", "", ⟨"section"⟩⟩, shelf "section"
      { Field.named ⟨"heading"⟩ "heading" (.text none) with
        required := true, default := some (.single (.text "Untitled")) })]
  referenced := []

/-- A book of one chapter with one section. -/
def chapterAndSection : List RawField := [
  .byKey "chapters" (.array [.string "first"]),
  .inGroup (.byKey "sections" (.array [.string "start"])) ⟨"first"⟩,
  .inGroup (.byKey "heading" (.string "Start")) ⟨"start"⟩]

end ContentStore.Embedding
