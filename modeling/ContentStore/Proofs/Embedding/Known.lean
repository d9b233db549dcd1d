import ContentStore.Proofs.Items.Conforming
import ContentStore.Proofs.Loops

/-!
# Instances that input can address

Input for an instance is read with the schema under which the instance is known
(`instanceSchemas`).  Schemas are visited one after the other; each visit makes the
instances known that are listed in its group fields and were not known before, and
has these visited later (`Learns`).  Every owner is visited once (`Explored`), so the
visits end (`ends_instanceSchemas`), and in the end an instance is known just when
its values follow a schema: if group fields that list the same instance embed the
same group, it is known under that schema (`lookup_instanceSchemas`).
-/

namespace ContentStore

/-- The schema of every group that an item or an instance embeds is there. -/
def Package.HoldsGroups (p : Package) : Prop :=
  ∀ S ∈ p.schema :: p.groups.map Prod.snd, ∀ g ∈ S.embedded, (p.groupSchema? g).isSome

instance (p : Package) : Decidable p.HoldsGroups :=
  inferInstanceAs (Decidable (∀ S ∈ p.schema :: p.groups.map Prod.snd, ∀ g ∈ S.embedded,
    (p.groupSchema? g).isSome))

namespace Embedding

variable {p : Package} {values stored : List ItemField}

/-- A host has a schema just if it embeds a group whose schema the package holds. -/
theorem groupSchema_iff {F : Field} {G : Schema} :
    groupSchema p F = .ok G ↔ ∃ g, F.group? = some g ∧ p.groupSchema? g = some G := by
  unfold groupSchema
  cases F.group? with
  | none => simp
  | some g =>
    dsimp only
    cases hg : p.groupSchema? g <;> simp [hg]

/-- Group fields of schemas that can be visited embed groups whose schema is there. -/
theorem groupSchema_of_holdsGroups (hgroups : p.HoldsGroups) {S : Schema}
    {owner : Option InstanceId} (hvisit : Visitable p (S, owner)) {F : Field}
    (hF : F ∈ S.groupFields) : ∃ g G, F.group? = some g ∧ p.groupSchema? g = some G := by
  obtain ⟨hmem, g, hg⟩ := Schema.mem_groupFields.mp hF
  obtain ⟨G, hG⟩ := Option.isSome_iff_exists.mp
    (hgroups S hvisit.mem_schemas g (Schema.mem_embedded.mpr ⟨F, hmem, hg⟩))
  exact ⟨g, G, hg, hG⟩

/-- What a value lists is listed among all values. -/
theorem groups_subset {fields : List ItemField} {s : Slot} {e : ItemField}
    (he : valueAt? fields s = some e) : e.value.groups ⊆ listedIn fields :=
  fun _ hi => List.mem_flatMap.mpr ⟨e, mem_of_valueAt? he, hi⟩

/-- Without new values the stored ones list as they are. -/
theorem listsOver_nil : ListsOver [] stored = Lists stored := rfl

/-! ## What one visit makes known -/

/-- An instance that is added is known with its new schema, and the others as before. -/
theorem Found.lookup_insert (found : Found) (i : InstanceId) (s : Schema) (j : InstanceId) :
    (found.insert i s).lookup j = if j = i then some s else found.lookup j :=
  lookup_upsert found i s j

/-- Of listed instances, new ones become known. -/
structure Learns (listed : InstanceId → Prop) (found found' new : Found) : Prop where
  distinct : (new.map Prod.fst).Nodup
  fresh : ∀ i ∈ new.map Prod.fst, ¬ (found.lookup i).isSome
  added : ∀ i, (found'.lookup i).isSome ↔ (found.lookup i).isSome ∨ i ∈ new.map Prod.fst
  known : ∀ i, (found'.lookup i).isSome ↔ (found.lookup i).isSome ∨ listed i

namespace Learns

variable {listed listed' : InstanceId → Prop} {found found₁ found₂ new new' : Found}

/-- Where nothing is listed nothing is learned. -/
theorem refl (hnone : ∀ i, ¬ listed i) : Learns listed found found [] where
  distinct := List.nodup_nil
  fresh := fun _ hi => (List.not_mem_nil hi).elim
  added := by simp
  known := by simp [hnone]

/-- What is learned first and then is learned together. -/
theorem trans (h : Learns listed found found₁ new) (h' : Learns listed' found₁ found₂ new') :
    Learns (fun i => listed i ∨ listed' i) found found₂ (new' ++ new) where
  distinct := by
    rw [List.map_append, List.nodup_append]
    refine ⟨h'.distinct, h.distinct, fun i hi j hj heq => h'.fresh i hi ?_⟩
    rw [heq]
    exact (h.added j).mpr (.inr hj)
  fresh := by
    intro i hi hknown
    rw [List.map_append, List.mem_append] at hi
    rcases hi with hi | hi
    · exact h'.fresh i hi ((h.added i).mpr (.inl hknown))
    · exact h.fresh i hi hknown
  added := by
    intro i
    rw [h'.added, h.added, List.map_append, List.mem_append, or_assoc,
      or_comm (b := i ∈ new'.map Prod.fst)]
  known := by
    intro i
    rw [h'.known, h.known, or_assoc]

/-- Only which instances are listed counts. -/
theorem congr (h : Learns listed found found₁ new) (hlisted : ∀ i, listed i ↔ listed' i) :
    Learns listed' found found₁ new where
  distinct := h.distinct
  fresh := h.fresh
  added := h.added
  known := fun i => (h.known i).trans (or_congr_right (hlisted i))

end Learns

/-- Adding an instance makes it known, and new if it was not there. -/
theorem learns_insert (found : Found) (i : InstanceId) (s : Schema) :
    Learns (· = i) found (found.insert i s) (if (found.lookup i).isSome then [] else [(i, s)]) := by
  have hknown : ∀ j, ((found.insert i s).lookup j).isSome ↔ (found.lookup j).isSome ∨ j = i := by
    intro j
    rw [Found.lookup_insert]
    by_cases hj : j = i <;> simp [hj]
  by_cases hi : (found.lookup i).isSome
  · rw [if_pos hi]
    refine ⟨List.nodup_nil, fun _ hj => (List.not_mem_nil hj).elim, fun j => ?_, hknown⟩
    rw [hknown]
    by_cases hj : j = i <;> simp [hj, hi]
  · rw [if_neg hi]
    refine ⟨List.nodup_singleton i, fun j hj => ?_, fun j => ?_, hknown⟩
    · rwa [List.mem_singleton.mp hj]
    · rw [hknown, List.map_singleton, List.mem_singleton]

/-- Adding several makes all of them known, and the new ones are to be visited. -/
theorem learns_addInstances (inner : Schema) (found : Found) (pending : List Visit)
    (is : List InstanceId) :
    ∃ new, Learns (· ∈ is) found (addInstances inner found pending is).1 new ∧
      (addInstances inner found pending is).2 = new.map (fun e => (e.2, some e.1)) ++ pending := by
  induction is generalizing found pending with
  | nil => exact ⟨[], .refl fun _ => List.not_mem_nil, rfl⟩
  | cons i is ih =>
    rw [addInstances]
    obtain ⟨new, hnew, hpending⟩ := ih (found.insert i inner)
      (if (found.lookup i).isSome then pending else (inner, some i) :: pending)
    refine ⟨_, ((learns_insert found i inner).trans hnew).congr fun j => ?_, ?_⟩
    · exact List.mem_cons.symm
    · rw [hpending]
      split <;> simp

/-- A visit makes known what the group fields of its owner list, and the new ones are to be
visited. -/
theorem learns_visitHosts {owner : Option InstanceId} {hosts : List Field} {found found' : Found}
    {pending pending' : List Visit}
    (h : visitHosts p values stored owner hosts found pending = .ok (found', pending')) :
    ∃ new, Learns (fun i => ∃ F ∈ hosts, ListsOver values stored ⟨F.id, owner⟩ i)
        found found' new ∧
      pending' = new.map (fun e => (e.2, some e.1)) ++ pending := by
  induction hosts generalizing found pending with
  | nil =>
    cases h
    exact ⟨[], .refl (fun i ⟨F, hF, _⟩ => List.not_mem_nil hF), rfl⟩
  | cons host hosts ih =>
    unfold visitHosts at h
    split at h
    · rename_i hnone
      obtain ⟨new, hnew, hpending⟩ := ih h
      refine ⟨new, hnew.congr fun i => ?_, hpending⟩
      simp [ListsOver, hnone]
    · rename_i e he
      split at h
      · cases h
      · rename_i inner _
        obtain ⟨first, hfirst, hmiddle⟩ := learns_addInstances inner found pending e.value.groups
        obtain ⟨new, hnew, hpending⟩ := ih h
        refine ⟨new ++ first, (hfirst.trans hnew).congr fun i => ?_, ?_⟩
        · simp [ListsOver, he]
        · rw [hpending, hmiddle, List.map_append, List.append_assoc]

/-- A visit fails only if a group is not there. -/
theorem exists_of_visitHosts_error {owner : Option InstanceId} {hosts : List Field}
    {found : Found} {pending : List Visit} {e : Error}
    (h : visitHosts p values stored owner hosts found pending = .error e) :
    ∃ F ∈ hosts, groupSchema p F = .error e := by
  induction hosts generalizing found pending with
  | nil => cases h
  | cons host hosts ih =>
    unfold visitHosts at h
    split at h
    · obtain ⟨F, hF, hfails⟩ := ih h
      exact ⟨F, List.mem_cons_of_mem _ hF, hfails⟩
    · split at h
      · rename_i hfails
        cases h
        exact ⟨host, List.mem_cons_self, hfails⟩
      · obtain ⟨F, hF, hfails⟩ := ih h
        exact ⟨F, List.mem_cons_of_mem _ hF, hfails⟩

/-! ## One visit after the other -/

/-- One visit, with what is known and what is to be visited so far. -/
def visitBody (p : Package) (values stored : List ItemField) :
    Found × List Visit → Except Error Found ⊕ Found × List Visit
  | (found, []) => .inl (.ok found)
  | (found, (s, owner) :: pending) =>
    match visitHosts p values stored owner s.groupFields found pending with
    | .error e => .inl (.error e)
    | .ok next => .inr next

/-- What has been visited, what is still to be visited and what is known.  Each owner
is there once, and whatever a visited one lists is known. -/
structure Explored (p : Package) (values stored : List ItemField) (done pending : List Visit)
    (found : Found) : Prop where
  distinct : ((done ++ pending).map Prod.snd).Nodup
  root : none ∈ (done ++ pending).map Prod.snd
  met : ∀ i, (found.lookup i).isSome ↔ some i ∈ (done ++ pending).map Prod.snd
  followed : ∀ v ∈ done, ∀ F ∈ v.1.groupFields, ∀ i, ListsOver values stored ⟨F.id, v.2⟩ i →
    (found.lookup i).isSome
  governed : Governed p (ListsOver values stored) found (done ++ pending)

namespace Explored

variable {done pending pending' : List Visit} {found found' : Found} {S : Schema}
  {owner : Option InstanceId}

/-- Nothing has been visited, and the top level comes first. -/
theorem start : Explored p values stored [] [(p.schema, none)] [] where
  distinct := List.nodup_singleton _
  root := List.mem_singleton_self _
  met := by simp
  followed := fun _ hv => (List.not_mem_nil hv).elim
  governed := by
    refine ⟨fun _ he => (List.not_mem_nil he).elim, fun v hv => ?_⟩
    rw [List.mem_singleton.mp hv]
    exact .top

/-- **A visit** keeps this up. -/
theorem step (h : Explored p values stored done ((S, owner) :: pending) found)
    (hvisit : visitHosts p values stored owner S.groupFields found pending =
      .ok (found', pending')) :
    Explored p values stored (done ++ [(S, owner)]) pending' found' := by
  obtain ⟨new, hnew, rfl⟩ := learns_visitHosts hvisit
  have hgovern : Governs p (ListsOver values stored) S owner :=
    h.governed.pending _ (List.mem_append_right _ List.mem_cons_self)
  have hstill : Governed p (ListsOver values stored) found pending :=
    ⟨h.governed.found, fun v hv => h.governed.pending v
      (List.mem_append_right _ (List.mem_cons_of_mem _ hv))⟩
  have hgoverned := governed_visitHosts hgovern (fun _ hF => hF) hstill hvisit
  constructor
  case distinct =>
    refine nodup_owners_of_visit h.distinct hnew.distinct fun i hi ho => ?_
    exact hnew.fresh i hi ((h.met i).mpr ho)
  case root => exact mem_owners_of_visit.mpr (.inr h.root)
  case met =>
    intro i
    rw [mem_owners_of_visit, List.mem_map_of_injective fun _ _ => Option.some.inj, ← h.met,
      hnew.added, or_comm]
  case followed =>
    intro v hv F hF i hi
    rw [hnew.known]
    rcases List.mem_append.mp hv with hv | hv
    · exact .inl (h.followed v hv F hF i hi)
    · rw [List.mem_singleton.mp hv] at hF hi
      exact .inr ⟨F, hF, hi⟩
  case governed =>
    refine ⟨hgoverned.found, fun v hv => ?_⟩
    rcases List.mem_append.mp hv with hv | hv
    · refine h.governed.pending v ?_
      rw [List.append_cons done]
      exact List.mem_append_left _ hv
    · exact hgoverned.pending v hv

/-- There are no more owners than one for each instance that is listed, and the top
level. -/
theorem length_le (h : Explored p values stored done pending found) :
    done.length + pending.length ≤ (listedIn values).length + (listedIn stored).length + 1 := by
  rw [← List.length_append, ← List.length_append]
  refine length_le_of_owners h.distinct fun S i hv => ?_
  have hgovern : Governs p (ListsOver values stored) S (some i) := h.governed.pending _ hv
  cases hgovern with
  | inner _ _ _ hi =>
    obtain ⟨e, he, hi⟩ := hi
    rw [List.mem_append]
    exact (Option.or_eq_some_iff.mp he).imp (fun he => groups_subset he hi)
      fun he => groups_subset he.2 hi

/-- A round is a visit, unless it is the last one. -/
theorem round {s s' : Found × List Visit} (h : Explored p values stored done s.2 s.1)
    (hbody : visitBody p values stored s = .inr s') :
    ∃ v, Explored p values stored (done ++ [v]) s'.2 s'.1 := by
  obtain ⟨found, _ | ⟨⟨S, owner⟩, pending⟩⟩ := s
  · cases hbody
  · rw [visitBody] at hbody
    split at hbody
    · cases hbody
    · rename_i hvisit
      cases hbody
      exact ⟨(S, owner), h.step hvisit⟩

end Explored

/-- The visits are a loop of single ones. -/
theorem visitAll_succ (fuel : Nat) (s : Found × List Visit) :
    visitAll p values stored (fuel + 1) s.1 s.2 =
      (visitBody p values stored s).elim id fun s => visitAll p values stored fuel s.1 s.2 := by
  obtain ⟨found, _ | ⟨⟨S, owner⟩, pending⟩⟩ := s
  · rfl
  · simp only [visitAll, visitBody]
    cases visitHosts p values stored owner S.groupFields found pending <;> rfl

/-- **The visits end** with the instances that are known. -/
theorem ends_instanceSchemas (p : Package) (values stored : List ItemField) :
    Ends (visitBody p values stored) ([], [(p.schema, none)])
      (instanceSchemas p values stored) := by
  let Enough (fuel : Nat) (s : Found × List Visit) : Prop :=
    ∃ done, Explored p values stored done s.2 s.1 ∧
      (listedIn values).length + (listedIn stored).length < fuel + done.length
  have hstart : Enough ((listedIn values).length + (listedIn stored).length + 1)
      ([], [(p.schema, none)]) := ⟨[], .start, by simp⟩
  refine ends_of_fuel (fun fuel s => visitAll p values stored fuel s.1 s.2) Enough
    visitAll_succ ?zero ?round hstart
  case zero =>
    rintro ⟨found, pending⟩ ⟨done, hexplored, hfuel⟩
    have hle : done.length + pending.length ≤ _ := hexplored.length_le
    obtain rfl : pending = [] := List.eq_nil_of_length_eq_zero (by omega)
    rfl
  case round =>
    rintro fuel s s' ⟨done, hexplored, hfuel⟩ hbody
    obtain ⟨v, hnext⟩ := hexplored.round hbody
    have hlength : (done ++ [v]).length = done.length + 1 := List.length_append
    exact ⟨done ++ [v], hnext, by omega⟩

/-- In the end all has been visited, or a group is not there. -/
theorem explored_or_error (p : Package) (values stored : List ItemField) :
    (∃ done found, instanceSchemas p values stored = .ok found ∧
        Explored p values stored done [] found) ∨
      ∃ S owner F e, Visitable p (S, owner) ∧ F ∈ S.groupFields ∧ groupSchema p F = .error e := by
  obtain ⟨⟨found, pending⟩, ⟨done, hexplored⟩, hdone⟩ :=
    (ends_instanceSchemas p values stored).last
      (I := fun s => ∃ done, Explored p values stored done s.2 s.1)
      (fun _ _ ⟨_, h⟩ hbody => (h.round hbody).elim fun _ h => ⟨_, h⟩) ⟨[], .start⟩
  rcases pending with _ | ⟨⟨S, owner⟩, pending⟩
  · exact .inl ⟨done, found, (Sum.inl.inj hdone).symm, hexplored⟩
  · rw [visitBody] at hdone
    split at hdone
    · rename_i e hvisit
      obtain ⟨F, hF, hfails⟩ := exists_of_visitHosts_error hvisit
      have hgovern := hexplored.governed.pending _ (List.mem_append_right _ List.mem_cons_self)
      exact .inr ⟨S, owner, F, e, hgovern.visitable, hF, hfails⟩
    · cases hdone

/-! ## Who is known -/

/-- Group fields that list the same instance embed the same group. -/
def GroupsAgree (p : Package) (lists : Slot → InstanceId → Prop) : Prop :=
  ∀ S owner S' owner', Governs p lists S owner → Governs p lists S' owner' →
    ∀ F ∈ S.groupFields, ∀ F' ∈ S'.groupFields, ∀ i,
      lists ⟨F.id, owner⟩ i → lists ⟨F'.id, owner'⟩ i → F.group? = F'.group?

/-- They do if fields differ in their ids and each instance is listed by fields of one
group. -/
theorem groupsAgree_of_listedByOneGroup (hapart : p.FieldsApart)
    (hone : ListedByOneGroup p values) : GroupsAgree p (Lists values) := by
  rintro S owner S' owner' hS hS' F hF F' hF' i ⟨e, he, hi⟩ ⟨e', he', hi'⟩
  exact hone e (mem_of_valueAt? he) e' (mem_of_valueAt? he') i hi hi'
    F (field?_of_valueAt? hapart hS.visitable.mem (Schema.mem_groupFields.mp hF).1 he)
    F' (field?_of_valueAt? hapart hS'.visitable.mem (Schema.mem_groupFields.mp hF').1 he')

/-- Then there is one schema for each owner. -/
theorem GroupsAgree.schema_eq {lists : Slot → InstanceId → Prop} (h : GroupsAgree p lists)
    {S S' : Schema} {owner : Option InstanceId} (hS : Governs p lists S owner)
    (hS' : Governs p lists S' owner) : S = S' := by
  cases hS with
  | top =>
    cases hS' with
    | top => rfl
  | inner hhost hF hG hi =>
    cases hS' with
    | inner hhost' hF' hG' hi' =>
      have hgroup := h _ _ _ _ hhost hhost' _ hF _ hF' _ hi hi'
      exact Except.ok.inj ((groupSchema_congr hgroup hG).symm.trans hG')

/-- **Whatever the values follow has been visited.** -/
theorem Explored.mem_of_governs {done : List Visit} {found : Found}
    (h : Explored p values stored done [] found) (hagree : GroupsAgree p (ListsOver values stored))
    {S : Schema} {owner : Option InstanceId} (hS : Governs p (ListsOver values stored) S owner) :
    (S, owner) ∈ done := by
  have hroot := h.root
  have hmet := h.met
  have hgoverned := h.governed.pending
  rw [List.append_nil] at hroot hgoverned
  simp only [List.append_nil] at hmet
  have hvisited : ∀ o, o ∈ done.map Prod.snd → ∀ T, Governs p (ListsOver values stored) T o →
      (T, o) ∈ done := by
    intro o ho T hT
    obtain ⟨⟨T', _⟩, hv, rfl⟩ := List.mem_map.mp ho
    rwa [hagree.schema_eq hT (hgoverned _ hv)]
  induction hS with
  | top => exact hvisited none hroot _ .top
  | inner hhost hF hG hi ih =>
    exact hvisited _ ((hmet _).mp (h.followed _ ih _ hF _ hi)) _ (.inner hhost hF hG hi)

/-- **An instance is known** under the schema that its values follow, and otherwise it
is not known. -/
theorem lookup_instanceSchemas (hagree : GroupsAgree p (ListsOver values stored))
    (hgroups : p.HoldsGroups) :
    ∃ found, instanceSchemas p values stored = .ok found ∧
      ∀ i S, found.lookup i = some S ↔ Governs p (ListsOver values stored) S (some i) := by
  rcases explored_or_error p values stored with
    ⟨done, found, hfound, hexplored⟩ | ⟨S, owner, F, e, hvisit, hF, hfails⟩
  · refine ⟨found, hfound, fun i S => ⟨governs_of_instanceSchemas hfound, fun hS => ?_⟩⟩
    have hmem := List.mem_map_of_mem (f := Prod.snd) (hexplored.mem_of_governs hagree hS)
    rw [← List.append_nil done] at hmem
    obtain ⟨S', hS'⟩ := Option.isSome_iff_exists.mp ((hexplored.met i).mpr hmem)
    rw [hS', hagree.schema_eq hS (governs_of_instanceSchemas hfound hS')]
  · obtain ⟨g, G, hg, hG⟩ := groupSchema_of_holdsGroups hgroups hvisit hF
    cases hfails.symm.trans (groupSchema_iff.mpr ⟨g, hg, hG⟩)

end Embedding

end ContentStore
