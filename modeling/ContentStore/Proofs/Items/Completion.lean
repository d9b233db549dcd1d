import ContentStore.Proofs.Items.Input
import ContentStore.Proofs.Loops
import Mathlib.Data.List.Nodup

/-!
# What completing visits

Completing goes through the item schema and then through the schemas of the
instances that it comes to know.  Each owner is visited once, so that what has
been found for it stays as it is (`Visits.step`), and there are no more of them
than instances listed in values and in defaults, so that the visits end
(`ends_complete`).  In the end every instance has been visited that is listed for a
visited owner, with the schema of one of the group fields that list it
(`visits_of_completed`).
-/

namespace ContentStore

/-- The first value in the slot lists the instance. -/
def Lists (values : List ItemField) (s : Slot) (i : InstanceId) : Prop :=
  ∃ e ∈ valueAt? values s, i ∈ e.value.groups

instance (values : List ItemField) (s : Slot) (i : InstanceId) : Decidable (Lists values s i) :=
  inferInstanceAs (Decidable (∃ e ∈ valueAt? values s, i ∈ e.value.groups))

theorem mem_listed_iff {values : List ItemField} {s : Slot} {i : InstanceId} :
    i ∈ ((valueAt? values s).map fun f => f.value.groups).getD [] ↔ Lists values s i := by
  unfold Lists
  cases valueAt? values s <;> simp

namespace Embedding

variable {p : Package}

/-! ## The instances of one owner -/

/-- The new instances are the listed ones that were not seen before. -/
theorem mem_newInstances {seen is : List InstanceId} {i : InstanceId} :
    i ∈ newInstances seen is ↔ i ∈ is ∧ i ∉ seen := by
  induction is generalizing seen with
  | nil => simp [newInstances]
  | cons j js ih =>
    unfold newInstances
    by_cases hj : j ∈ seen
    · rw [if_pos (List.contains_iff_mem.mpr hj), ih, List.mem_cons]
      constructor
      · exact fun h => ⟨.inr h.1, h.2⟩
      · rintro ⟨rfl | hi, hseen⟩
        · exact (hseen hj).elim
        · exact ⟨hi, hseen⟩
    · rw [if_neg fun h => hj (List.contains_iff_mem.mp h), List.mem_append, ih,
        List.mem_singleton, List.mem_cons, List.mem_cons, not_or]
      by_cases hij : i = j
      · subst hij
        simp [hj]
      · simp [hij]

theorem nodup_newInstances (seen is : List InstanceId) : (newInstances seen is).Nodup := by
  induction is generalizing seen with
  | nil => exact List.nodup_nil
  | cons j js ih =>
    unfold newInstances
    split
    · exact ih seen
    · rw [List.nodup_append]
      refine ⟨ih _, List.nodup_singleton j, fun i hi k hk => ?_⟩
      rw [List.mem_singleton.mp hk]
      rintro rfl
      exact (mem_newInstances.mp hi).2 List.mem_cons_self

/-- Instances with their schemas that are new among those listed in some group
fields of an owner. -/
structure Finds (p : Package) (owner : Option InstanceId) (values : List ItemField)
    (hosts : List Field) (seen : List InstanceId) (new : Found) : Prop where
  distinct : (new.map Prod.fst).Nodup
  fresh : ∀ i ∈ new.map Prod.fst, i ∉ seen
  listed : ∀ e ∈ new, ∃ F ∈ hosts, groupSchema p F = .ok e.2 ∧ Lists values ⟨F.id, owner⟩ e.1
  all : ∀ F ∈ hosts, ∀ i, Lists values ⟨F.id, owner⟩ i →
    (∃ inner, groupSchema p F = .ok inner) ∧ (i ∈ new.map Prod.fst ∨ i ∈ seen)

section Hosts

variable {owner : Option InstanceId} {values : List ItemField} {host : Field} {hosts : List Field}
  {seen : List InstanceId} {new : Found}

/-- A field that lists no instance has none to find. -/
theorem Finds.skip (h : Finds p owner values hosts seen new)
    (hnone : ∀ i, ¬ Lists values ⟨host.id, owner⟩ i) :
    Finds p owner values (host :: hosts) seen new where
  distinct := h.distinct
  fresh := h.fresh
  listed := fun e he => by
    obtain ⟨F, hF, hlists⟩ := h.listed e he
    exact ⟨F, List.mem_cons_of_mem _ hF, hlists⟩
  all := fun F hF i hi => by
    rcases List.mem_cons.mp hF with rfl | hF
    · exact (hnone i hi).elim
    · exact h.all F hF i hi

/-- The instances that a field lists are found unless they have been seen, and the
fields after it find further ones only. -/
theorem Finds.found {inner : Schema} {listed : List InstanceId}
    (h : Finds p owner values hosts (newInstances seen listed ++ seen) new)
    (hinner : groupSchema p host = .ok inner)
    (hlisted : ∀ i, i ∈ listed ↔ Lists values ⟨host.id, owner⟩ i) :
    Finds p owner values (host :: hosts) seen
      (new ++ (newInstances seen listed).map fun i => (i, inner)) := by
  have hkeys : (new ++ (newInstances seen listed).map fun i => (i, inner)).map Prod.fst =
      new.map Prod.fst ++ newInstances seen listed := by
    simp [Function.comp_def]
  constructor
  case distinct =>
    rw [hkeys, List.nodup_append]
    refine ⟨h.distinct, nodup_newInstances _ _, fun i hi j hj => ?_⟩
    rintro rfl
    exact h.fresh i hi (List.mem_append_left _ hj)
  case fresh =>
    intro i hi
    rw [hkeys, List.mem_append] at hi
    rcases hi with hi | hi
    · exact fun hseen => h.fresh i hi (List.mem_append_right _ hseen)
    · exact (mem_newInstances.mp hi).2
  case listed =>
    intro e he
    rcases List.mem_append.mp he with he | he
    · obtain ⟨F, hF, hlists⟩ := h.listed e he
      exact ⟨F, List.mem_cons_of_mem _ hF, hlists⟩
    · obtain ⟨i, hi, rfl⟩ := List.mem_map.mp he
      exact ⟨host, List.mem_cons_self, hinner, (hlisted i).mp (mem_newInstances.mp hi).1⟩
  case all =>
    intro F hF i hi
    rw [hkeys, List.mem_append]
    rcases List.mem_cons.mp hF with rfl | hF
    · refine ⟨⟨inner, hinner⟩, ?_⟩
      by_cases hseen : i ∈ seen
      · exact .inr hseen
      · exact .inl (.inr (mem_newInstances.mpr ⟨(hlisted i).mpr hi, hseen⟩))
    · obtain ⟨hschema, hi⟩ := h.all F hF i hi
      rw [List.mem_append] at hi
      exact ⟨hschema, or_assoc.mpr hi⟩

/-- A visit finds the instances that its group fields list and that were not seen before,
and these are to be visited next. -/
theorem finds_of_pendingHosts {seen' : List InstanceId} {pending pending' : List Visit}
    (h : pendingHosts p owner values hosts seen pending = .ok (seen', pending')) :
    ∃ new : Found, Finds p owner values hosts seen new ∧ seen' = new.map Prod.fst ++ seen ∧
      pending' = new.map (fun e => (e.2, some e.1)) ++ pending := by
  induction hosts generalizing seen pending with
  | nil =>
    cases h
    refine ⟨[], ⟨List.nodup_nil, ?_, ?_, ?_⟩, rfl, rfl⟩ <;>
      exact fun _ h => (List.not_mem_nil h).elim
  | cons host hosts ih =>
    unfold pendingHosts at h
    dsimp only at h
    split at h
    · rename_i hempty
      obtain ⟨new, hnew, hseen, hpending⟩ := ih h
      refine ⟨new, hnew.skip fun i hi => ?_, hseen, hpending⟩
      rw [← mem_listed_iff, List.isEmpty_iff.mp hempty] at hi
      exact List.not_mem_nil hi
    · split at h
      · cases h
      · rename_i inner hinner
        obtain ⟨new, hnew, rfl, rfl⟩ := ih h
        refine ⟨_, hnew.found hinner fun i => mem_listed_iff, ?_, ?_⟩ <;>
          simp [Function.comp_def]

end Hosts

/-! ## Visiting one owner after the other -/

/-- What has been visited and what is still to be visited.  Each owner is there
once; the visited ones are complete, and what is listed for them has been seen. -/
structure Visits (p : Package) (done pending : List Visit) (seen : List InstanceId)
    (values : List ItemField) : Prop where
  distinct : ((done ++ pending).map Prod.snd).Nodup
  root : (p.schema, none) ∈ done ++ pending
  visitable : ∀ v ∈ done ++ pending, Visitable p v
  met : ∀ i, i ∈ seen ↔ some i ∈ (done ++ pending).map Prod.snd
  complete : ∀ v ∈ done, Complete v.1 v.2 values
  followed : ∀ v ∈ done, ∀ F ∈ v.1.groupFields, ∀ i, Lists values ⟨F.id, v.2⟩ i →
    (∃ inner, groupSchema p F = .ok inner) ∧ i ∈ seen
  listed : ∀ s i, (s, some i) ∈ done ++ pending →
    ∃ v ∈ done, ∃ F ∈ v.1.groupFields, groupSchema p F = .ok s ∧ Lists values ⟨F.id, v.2⟩ i

/-- What is filled in for an owner is not looked at for those visited before. -/
theorem Visits.stays {done pending : List Visit} {seen : List InstanceId}
    {values more : List ItemField} {s : Schema} {owner : Option InstanceId} {v : Visit}
    (h : Visits p done ((s, owner) :: pending) seen values) (hv : v ∈ done)
    (hmore : ∀ e ∈ more, e.group = owner) (f : FieldId) :
    valueAt? (values ++ more) ⟨f, v.2⟩ = valueAt? values ⟨f, v.2⟩ := by
  have hother : valueAt? more ⟨f, v.2⟩ = none := by
    refine valueAt?_eq_none.mpr fun e he hslot => ?_
    have hgroup : e.group = v.2 := congrArg Slot.owner hslot
    have hdistinct := h.distinct
    rw [List.map_append, List.nodup_append] at hdistinct
    refine hdistinct.2.2 v.2 (List.mem_map_of_mem hv) owner List.mem_cons_self ?_
    rw [← hgroup, hmore e he]
  rw [valueAt?_append, hother, Option.or_none]

/-- A visit moves its owner to those visited, and adds what it found. -/
theorem perm_of_visit (done pending : List Visit) (v : Visit) (new : Found) :
    (done ++ [v] ++ (new.map (fun e => (e.2, some e.1)) ++ pending)).Perm
      (new.map (fun e => (e.2, some e.1)) ++ (done ++ v :: pending)) := by
  rw [List.append_cons done v pending]
  exact List.perm_append_comm_assoc _ _ _

theorem mem_owners_of_visit {done pending : List Visit} {v : Visit} {new : Found}
    {o : Option InstanceId} :
    o ∈ (done ++ [v] ++ (new.map (fun e => (e.2, some e.1)) ++ pending)).map Prod.snd ↔
      o ∈ (new.map Prod.fst).map some ∨ o ∈ (done ++ v :: pending).map Prod.snd := by
  rw [((perm_of_visit done pending v new).map Prod.snd).mem_iff, List.map_append, List.mem_append,
    List.map_map, List.map_map]
  rfl

/-- Owners stay there once each if what a visit finds is new. -/
theorem nodup_owners_of_visit {done pending : List Visit} {v : Visit} {new : Found}
    (h : ((done ++ v :: pending).map Prod.snd).Nodup) (hnew : (new.map Prod.fst).Nodup)
    (hfresh : ∀ i ∈ new.map Prod.fst, some i ∉ (done ++ v :: pending).map Prod.snd) :
    ((done ++ [v] ++ (new.map (fun e => (e.2, some e.1)) ++ pending)).map Prod.snd).Nodup := by
  have howners : (new.map fun e => (e.2, some e.1)).map Prod.snd = (new.map Prod.fst).map some := by
    rw [List.map_map, List.map_map]
    rfl
  rw [((perm_of_visit done pending v new).map Prod.snd).nodup_iff, List.map_append, howners,
    List.nodup_append]
  refine ⟨hnew.map fun _ _ => Option.some.inj, h, fun o ho o' ho' => ?_⟩
  obtain ⟨i, hi, rfl⟩ := List.mem_map.mp ho
  rintro rfl
  exact hfresh i hi ho'

/-- There are no more owners than one for each known instance, and the top level. -/
theorem length_le_of_owners {visits : List Visit} {known : List InstanceId}
    (h : (visits.map Prod.snd).Nodup) (hknown : ∀ S i, (S, some i) ∈ visits → i ∈ known) :
    visits.length ≤ known.length + 1 := by
  have hsub : visits.map Prod.snd ⊆ none :: known.map some := by
    intro o ho
    obtain ⟨⟨S, _ | i⟩, hv, rfl⟩ := List.mem_map.mp ho
    · exact List.mem_cons_self
    · exact List.mem_cons_of_mem _ (List.mem_map_of_mem (hknown S i hv))
  have hle := (List.subperm_of_subset h hsub).length_le
  simpa using hle

/-- **A visit** completes its owner, and leaves alone what has been visited. -/
theorem Visits.step {done pending pending' : List Visit} {seen seen' : List InstanceId}
    {values values' : List ItemField} {s : Schema} {owner : Option InstanceId}
    (h : Visits p done ((s, owner) :: pending) seen values)
    (hfill : fillDefaults owner s.fields values = (values', .ok ()))
    (hhosts : pendingHosts p owner values' s.groupFields seen pending = .ok (seen', pending')) :
    Visits p (done ++ [(s, owner)]) pending' seen' values' := by
  obtain ⟨more, rfl, hmore, hcomplete⟩ := fillDefaults_eq_ok hfill
  obtain ⟨new, hnew, rfl, rfl⟩ := finds_of_pendingHosts hhosts
  have hperm := perm_of_visit done pending (s, owner) new
  have hstays : ∀ v ∈ done, ∀ f, valueAt? (values ++ more) ⟨f, v.2⟩ = valueAt? values ⟨f, v.2⟩ :=
    fun v hv => h.stays hv fun e he => (hmore e he).1
  have hlists : ∀ v ∈ done, ∀ f i, Lists (values ++ more) ⟨f, v.2⟩ i ↔ Lists values ⟨f, v.2⟩ i := by
    intro v hv f i
    rw [Lists, hstays v hv f]
    rfl
  constructor
  case distinct =>
    refine nodup_owners_of_visit h.distinct hnew.distinct fun i hi ho => ?_
    exact hnew.fresh i hi ((h.met i).mpr ho)
  case root => exact hperm.mem_iff.mpr (List.mem_append_right _ h.root)
  case visitable =>
    intro v hv
    rcases List.mem_append.mp (hperm.mem_iff.mp hv) with hv | hv
    · obtain ⟨e, he, rfl⟩ := List.mem_map.mp hv
      obtain ⟨F, -, hschema, -⟩ := hnew.listed e he
      exact .inr ⟨rfl, mem_of_groupSchema hschema⟩
    · exact h.visitable v hv
  case met =>
    intro i
    rw [mem_owners_of_visit, List.mem_map_of_injective fun _ _ => Option.some.inj, ← h.met,
      List.mem_append]
  case complete =>
    intro v hv
    rcases List.mem_append.mp hv with hv | hv
    · intro f hf
      rw [hstays v hv]
      exact h.complete v hv f hf
    · rw [List.mem_singleton.mp hv]
      exact hcomplete
  case followed =>
    intro v hv F hF i hi
    rcases List.mem_append.mp hv with hv | hv
    · obtain ⟨hschema, hseen⟩ := h.followed v hv F hF i ((hlists v hv _ i).mp hi)
      exact ⟨hschema, List.mem_append_right _ hseen⟩
    · rw [List.mem_singleton.mp hv] at hF hi
      obtain ⟨hschema, hseen⟩ := hnew.all F hF i hi
      exact ⟨hschema, List.mem_append.mpr hseen⟩
  case listed =>
    intro s' i hv
    rcases List.mem_append.mp (hperm.mem_iff.mp hv) with hv | hv
    · obtain ⟨e, he, heq⟩ := List.mem_map.mp hv
      cases heq
      obtain ⟨F, hF, hschema, hi⟩ := hnew.listed e he
      exact ⟨_, List.mem_append_right _ (List.mem_singleton_self _), F, hF, hschema, hi⟩
    · obtain ⟨v, hv, F, hF, hschema, hi⟩ := h.listed s' i hv
      exact ⟨v, List.mem_append_left _ hv, F, hF, hschema, (hlists v hv _ i).mpr hi⟩

/-- What a default lists is known beforehand. -/
theorem mem_listedByDefault {s : Schema} {owner : Option InstanceId} {f : Field} {vs : Values}
    {i : InstanceId} (hvisit : Visitable p (s, owner)) (hf : f ∈ s.fields)
    (h : f.prepare .null = .ok vs) (hi : i ∈ vs.groups) : i ∈ listedByDefault p := by
  refine List.mem_flatMap.mpr ⟨s, hvisit.mem_schemas, List.mem_flatMap.mpr ⟨f, hf, ?_⟩⟩
  rw [Field.prepare_null h] at hi
  cases hdefault : f.default with
  | none =>
    rw [hdefault] at hi
    exact (List.not_mem_nil hi).elim
  | some d =>
    rw [hdefault] at hi
    exact hi

/-- There are no more owners than one for each instance that is listed, and the
top level. -/
theorem Visits.length_le {done pending : List Visit} {seen known : List InstanceId}
    {values : List ItemField} (h : Visits p done pending seen values)
    (hknown : ∀ e ∈ values, ∀ i ∈ e.value.groups, i ∈ known) :
    done.length + pending.length ≤ known.length + 1 := by
  rw [← List.length_append]
  refine length_le_of_owners h.distinct fun S i hv => ?_
  obtain ⟨v, -, F, -, -, e, he, hi⟩ := h.listed S i hv
  exact hknown e (mem_of_valueAt? he) i hi

/-- One visit, with the instances seen, the schemas to be visited and the values so
far. -/
def completeBody (p : Package) :
    List InstanceId × List Visit × List ItemField → (List ItemField × Except Error Unit) ⊕
      (List InstanceId × List Visit × List ItemField)
  | (_, [], values) => .inl (values, .ok ())
  | (seen, (s, owner) :: pending, values) =>
    match fillDefaults owner s.fields values with
    | (values, .error e) => .inl (values, .error e)
    | (values, .ok ()) =>
      match pendingHosts p owner values s.groupFields seen pending with
      | .error e => .inl (values, .error e)
      | .ok (seen, pending) => .inr (seen, pending, values)

theorem Visits.start (values : List ItemField) :
    Visits p [] [(p.schema, none)] [] values where
  distinct := List.nodup_singleton _
  root := List.mem_singleton_self _
  visitable := fun v hv => .inl (List.mem_singleton.mp hv)
  met := by simp
  complete := fun _ h => (List.not_mem_nil h).elim
  followed := fun _ h => (List.not_mem_nil h).elim
  listed := fun s i hv => nomatch List.mem_singleton.mp hv

/-- A round is a visit, unless it is the last one.  It adds what defaults list at
most. -/
theorem Visits.round {done : List Visit} {s s' : List InstanceId × List Visit × List ItemField}
    (h : Visits p done s.2.1 s.1 s.2.2) (hbody : completeBody p s = .inr s') :
    (∃ v, Visits p (done ++ [v]) s'.2.1 s'.1 s'.2.2) ∧
      ∀ e ∈ s'.2.2, ∀ i ∈ e.value.groups, e ∈ s.2.2 ∨ i ∈ listedByDefault p := by
  obtain ⟨seen, _ | ⟨⟨S, owner⟩, pending⟩, values⟩ := s
  · cases hbody
  · rw [completeBody] at hbody
    split at hbody
    · cases hbody
    · rename_i values' hfill
      split at hbody
      · cases hbody
      · rename_i hhosts
        cases hbody
        refine ⟨⟨_, h.step hfill hhosts⟩, fun e he i hi => ?_⟩
        obtain ⟨more, rfl, hmore, -⟩ := fillDefaults_eq_ok hfill
        rcases List.mem_append.mp he with he | he
        · exact .inl he
        · obtain ⟨-, ⟨f, hf, -, hprepare⟩, -⟩ := hmore e he
          have hvisit := h.visitable _ (List.mem_append_right _ List.mem_cons_self)
          exact .inr (mem_listedByDefault hvisit hf hprepare hi)

theorem completeAll_succ (fuel : Nat) (s : List InstanceId × List Visit × List ItemField) :
    completeAll p (fuel + 1) s.1 s.2.1 s.2.2 =
      (completeBody p s).elim id fun s => completeAll p fuel s.1 s.2.1 s.2.2 := by
  obtain ⟨seen, _ | ⟨⟨S, owner⟩, pending⟩, values⟩ := s
  · rfl
  · simp only [completeAll, completeBody]
    rcases fillDefaults owner S.fields values with ⟨values', _ | _⟩
    · rfl
    · dsimp only
      cases pendingHosts p owner values' S.groupFields seen pending <;> rfl

/-- **The visits end** with the completed values, or where something is missing. -/
theorem ends_complete (p : Package) (values : List ItemField) :
    Ends (completeBody p) ([], [(p.schema, none)], values) (complete p values) := by
  let known : List InstanceId := listedIn values ++ listedByDefault p
  let Enough (fuel : Nat) (s : List InstanceId × List Visit × List ItemField) : Prop :=
    ∃ done, Visits p done s.2.1 s.1 s.2.2 ∧ (∀ e ∈ s.2.2, ∀ i ∈ e.value.groups, i ∈ known) ∧
      known.length < fuel + done.length
  have hlisted : ∀ e ∈ values, ∀ i ∈ e.value.groups, i ∈ known :=
    fun e he i hi => List.mem_append_left _ (List.mem_flatMap.mpr ⟨e, he, hi⟩)
  have hstart : Enough ((listedIn values).length + (listedByDefault p).length + 1)
      ([], [(p.schema, none)], values) := ⟨[], .start values, hlisted, by simp [known]⟩
  refine ends_of_fuel (fun fuel s => completeAll p fuel s.1 s.2.1 s.2.2) Enough
    completeAll_succ ?zero ?round hstart
  case zero =>
    rintro ⟨seen, pending, values⟩ ⟨done, hvisits, hknown, hfuel⟩
    have hle : done.length + pending.length ≤ known.length + 1 := hvisits.length_le hknown
    obtain rfl : pending = [] := List.eq_nil_of_length_eq_zero (by omega)
    rfl
  case round =>
    rintro fuel s s' ⟨done, hvisits, hknown, hfuel⟩ hbody
    obtain ⟨⟨v, hnext⟩, hmore⟩ := hvisits.round hbody
    have hlength : (done ++ [v]).length = done.length + 1 := List.length_append
    refine ⟨done ++ [v], hnext, fun e he i hi => ?_, by omega⟩
    rcases hmore e he i hi with he | hi
    · exact hknown e he i hi
    · exact List.mem_append_right _ hi

/-- **Completing visits every instance** that is listed for a visited owner. -/
theorem visits_of_completed {values values' : List ItemField}
    (h : completed p values = .ok values') :
    ∃ visited seen, Visits p visited [] seen values' := by
  unfold completed at h
  split at h
  · rename_i hcomplete
    cases h
    have hends := ends_complete p values
    rw [hcomplete] at hends
    obtain ⟨⟨seen, pending, values⟩, ⟨done, hvisits⟩, hlast⟩ := hends.last
      (I := fun s => ∃ done, Visits p done s.2.1 s.1 s.2.2)
      (fun _ _ ⟨_, h⟩ hbody => (h.round hbody).1.elim fun _ h => ⟨_, h⟩) ⟨[], .start values⟩
    rcases pending with _ | ⟨⟨S, owner⟩, pending⟩
    · cases hlast
      exact ⟨done, seen, hvisits⟩
    · rw [completeBody] at hlast
      split at hlast
      · cases hlast
      · split at hlast <;> cases hlast
  · cases h

/-- An instance that a visited owner lists has been visited with the schema of the
group, if no field of another group lists it for a visited owner.  It was found for
some field that lists it, which is one of the same group. -/
theorem visited_of_listed {visited : List Visit} {seen : List InstanceId}
    {values : List ItemField} {S : Schema} {owner : Option InstanceId} {F : Field} {i : InstanceId}
    (hvisits : Visits p visited [] seen values) (hvisited : (S, owner) ∈ visited)
    (hF : F ∈ S.groupFields) (hi : Lists values ⟨F.id, owner⟩ i)
    (hsame : ∀ v ∈ visited, ∀ F' ∈ v.1.groupFields, Lists values ⟨F'.id, v.2⟩ i →
      F'.group? = F.group?) :
    ∃ G, groupSchema p F = .ok G ∧ (G, some i) ∈ visited := by
  obtain ⟨-, hseen⟩ := hvisits.followed _ hvisited F hF i hi
  obtain ⟨⟨G, o⟩, hG, heq⟩ := List.mem_map.mp ((hvisits.met i).mp hseen)
  obtain rfl : o = some i := heq
  obtain ⟨v, hv, F', hF', hschema, hlists⟩ := hvisits.listed G i hG
  rw [List.append_nil] at hG
  exact ⟨G, groupSchema_congr (hsame v hv F' hF' hlists) hschema, hG⟩

end Embedding

end ContentStore
