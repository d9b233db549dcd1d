import ContentStore.Proofs.Reachable

/-!
# No group embeds itself

A schema nests another when one of its fields embeds a group of that other
schema.  Each field that newly embeds a group was checked by a search from that
group which did not meet the schema being changed (`Tables.Clear`).  So the
schema cannot be reached from the far end of any new edge, and a graph that such
edges are added to stays without cycles (`acyclic_of_new`).  It does not matter
how many fields of a schema change in one batch: what one change draws is
there for the search of the next.

All else that is done to the catalog leaves the edges as they are or takes some
away (`Tables.Nested.of_fewer`).  In every reachable store, then, no schema nests
itself (`Store.acyclic_of_reachable`).
-/

namespace ContentStore

open Relation

/-! ## Graphs with new edges -/

section Graph

variable {α : Type} {old new : α → α → Prop} {host : α}

/-- A path leads along old edges, or passes `host` and takes a new edge there. -/
theorem path_cases (hedge : ∀ a b, new a b → old a b ∨ a = host ∧ ¬ ReflTransGen old b host)
    {a b : α} (h : TransGen new a b) : TransGen old a b ∨
      ∃ c, ReflTransGen new a host ∧ ¬ ReflTransGen old c host ∧ ReflTransGen new c b := by
  induction h with
  | @single b hab =>
    rcases hedge a b hab with hold | ⟨rfl, hnew⟩
    · exact .inl (.single hold)
    · exact .inr ⟨b, .refl, hnew, .refl⟩
  | @tail b c hpath hbc ih =>
    rcases ih with hold | ⟨d, had, hnew, hdb⟩
    · rcases hedge b c hbc with hbc' | ⟨rfl, hnew⟩
      · exact .inl (hold.tail hbc')
      · exact .inr ⟨c, hpath.to_reflTransGen, hnew, .refl⟩
    · exact .inr ⟨d, had, hnew, hdb.tail hbc⟩

/-- From where `host` was out of reach it stays so, since no edge is new there. -/
theorem old_path_of_clear (hedge : ∀ a b, new a b → old a b ∨ a = host ∧ ¬ ReflTransGen old b host)
    {a b : α} (hclear : ¬ ReflTransGen old a host) (h : ReflTransGen new a b) :
    ReflTransGen old a b := by
  induction h with
  | refl => exact .refl
  | @tail b c _ hbc ih =>
    rcases hedge b c hbc with hold | ⟨rfl, -⟩
    · exact ih.tail hold
    · exact (hclear ih).elim

/-- **New edges from `host` to where it is out of reach close no cycle.** -/
theorem acyclic_of_new (hold : ∀ a, ¬ TransGen old a a)
    (hedge : ∀ a b, new a b → old a b ∨ a = host ∧ ¬ ReflTransGen old b host) (a : α) :
    ¬ TransGen new a a := by
  intro hcycle
  rcases path_cases hedge hcycle with hcycle | ⟨c, hhost, hclear, hback⟩
  · exact hold a hcycle
  · exact hclear (old_path_of_clear hedge hclear (hback.trans hhost))

end Graph

namespace Tables

variable {n m : Nat} {t u : Tables} {host : SchemaId}

/-- A field of the one schema embeds a group of the other. -/
def Nests (t : Tables) (a b : SchemaId) : Prop :=
  ∃ S ∈ t.schemas, S.id = a ∧ ∃ F ∈ S.fields, ∃ G ∈ t.groups, F.type = .group G.id ∧ G.schema = b

instance (t : Tables) (a b : SchemaId) : Decidable (t.Nests a b) :=
  inferInstanceAs (Decidable (∃ S ∈ t.schemas, S.id = a ∧ ∃ F ∈ S.fields, ∃ G ∈ t.groups,
    F.type = .group G.id ∧ G.schema = b))

theorem nests_iff {a b : SchemaId} : t.Nests a b ↔
    ∃ S ∈ t.schemas, S.id = a ∧ ∃ G ∈ t.groups, G.id ∈ S.embedded ∧ G.schema = b := by
  simp only [Nests, Schema.mem_embedded, Field.group?_eq_some]
  constructor
  · intro hex
    obtain ⟨S, hS, ha, F, hF, G, hG, htype, hb⟩ := hex
    exact ⟨S, hS, ha, G, hG, ⟨F, hF, htype⟩, hb⟩
  · intro hex
    obtain ⟨S, hS, ha, G, hG, ⟨F, hF, htype⟩, hb⟩ := hex
    exact ⟨S, hS, ha, F, hF, G, hG, htype, hb⟩

/-- Groups are told apart by their ids and by their keys, all groups embedded
are stored, and no schema nests itself at any depth. -/
structure Nested (n : Nat) (t : Tables) : Prop where
  groups_distinct : (t.groups.map Group.id).Nodup
  groups_given : ∀ G ∈ t.groups, G.id.Given n
  keys_apart : ∀ G ∈ t.groups, ∀ H ∈ t.groups, G.project = H.project → G.key = H.key → G = H
  stored : ∀ S ∈ t.schemas, ∀ g ∈ S.embedded, ∃ G ∈ t.groups, G.id = g
  acyclic : ∀ a, ¬ TransGen t.Nests a a

theorem nested_empty (n : Nat) : Nested n empty where
  groups_distinct := List.nodup_nil
  groups_given := fun _ h => (List.not_mem_nil h).elim
  keys_apart := fun _ h => (List.not_mem_nil h).elim
  stored := fun _ h => (List.not_mem_nil h).elim
  acyclic := by
    intro a hcycle
    obtain ⟨b, ⟨S, hS, -⟩, -⟩ := TransGen.head'_iff.mp hcycle
    exact List.not_mem_nil hS

namespace Nested

theorem group_eq (h : Nested n t) {G H : Group} (hG : G ∈ t.groups) (hH : H ∈ t.groups)
    (hid : G.id = H.id) : G = H :=
  List.inj_on_of_nodup_map h.groups_distinct hG hH hid

/-- A stored group is found under its id. -/
theorem group?_of_mem (h : Nested n t) {G : Group} (hG : G ∈ t.groups) :
    t.group? G.id = some G :=
  find?_of_nodup h.groups_distinct hG

/-- **Groups stay nested when schemas embed no more than before.** -/
theorem of_fewer (h : Nested n t) (hle : n ≤ m) (hgroups : u.groups = t.groups)
    (hschemas : ∀ S' ∈ u.schemas, ∀ g ∈ S'.embedded, ∃ S ∈ t.schemas, S.id = S'.id ∧
      g ∈ S.embedded) : Nested m u where
  groups_distinct := by
    rw [hgroups]
    exact h.groups_distinct
  groups_given := by
    rw [hgroups]
    exact fun G hG => (h.groups_given G hG).mono hle
  keys_apart := by
    rw [hgroups]
    exact h.keys_apart
  stored := by
    rw [hgroups]
    intro S' hS' g hg
    obtain ⟨S, hS, -, hg⟩ := hschemas S' hS' g hg
    exact h.stored S hS g hg
  acyclic := by
    intro a hcycle
    refine h.acyclic a (TransGen.mono (fun b c hbc => ?_) a a hcycle)
    obtain ⟨S', hS', rfl, G, hG, hg, hc⟩ := nests_iff.mp hbc
    obtain ⟨S, hS, hid, hg⟩ := hschemas S' hS' G.id hg
    exact nests_iff.mpr ⟨S, hS, hid, G, hgroups ▸ hG, hg, hc⟩

/-! ## Redrawn schemas -/

/-- From a group that may be embedded, the schema is out of reach. -/
theorem clear (h : Nested n t) (hd : (t.schemas.map Schema.id).Nodup) {G : Group}
    (hG : G ∈ t.groups) (hclear : t.Clear host G.id) : ¬ ReflTransGen t.Nests G.schema host := by
  obtain ⟨ids, hmem, hids⟩ := hclear
  -- wherever a path leads, it ends at a schema of the groups of the list
  have hends : ∀ c, ReflTransGen t.Nests G.schema c →
      ∃ H ∈ t.groups, H.id ∈ ids ∧ H.schema = c := by
    intro c hpath
    induction hpath with
    | refl => exact ⟨G, hG, hmem, rfl⟩
    | @tail b c _ hbc ih =>
      obtain ⟨H, hH, hHids, rfl⟩ := ih
      obtain ⟨S, hS, hSid, K, hK, hKS, hc⟩ := nests_iff.mp hbc
      obtain ⟨H', S', hH', hS', -, hembedded⟩ := hids H.id hHids
      obtain rfl := Option.some.inj ((h.group?_of_mem hH).symm.trans hH')
      obtain ⟨hS'mem, hS'id⟩ := mem_of_schema (schema_eq_ok.mpr hS')
      obtain rfl := List.inj_on_of_nodup_map hd hS hS'mem (hSid.trans hS'id.symm)
      exact ⟨K, hK, hembedded K.id hKS, hc⟩
  intro hpath
  obtain ⟨H, hH, hHids, hschema⟩ := hends host hpath
  obtain ⟨H', S', hH', hS', hne, -⟩ := hids H.id hHids
  obtain rfl := Option.some.inj ((h.group?_of_mem hH).symm.trans hH')
  exact hne ((mem_of_schema (schema_eq_ok.mpr hS')).2.trans hschema)

/-- **Redrawing a schema keeps groups nested.** -/
theorem redraws (h : Nested n t) (hd : (t.schemas.map Schema.id).Nodup) (hu : t.Redraws host u) :
    Nested n u := by
  have hgroups : u.groups = t.groups := by rw [hu.rest]
  refine ⟨by rw [hgroups]; exact h.groups_distinct, by rw [hgroups]; exact h.groups_given,
    by rw [hgroups]; exact h.keys_apart, ?_, ?_⟩
  · rw [hgroups]
    intro S' hS' g hg
    obtain ⟨S, hS, hredrawn, -⟩ := hu.back S' hS'
    rcases hredrawn.embedded g hg with hg | ⟨-, ids, hmem, hids⟩
    · exact h.stored S hS g hg
    · obtain ⟨G, _, hG, -⟩ := hids g hmem
      exact ⟨G, List.mem_of_find?_eq_some hG, by simpa using List.find?_some hG⟩
  · have hedge : ∀ a b, u.Nests a b →
        t.Nests a b ∨ a = host ∧ ¬ ReflTransGen t.Nests b host := ?_
    · exact acyclic_of_new h.acyclic hedge
    intro a b hab
    obtain ⟨S', hS', rfl, G, hG, hg, rfl⟩ := nests_iff.mp hab
    rw [hgroups] at hG
    obtain ⟨S, hS, hredrawn, -⟩ := hu.back S' hS'
    rcases hredrawn.embedded G.id hg with hg | ⟨hhost, hclear⟩
    · exact .inl (nests_iff.mpr ⟨S, hS, hredrawn.id.symm, G, hG, hg, rfl⟩)
    · exact .inr ⟨hredrawn.id.trans hhost, h.clear hd hG hclear⟩

/-- However often it is redrawn. -/
theorem retouches (h : Nested n t) (hd : (t.schemas.map Schema.id).Nodup)
    (hu : ReflTransGen (Retouches host) t u) : Nested n u := by
  induction hu with
  | refl => exact h
  | tail hpath hstep ih => exact ih.redraws ((back_of_retouches hpath).1.distinct hd) hstep.1

/-! ## New and changed groups -/

/-- A free key is the key of no stored group. -/
theorem free_of_groupByKey? {project : ProjectId} {key : String}
    (hkey : t.groupByKey? project key = none) :
    ∀ H ∈ t.groups, ¬ (H.project = project ∧ H.key = key) := by
  intro H hH hsame
  have hall := List.find?_eq_none.mp hkey H hH
  simp [hsame] at hall

/-- A group under a new id and a new key replaces no group. -/
theorem groups_newGroup (h : Nested n t) {G : Group} (hnew : ¬ G.id.Given n)
    (hkey : t.groupByKey? G.project G.key = none) :
    (t.saveGroup G).groups = t.groups ++ [G] := by
  simp only [saveGroup, saveRow]
  rw [List.filter_eq_self.mpr]
  intro H hH
  have hidne : G.id ≠ H.id := fun heq => hnew (heq ▸ h.groups_given H hH)
  have hkeyne := free_of_groupByKey? hkey H hH
  simp only [groupsClash]
  grind

/-- A new group is embedded by nothing. -/
theorem newGroup (h : Nested n t) {G : Group} (hid : G.id.Given m) (hnew : ¬ G.id.Given n)
    (hle : n ≤ m) (hkey : t.groupByKey? G.project G.key = none) : Nested m (t.saveGroup G) := by
  have hne : ∀ H ∈ t.groups, H.id ≠ G.id := fun H hH heq => hnew (heq ▸ h.groups_given H hH)
  have hfree := free_of_groupByKey? hkey
  have hgroups := h.groups_newGroup hnew hkey
  have hmem : ∀ {H}, H ∈ (t.saveGroup G).groups ↔ H ∈ t.groups ∨ H = G := by
    simp [hgroups]
  constructor
  case groups_distinct =>
    rw [hgroups, List.map_append, List.nodup_append]
    refine ⟨h.groups_distinct, by simp, fun a ha b hb => ?_⟩
    obtain ⟨H, hH, rfl⟩ := List.mem_map.mp ha
    rw [List.map_singleton, List.mem_singleton] at hb
    rw [hb]
    exact hne H hH
  case groups_given =>
    intro H hH
    rcases hmem.mp hH with hH | rfl
    · exact (h.groups_given H hH).mono hle
    · exact hid
  case keys_apart =>
    intro H hH K hK hproject hkey'
    rcases hmem.mp hH with hH' | rfl <;> rcases hmem.mp hK with hK' | rfl
    · exact h.keys_apart H hH' K hK' hproject hkey'
    · exact (hfree H hH' ⟨hproject, hkey'⟩).elim
    · exact (hfree K hK' ⟨hproject.symm, hkey'.symm⟩).elim
    · rfl
  case stored =>
    intro S hS g hg
    obtain ⟨H, hH, hHg⟩ := h.stored S hS g hg
    exact ⟨H, hmem.mpr (.inl hH), hHg⟩
  case acyclic =>
    intro a hcycle
    refine h.acyclic a (TransGen.mono (fun b c hbc => ?_) a a hcycle)
    obtain ⟨S, hS, hb, H, hH, hg, hc⟩ := nests_iff.mp hbc
    rcases hmem.mp hH with hH | rfl
    · exact nests_iff.mpr ⟨S, hS, hb, H, hH, hg, hc⟩
    · obtain ⟨K, hK, hKid⟩ := h.stored S hS _ hg
      exact (hne K hK hKid).elim

section Changed

variable {G G' : Group} (h : Nested n t) (hG : G ∈ t.groups) (hid : G'.id = G.id)
  (hproject : G'.project = G.project)
  (hkey : G'.key = G.key ∨ t.groupByKey? G.project G'.key = none)

include h hG hid hproject hkey

/-- A changed group takes the place of the group that it was, and of no other. -/
theorem clash_iff {H : Group} (hH : H ∈ t.groups) : groupsClash G' H = true ↔ H = G := by
  constructor
  · intro hclash
    simp only [groupsClash, hid, hproject, Bool.or_eq_true, Bool.and_eq_true,
      beq_iff_eq] at hclash
    rcases hclash with hsame | ⟨hproject', hkey'⟩
    · exact h.group_eq hH hG hsame.symm
    · rcases hkey with hkey | hfree
      · exact h.keys_apart H hH G hG hproject'.symm (hkey'.symm.trans hkey)
      · have hall := List.find?_eq_none.mp hfree H hH
        simp [hproject', hkey'] at hall
  · rintro rfl
    simp [groupsClash, hid]

theorem mem_changed {H : Group} :
    H ∈ (t.saveGroup G').groups ↔ H ∈ t.groups ∧ H ≠ G ∨ H = G' := by
  simp only [saveGroup, saveRow, List.mem_append, List.mem_filter, List.mem_singleton,
    Bool.not_eq_true']
  refine or_congr_left (and_congr_right fun hH => ?_)
  rw [← Bool.not_eq_true, h.clash_iff hG hid hproject hkey hH]

/-- A changed group keeps its id and its schema, and drives no other out. -/
theorem changedGroup (hschema : G'.schema = G.schema) : Nested n (t.saveGroup G') := by
  have hclash : ∀ {H}, H ∈ t.groups → (groupsClash G' H = true ↔ H = G) :=
    h.clash_iff hG hid hproject hkey
  have hmem : ∀ {H}, H ∈ (t.saveGroup G').groups ↔ H ∈ t.groups ∧ H ≠ G ∨ H = G' :=
    h.mem_changed hG hid hproject hkey
  -- every group there has one of the same id and schema before, and the other way round
  have hback : ∀ H ∈ (t.saveGroup G').groups,
      ∃ K ∈ t.groups, H.id = K.id ∧ H.schema = K.schema := by
    intro H hH
    rcases hmem.mp hH with ⟨hH, -⟩ | rfl
    · exact ⟨H, hH, rfl, rfl⟩
    · exact ⟨G, hG, hid, hschema⟩
  constructor
  case groups_distinct =>
    simp only [saveGroup, saveRow, List.map_append, List.nodup_append]
    refine ⟨h.groups_distinct.sublist (List.filter_sublist.map _), by simp, fun a ha b hb => ?_⟩
    obtain ⟨H, hH, rfl⟩ := List.mem_map.mp ha
    obtain ⟨hH, hclash'⟩ := List.mem_filter.mp hH
    rw [List.map_singleton, List.mem_singleton] at hb
    rw [hb, hid]
    intro heq
    rw [(hclash hH).mpr (h.group_eq hH hG heq)] at hclash'
    cases hclash'
  case groups_given =>
    intro H hH
    obtain ⟨K, hK, hHK, -⟩ := hback H hH
    rw [hHK]
    exact h.groups_given K hK
  case keys_apart =>
    -- the changed group clashes with none of the others
    have hapart : ∀ H ∈ t.groups, H ≠ G → ¬ (H.project = G'.project ∧ H.key = G'.key) := by
      intro H hH hne hsame
      refine hne ((hclash hH).mp ?_)
      simp [groupsClash, hsame]
    intro H hH K hK hproject' hkey'
    rcases hmem.mp hH with ⟨hH', hHne⟩ | rfl <;> rcases hmem.mp hK with ⟨hK', hKne⟩ | rfl
    · exact h.keys_apart H hH' K hK' hproject' hkey'
    · exact (hapart H hH' hHne ⟨hproject', hkey'⟩).elim
    · exact (hapart K hK' hKne ⟨hproject'.symm, hkey'.symm⟩).elim
    · rfl
  case stored =>
    intro S hS g hg
    obtain ⟨H, hH, hHg⟩ := h.stored S hS g hg
    by_cases heq : H = G
    · exact ⟨G', hmem.mpr (.inr rfl), by rw [hid, ← heq, hHg]⟩
    · exact ⟨H, hmem.mpr (.inl ⟨hH, heq⟩), hHg⟩
  case acyclic =>
    intro a hcycle
    refine h.acyclic a (TransGen.mono (fun b c hbc => ?_) a a hcycle)
    obtain ⟨S, hS, hb, H, hH, hg, hc⟩ := nests_iff.mp hbc
    obtain ⟨K, hK, hHK, hHK'⟩ := hback H hH
    exact nests_iff.mpr ⟨S, hS, hb, K, hK, hHK ▸ hg, hHK'.symm.trans hc⟩

end Changed

end Nested

/-! ## Every write -/

/-- New schemas embed nothing. -/
theorem Nested.withSchemas (h : Nested n t) {project : ProjectId} {workspace : WorkspaceId}
    (k : Nat) : Nested n (t.withSchemas project workspace n k) := by
  refine h.of_fewer (Nat.le_refl n) (by rw [rest_withSchemas]) fun S hS g hg => ?_
  rcases mem_withSchemas hS with hS | ⟨_, -, rfl⟩
  · exact ⟨S, hS, rfl, hg⟩
  · obtain ⟨F, hF, -⟩ := Schema.mem_embedded.mp hg
    exact (List.not_mem_nil hF).elim

/-- A group that is made stands last, and no other makes room for it. -/
theorem Nested.groups_made (h : Nested n t) {param : NewGroup}
    (hfree : t.groupByKey? param.project param.key = none) :
    ((t.withSchemas param.project param.workspace n 1).saveGroup (param.made n)).groups =
      t.groups ++ [param.made n] :=
  (h.withSchemas 1).groups_newGroup
    (fun hgiven => hgiven.ne_ofSerial (Nat.le_succ n) rfl) hfree

/-- The key of a changed group is its own or was free. -/
theorem key_of_newGroupKey {g : Group} {new : Option String} {key : String}
    (h : Write.newGroupKey t g new = .ok key) :
    key = g.key ∨ t.groupByKey? g.project key = none := by
  unfold Write.newGroupKey at h
  split at h
  · cases h
    exact .inl rfl
  · split at h
    · rename_i hsame
      cases h
      exact .inl hsame
    · split at h
      · cases h
      · split at h
        · cases h
        · rename_i hfree
          cases h
          exact .inr (by simpa using hfree)

/-- **Every write of the catalog keeps groups nested.** -/
theorem lasting_nested : Lasting Nested where
  empty := nested_empty
  same := fun hle hsame h => by
    refine h.of_fewer hle hsame.groups fun S hS g hg => ⟨S, ?_, rfl, hg⟩
    rwa [hsame.schemas] at hS
  step := by
    intro o n t m u hw h hreshapes
    cases hreshapes with
    | createsModel _ _ _ =>
      exact (h.withSchemas _).of_fewer (by omega) rfl fun S hS g hg => ⟨S, hS, rfl, hg⟩
    | @createsGroup param _ _ hfree =>
      refine (h.withSchemas 1).newGroup (n := n) ⟨n + 1, by omega, rfl⟩ ?_ (by omega) hfree
      exact fun hgiven => hgiven.ne_ofSerial (Nat.le_succ n) rfl
    | changesGroup hg _ _ hkey =>
      exact h.changedGroup (mem_of_group hg).1 rfl rfl (key_of_newGroupKey hkey) rfl
    | createsField _ _ hcreate =>
      exact (h.redraws hw.schemas_distinct (redraws_createField hcreate)).of_fewer (by omega)
        rfl fun S hS g hg => ⟨S, hS, rfl, hg⟩
    | updatesFields _ _ hupdate =>
      exact h.retouches hw.schemas_distinct (retouches_updateFields hw.schemas_distinct hupdate)
    | deletesField _ _ hdelete =>
      exact h.redraws hw.schemas_distinct (redraws_deleteField hdelete)

end Tables

namespace Store

/-- **In a reachable store no schema nests itself, at any depth**, and the group
of every group field is stored together with its schema. -/
theorem acyclic_of_reachable {s : Store} (hs : s.Reachable) :
    (∀ a, ¬ TransGen s.tables.Nests a a) ∧
      ∀ S ∈ s.tables.schemas, ∀ F ∈ S.fields, ∀ g, F.type = .group g →
        ∃ G T, s.tables.group? g = some G ∧ s.tables.schema? G.schema = some T := by
  have hnested := Tables.lasting_nested.reachable hs
  refine ⟨hnested.acyclic, fun S hS F hF g hg => ?_⟩
  have hembedded : g ∈ S.embedded :=
    Schema.mem_embedded.mpr ⟨F, hF, Field.group?_eq_some.mpr hg⟩
  obtain ⟨G, hG, rfl⟩ := hnested.stored S hS g hembedded
  have hused : G.schema ∈ s.tables.used := Tables.mem_used.mpr (.inr ⟨G, hG, rfl⟩)
  obtain ⟨T, hT, hid⟩ := hs.sane.wired.used_stored G.schema hused
  exact ⟨G, T, hnested.group?_of_mem hG, hid ▸ hs.sane.wired.schema?_of_mem hT⟩

section Boxes

/-- Large boxes hold small ones, and the attempt to let small ones hold large
ones. -/
def boxes : List Call := [
  .createGroup (.ofKey ⟨"project"⟩ ⟨"boxes"⟩ "large"),
  .createGroup (.ofKey ⟨"project"⟩ ⟨"boxes"⟩ "small"),
  .createField (.ofKey (.ofSerial 0) "content" (.group (.ofSerial 3))),
  .createField (.ofKey (.ofSerial 2) "content" (.group (.ofSerial 1)))]

/-- Large boxes hold small ones, and not the other way round. -/
theorem acyclic_of_boxes : ∃ s : Store, s.Reachable ∧
    s.tables.Nests (.ofSerial 0) (.ofSerial 2) ∧
    ¬ TransGen s.tables.Nests (.ofSerial 2) (.ofSerial 0) := by
  have hreach : (Call.afterAll (.maintainer ⟨"boxes"⟩) boxes
      (blank .standard ⟨⟨0, 0⟩, 1⟩ ⟨0⟩ .silent)).Reachable :=
    (reachable_blank _ _ _ _).evolves (evolves_afterAll _ _ _)
  have hnests : (Call.afterAll (.maintainer ⟨"boxes"⟩) boxes
      (blank .standard ⟨⟨0, 0⟩, 1⟩ ⟨0⟩ .silent)).tables.Nests (.ofSerial 0) (.ofSerial 2) := by
    decide +kernel
  exact ⟨_, hreach, hnests, fun hback => (acyclic_of_reachable hreach).1 _ (.head hnests hback)⟩

end Boxes

end Store

end ContentStore
