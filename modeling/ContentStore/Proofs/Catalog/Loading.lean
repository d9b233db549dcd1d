import ContentStore.Proofs.Catalog.Nesting
import ContentStore.Proofs.Catalog.Packages
import ContentStore.Proofs.Embedding.Reaching

/-!
# What a package loads

The groups of a package are loaded by the search that checks for cycles, in the
same order and with the same errors (`map_loadGroups`): it is the search for a
schema that is not there.  So what is known of that search holds here: it ends,
loads nothing twice, and loads just what lies within reach.  In a wired and nested
catalog all of this is stored, and nothing can fail (`exists_embeddedGroups`).
-/

namespace ContentStore.Tables

open Relation ContentStore.Embedding

variable {n : Nat} {t : Tables} {host : SchemaId} {start : GroupId}

/-- The schema of the one group embeds the other group. -/
def Leads (t : Tables) (a b : GroupId) : Prop :=
  ∃ G S, t.group? a = some G ∧ t.schema? G.schema = some S ∧ b ∈ S.embedded

/-- One of the schemas embeds the group, at some depth. -/
def Embedded (t : Tables) (schemas : List Schema) (g : GroupId) : Prop :=
  ∃ S ∈ schemas, ∃ a ∈ S.embedded, ReflTransGen t.Leads a g

/-! ## The search -/

theorem load_knownGroups (t : Tables) (id : GroupId) :
    t.knownGroups.load id = (t.group id).bind fun G => t.schema G.schema := by
  unfold Groups.load group
  rw [lookup_knownGroups]
  cases t.group? id <;> rfl

theorem load_knownGroups_eq_ok {id : GroupId} {S : Schema} :
    t.knownGroups.load id = .ok S ↔ ∃ G, t.group? id = some G ∧ t.schema? G.schema = some S := by
  rw [load_knownGroups]
  unfold group
  cases hG : t.group? id with
  | none => simp [Except.bind]
  | some G => simp [Except.bind, schema_eq_ok]

theorem embeds_knownGroups {a b : GroupId} : t.knownGroups.Embeds a b ↔ t.Leads a b := by
  simp only [Groups.Embeds, load_knownGroups_eq_ok, Leads]
  grind

theorem pending_knownGroups (t : Tables) :
    Groups.pending t.knownGroups.known [] = t.embeddings := by
  have hreveals : ∀ G : Group, Groups.reveals (t.schema G.schema) =
      ((t.schema? G.schema).map fun s => s.embedded.length).getD 0 := by
    intro G
    unfold schema
    cases t.schema? G.schema <;> rfl
  unfold embeddings knownGroups
  dsimp only
  induction t.groups with
  | nil => rfl
  | cons G Gs ih =>
    rw [List.map_cons, Groups.pending, if_neg List.not_mem_nil, ih, hreveals]
    rfl

/-- **Groups are loaded by the search** for a schema that is not stored. -/
theorem map_loadGroups (hhost : ∀ S ∈ t.schemas, S.id ≠ host) (fuel : Nat) (stack : List GroupId)
    (loaded : List (Group × Schema)) :
    (t.loadGroups fuel stack loaded).map (fun gs => (gs.map fun g => g.1.id).reverse) =
      follow t.knownGroups host start fuel stack (loaded.map fun g => g.1.id).reverse := by
  induction fuel generalizing stack loaded with
  | zero => rfl
  | succ fuel ih =>
    cases stack with
    | nil => rfl
    | cons id stack =>
      have hseen : (loaded.any fun g => g.1.id == id) =
          (loaded.map fun g => g.1.id).reverse.contains id := by
        rw [Bool.eq_iff_iff]
        simp
      rw [loadGroups, follow, load_knownGroups, hseen]
      split
      · exact ih stack loaded
      · cases hG : t.group id with
        | error e => rfl
        | ok G =>
          cases hS : t.schema G.schema with
          | error e => simp [hS, Except.bind, Except.map, bind]
          | ok S =>
            have hne : S.id ≠ host := hhost S (mem_of_schema hS).1
            simp only [Except.bind, bind, hS, if_neg hne]
            rw [ih, List.map_append, List.reverse_append, ← (mem_of_group hG).2]
            rfl

/-! ## What is stored -/

theorem Nested.stored_of_embedded (hn : Nested n t) (hw : Wired n t) {S : Schema}
    (hS : S ∈ t.schemas) {g : GroupId} (hg : g ∈ S.embedded) :
    ∃ G T, t.group? g = some G ∧ t.schema? G.schema = some T := by
  obtain ⟨G, hG, rfl⟩ := hn.stored S hS g hg
  obtain ⟨T, hT, hid⟩ := hw.used_stored G.schema (mem_used.mpr (.inr ⟨G, hG, rfl⟩))
  exact ⟨G, T, hn.group?_of_mem hG, hid ▸ hw.schema?_of_mem hT⟩

/-- Groups embedded at some depth are stored with their schemas. -/
theorem Embedded.stored (hn : Nested n t) (hw : Wired n t) {schemas : List Schema}
    (hschemas : ∀ S ∈ schemas, S ∈ t.schemas) {g : GroupId} (h : t.Embedded schemas g) :
    ∃ G T, t.group? g = some G ∧ t.schema? G.schema = some T := by
  obtain ⟨S, hS, a, ha, hpath⟩ := h
  rcases hpath.cases_tail with rfl | ⟨b, -, G, T, -, hT, hg⟩
  · exact hn.stored_of_embedded hw (hschemas S hS) ha
  · exact hn.stored_of_embedded hw (mem_of_schema (schema_eq_ok.mpr hT)).1 hg

/-- **Loading groups succeeds**, and gives each group embedded at some depth, once and with its
schema. -/
theorem exists_embeddedGroups (hn : Nested n t) (hw : Wired n t) {schemas : List Schema}
    (hschemas : ∀ S ∈ schemas, S ∈ t.schemas) :
    ∃ groups, t.embeddedGroups schemas = .ok groups ∧ (groups.map fun g => g.1.id).Nodup ∧
      ∀ g, g ∈ groups.map (fun g => g.1.id) ↔ t.Embedded schemas g := by
  have hhost : ∀ S ∈ t.schemas, S.id ≠ .ofSerial n := fun S hS =>
    (hw.schemas_given S hS).ne_ofSerial (Nat.le_refl n)
  have hreaches : ∀ {a b}, t.knownGroups.Reaches a b ↔ ReflTransGen t.Leads a b := by
    have hleads : t.knownGroups.Embeds = t.Leads := by
      funext a b
      exact propext embeds_knownGroups
    intro a b
    rw [Groups.Reaches, hleads]
  have hembedded : ∀ g, (∃ a ∈ (schemas.flatMap Schema.embedded).reverse,
      t.knownGroups.Reaches a g) ↔ t.Embedded schemas g := by
    intro g
    simp only [List.mem_reverse, List.mem_flatMap, hreaches, Embedded]
    grind
  have hfuel : (schemas.flatMap Schema.embedded).reverse.length +
      Groups.pending t.knownGroups.known [] ≤
        (schemas.flatMap Schema.embedded).reverse.length + t.embeddings :=
    Nat.add_le_add_left (Nat.le_of_eq t.pending_knownGroups) _
  obtain ⟨out, hout, hnodup, hiff⟩ := exists_follow (.ofSerial n) (.ofSerial n) hfuel
    fun a ha x hx => by
      obtain ⟨G, T, hG, hT⟩ := Embedded.stored hn hw hschemas ((hembedded x).mp ⟨a, ha, hx⟩)
      exact ⟨T, load_knownGroups_eq_ok.mpr ⟨G, hG, hT⟩,
        hhost T (mem_of_schema (schema_eq_ok.mpr hT)).1⟩
  obtain ⟨groups, hgroups, hids⟩ := map_eq_ok.mp ((map_loadGroups hhost _ _ []).trans hout)
  refine ⟨groups, hgroups, ?_, fun g => ?_⟩
  · rw [← List.nodup_reverse, hids]
    exact hnodup
  · rw [← List.mem_reverse, hids, hiff, hembedded]

/-! ## Schemas that references point into -/

/-- **Loading schemas succeeds** if they are stored, and leaves none of them out. -/
theorem exists_loadReferenced {own : Schema} (hown : t.schema? own.id = some own)
    {ids : List SchemaId} {loaded : List Schema} (hids : ∀ id ∈ ids, ∃ S, t.schema? id = some S)
    (hloaded : ∀ S ∈ loaded, t.schema? S.id = some S) :
    ∃ out, t.loadReferenced own ids loaded = .ok out ∧ (∀ S ∈ out, t.schema? S.id = some S) ∧
      (∀ S ∈ loaded, S ∈ out) ∧ ∀ id ∈ ids, ∃ S ∈ out, S.id = id := by
  induction ids generalizing loaded with
  | nil => exact ⟨loaded, rfl, hloaded, fun _ hS => hS, fun _ hid => (List.not_mem_nil hid).elim⟩
  | cons id ids ih =>
    have hrest : ∀ id ∈ ids, ∃ S, t.schema? id = some S := fun id' hid' =>
      hids id' (List.mem_cons_of_mem _ hid')
    -- whichever schema comes next
    have hnext : ∀ S, S.id = id → t.schema? S.id = some S →
        ∃ out, t.loadReferenced own ids (loaded ++ [S]) = .ok out ∧
          (∀ S ∈ out, t.schema? S.id = some S) ∧ (∀ S ∈ loaded, S ∈ out) ∧
          ∀ id' ∈ id :: ids, ∃ S ∈ out, S.id = id' := by
      intro S hid hS
      have hmore : ∀ S' ∈ loaded ++ [S], t.schema? S'.id = some S' := by
        intro S' hS'
        rcases List.mem_append.mp hS' with hS' | hS'
        · exact hloaded S' hS'
        · rwa [List.mem_singleton.mp hS']
      obtain ⟨out, hout, hstored, hkept, hall⟩ := ih hrest hmore
      refine ⟨out, hout, hstored, fun S' hS' => hkept S' (List.mem_append_left _ hS'), ?_⟩
      intro id' hid'
      rcases List.mem_cons.mp hid' with rfl | hid'
      · exact ⟨S, hkept S (List.mem_append_right _ (List.mem_singleton_self S)), hid⟩
      · exact hall id' hid'
    rw [loadReferenced]
    split
    · rename_i hany
      obtain ⟨S, hS, hid⟩ := List.any_eq_true.mp hany
      obtain ⟨out, hout, hstored, hkept, hall⟩ := ih hrest hloaded
      refine ⟨out, hout, hstored, hkept, fun id' hid' => ?_⟩
      rcases List.mem_cons.mp hid' with rfl | hid'
      · exact ⟨S, hkept S hS, beq_iff_eq.mp hid⟩
      · exact hall id' hid'
    · split
      · rename_i hid
        exact hnext own hid.symm hown
      · obtain ⟨S, hS⟩ := hids id List.mem_cons_self
        have hid : S.id = id := (mem_of_schema (schema_eq_ok.mpr hS)).2
        rw [schema_eq_ok.mpr hS]
        exact hnext S hid (hid ▸ hS)

end ContentStore.Tables
