import ContentStore.Embedding.Assembly
import ContentStore.Proofs.Embedding.Known

/-!
# What assembling shows

Assembling goes down from the group fields of the item schema into the instances that
they list, and takes the instances shown so far along.  What it does without any fuel
is a derivation (`Assembles`, `Shows`), and as every instance is shown once, the fuel
suffices for it (`assembles_assemble`).  Each instance that is shown stands in a block
of the group whose schema its values follow (`Assembles.faithful`), and what its group
fields list is shown as well (`Assembles.closed`).
-/

namespace ContentStore.Embedding

/-! ## Assembling without fuel -/

mutual

/-- After some instances have been shown, the group fields of an owner give blocks, and
more instances are shown. -/
inductive Assembles (p : Package) (fields : List ItemField) :
    Option InstanceId → List Field → List InstanceId → List Block → List InstanceId → Prop
  | done {owner : Option InstanceId} {shown : List InstanceId} :
      Assembles p fields owner [] shown [] shown
  | pass {owner : Option InstanceId} {host : Field} {hosts : List Field}
      {shown shown' : List InstanceId} {bs : List Block}
      (hnone : ∀ g listed inner, host.group? = some g →
        valueAt? fields ⟨host.id, owner⟩ = some listed → p.groupSchema? g ≠ some inner)
      (hrest : Assembles p fields owner hosts shown bs shown') :
      Assembles p fields owner (host :: hosts) shown bs shown'
  | block {owner : Option InstanceId} {host : Field} {hosts : List Field} {g : GroupId}
      {listed : ItemField} {inner : Schema} {shown shown₁ shown' : List InstanceId}
      {is : List Instance} {bs : List Block} (hg : host.group? = some g)
      (hlisted : valueAt? fields ⟨host.id, owner⟩ = some listed)
      (hinner : p.groupSchema? g = some inner)
      (hshows : Shows p fields inner listed.value.groups shown is shown₁)
      (hrest : Assembles p fields owner hosts shown₁ bs shown') :
      Assembles p fields owner (host :: hosts) shown (.mk host.id host.key g is :: bs) shown'

/-- After some instances have been shown, those listed in one field give the ones in its
block, and more instances are shown. -/
inductive Shows (p : Package) (fields : List ItemField) :
    Schema → List InstanceId → List InstanceId → List Instance → List InstanceId → Prop
  | done {inner : Schema} {shown : List InstanceId} : Shows p fields inner [] shown [] shown
  | again {inner : Schema} {i : InstanceId} {is shown shown' : List InstanceId}
      {ns : List Instance} (hi : i ∈ shown) (hrest : Shows p fields inner is shown ns shown') :
      Shows p fields inner (i :: is) shown ns shown'
  | first {inner : Schema} {i : InstanceId} {is shown shown₁ shown' : List InstanceId}
      {nested : List Block} {ns : List Instance} (hi : i ∉ shown)
      (hnested : Assembles p fields (some i) inner.groupFields (i :: shown) nested shown₁)
      (hrest : Shows p fields inner is shown₁ ns shown') :
      Shows p fields inner (i :: is) shown
        (.mk i (instanceValues fields inner i) nested :: ns) shown'

end

/-- An instance that is shown, with the group of its block and its values. -/
structure Entry where
  id : InstanceId
  group : GroupId
  fields : List ItemField
  deriving DecidableEq, Repr

mutual

/-- An instance and those nested in it. -/
def Instance.entries (group : GroupId) : Instance → List Entry
  | .mk id fields groups => ⟨id, group, fields⟩ :: blockEntries groups

def instanceEntries (group : GroupId) : List Instance → List Entry
  | [] => []
  | i :: is => i.entries group ++ instanceEntries group is

/-- All instances that blocks show, at any depth. -/
def blockEntries : List Block → List Entry
  | [] => []
  | .mk _ _ group is :: bs => instanceEntries group is ++ blockEntries bs

end

variable {p : Package} {fields : List ItemField}

/-! ## Every instance is shown once -/

mutual

/-- What has been shown in the end is what the blocks show, besides what was shown before.
-/
theorem Assembles.shown_eq {owner : Option InstanceId} {hosts : List Field}
    {shown shown' : List InstanceId} {bs : List Block} :
    Assembles p fields owner hosts shown bs shown' →
      shown' = ((blockEntries bs).map Entry.id).reverse ++ shown
  | .done => rfl
  | .pass _ hrest => hrest.shown_eq
  | .block _ _ _ hshows hrest => by
    rw [hrest.shown_eq, hshows.shown_eq, blockEntries, List.map_append, List.reverse_append,
      List.append_assoc]

/-- The same of the instances in the block of one field. -/
theorem Shows.shown_eq {inner : Schema} {g : GroupId} {is shown shown' : List InstanceId}
    {ns : List Instance} : Shows p fields inner is shown ns shown' →
      shown' = ((instanceEntries g ns).map Entry.id).reverse ++ shown
  | .done => rfl
  | .again _ hrest => hrest.shown_eq
  | .first _ hnested hrest => by
    rw [hrest.shown_eq (g := g), hnested.shown_eq, instanceEntries, Instance.entries]
    simp

end

/-- What has been shown stays shown. -/
theorem Assembles.subset {owner : Option InstanceId} {hosts : List Field}
    {shown shown' : List InstanceId} {bs : List Block}
    (h : Assembles p fields owner hosts shown bs shown') : shown ⊆ shown' := by
  rw [h.shown_eq]
  exact List.subset_append_right _ _

/-- Also within a block. -/
theorem Shows.subset {inner : Schema} {is shown shown' : List InstanceId} {ns : List Instance}
    (h : Shows p fields inner is shown ns shown') : shown ⊆ shown' := by
  rw [h.shown_eq (g := ⟨""⟩)]
  exact List.subset_append_right _ _

/-- Instances that are listed somewhere, each once. -/
structure Apart (fields : List ItemField) (shown : List InstanceId) : Prop where
  nodup : shown.Nodup
  listed : shown ⊆ listedIn fields

/-- An instance that is listed and not yet shown may be shown. -/
theorem Apart.cons {i : InstanceId} {shown : List InstanceId} (h : Apart fields shown)
    (hi : i ∉ shown) (hlisted : i ∈ listedIn fields) : Apart fields (i :: shown) :=
  ⟨List.nodup_cons.mpr ⟨hi, h.nodup⟩, List.cons_subset.mpr ⟨hlisted, h.listed⟩⟩

mutual

/-- No instance is shown twice. -/
theorem Assembles.apart {owner : Option InstanceId} {hosts : List Field}
    {shown shown' : List InstanceId} {bs : List Block} :
    Assembles p fields owner hosts shown bs shown' → Apart fields shown → Apart fields shown'
  | .done, hshown => hshown
  | .pass _ hrest, hshown => hrest.apart hshown
  | .block _ hlisted _ hshows hrest, hshown =>
    hrest.apart (hshows.apart (groups_subset hlisted) hshown)

/-- Nor is it within a block. -/
theorem Shows.apart {inner : Schema} {is shown shown' : List InstanceId} {ns : List Instance} :
    Shows p fields inner is shown ns shown' → is ⊆ listedIn fields → Apart fields shown →
      Apart fields shown'
  | .done, _, hshown => hshown
  | .again _ hrest, hlisted, hshown => hrest.apart (List.cons_subset.mp hlisted).2 hshown
  | .first hi hnested hrest, hlisted, hshown => by
    obtain ⟨hmem, hmore⟩ := List.cons_subset.mp hlisted
    exact hrest.apart hmore (hnested.apart (hshown.cons hi hmem))

end

/-! ## The fuel suffices -/

/-- One instance in a block, unless it has been shown. -/
def showInstance (p : Package) (fields : List ItemField) (depth : Nat) (inner : Schema)
    (i : InstanceId) (shown : List InstanceId) : Option Instance × List InstanceId :=
  if shown.contains i then (none, shown)
  else
    let (nested, shown) := blocks p fields depth (some i) inner.groupFields (i :: shown)
    (some (.mk i (instanceValues fields inner i) nested), shown)

/-- The block of one group field, if there is one. -/
def showBlock (p : Package) (fields : List ItemField) (depth : Nat) (owner : Option InstanceId)
    (host : Field) (shown : List InstanceId) : Option Block × List InstanceId :=
  match host.group?, valueAt? fields ⟨host.id, owner⟩ with
  | some g, some listed =>
    match p.groupSchema? g with
    | some inner =>
      let (is, shown) := thread (showInstance p fields depth inner) listed.value.groups shown
      (some (.mk host.id host.key g is), shown)
    | none => (none, shown)
  | _, _ => (none, shown)

/-- The blocks of an owner are made field by field, each knowing what was shown before it.
-/
theorem blocks_succ (depth : Nat) (owner : Option InstanceId) (hosts : List Field)
    (shown : List InstanceId) :
    blocks p fields (depth + 1) owner hosts shown =
      thread (showBlock p fields depth owner) hosts shown := rfl

section Fuel

variable {depth : Nat}
  (hdepth : ∀ owner hosts shown, Apart fields shown →
    (listedIn fields).length < depth + shown.length →
    Assembles p fields owner hosts shown (blocks p fields depth owner hosts shown).1
      (blocks p fields depth owner hosts shown).2)

include hdepth in
/-- With enough depth left, the instances listed in a field are shown one by one. -/
theorem shows_thread (inner : Schema) {is shown : List InstanceId} (his : is ⊆ listedIn fields)
    (hshown : Apart fields shown) (hfuel : (listedIn fields).length < depth + 1 + shown.length) :
    Shows p fields inner is shown (thread (showInstance p fields depth inner) is shown).1
      (thread (showInstance p fields depth inner) is shown).2 := by
  induction is generalizing shown with
  | nil => exact .done
  | cons i is ih =>
    obtain ⟨hi, his⟩ := List.cons_subset.mp his
    by_cases hmem : i ∈ shown
    · have hstep : showInstance p fields depth inner i shown = (none, shown) :=
        if_pos (List.contains_iff_mem.mpr hmem)
      simp only [thread, hstep]
      exact .again hmem (ih his hshown hfuel)
    · have hnested := hdepth (some i) inner.groupFields (i :: shown) (hshown.cons hmem hi)
        (by rw [List.length_cons]; omega)
      generalize hblocks : blocks p fields depth (some i) inner.groupFields (i :: shown) = out
        at hnested
      obtain ⟨nested, shown₁⟩ := out
      have hstep : showInstance p fields depth inner i shown =
          (some (.mk i (instanceValues fields inner i) nested), shown₁) := by
        rw [showInstance, if_neg fun h => hmem (List.contains_iff_mem.mp h), hblocks]
      have hmore := (List.subperm_of_subset (hshown.cons hmem hi).nodup hnested.subset).length_le
      rw [List.length_cons] at hmore
      simp only [thread, hstep]
      exact .first hmem hnested (ih his (hnested.apart (hshown.cons hmem hi)) (by omega))

include hdepth in
/-- So are the blocks of an owner. -/
theorem assembles_thread {owner : Option InstanceId} {hosts : List Field}
    {shown : List InstanceId} (hshown : Apart fields shown)
    (hfuel : (listedIn fields).length < depth + 1 + shown.length) :
    Assembles p fields owner hosts shown (thread (showBlock p fields depth owner) hosts shown).1
      (thread (showBlock p fields depth owner) hosts shown).2 := by
  induction hosts generalizing shown with
  | nil => exact .done
  | cons host hosts ih =>
    by_cases hblock : ∃ g listed inner, host.group? = some g ∧
        valueAt? fields ⟨host.id, owner⟩ = some listed ∧ p.groupSchema? g = some inner
    · obtain ⟨g, listed, inner, hg, hlisted, hinner⟩ := hblock
      have hshows := shows_thread hdepth inner (groups_subset hlisted) hshown hfuel
      generalize hthread : thread (showInstance p fields depth inner) listed.value.groups shown =
        out at hshows
      obtain ⟨is, shown₁⟩ := out
      have hstep : showBlock p fields depth owner host shown =
          (some (.mk host.id host.key g is), shown₁) := by
        simp only [showBlock, hg, hlisted, hinner, hthread]
      have hmore := (List.subperm_of_subset hshown.nodup hshows.subset).length_le
      simp only [thread, hstep]
      exact .block hg hlisted hinner hshows
        (ih (hshows.apart (groups_subset hlisted) hshown) (by omega))
    · have hstep : showBlock p fields depth owner host shown = (none, shown) := by
        unfold showBlock
        split
        · rename_i g listed hg hlisted
          split
          · rename_i inner hinner
            exact (hblock ⟨g, listed, inner, hg, hlisted, hinner⟩).elim
          · rfl
        · rfl
      simp only [thread, hstep]
      exact .pass (fun g listed inner hg hlisted hinner =>
        hblock ⟨g, listed, inner, hg, hlisted, hinner⟩) (ih hshown hfuel)

end Fuel

/-- **The fuel suffices**: each instance that is shown takes one of it. -/
theorem assembles_blocks {depth : Nat} {owner : Option InstanceId} {hosts : List Field}
    {shown : List InstanceId} (hshown : Apart fields shown)
    (hfuel : (listedIn fields).length < depth + shown.length) :
    Assembles p fields owner hosts shown (blocks p fields depth owner hosts shown).1
      (blocks p fields depth owner hosts shown).2 := by
  induction depth generalizing owner hosts shown with
  | zero =>
    have hle := (List.subperm_of_subset hshown.nodup hshown.listed).length_le
    omega
  | succ depth ih =>
    rw [blocks_succ]
    exact assembles_thread (fun _ _ _ h hlt => ih h hlt) hshown hfuel

/-- **Assembling ends** with the blocks of the item, and shows no instance twice. -/
theorem assembles_assemble (p : Package) (fields : List ItemField) :
    ∃ shown, Assembles p fields none p.schema.groupFields [] (assemble p fields) shown ∧
      shown = ((blockEntries (assemble p fields)).map Entry.id).reverse ∧
      Apart fields ((blockEntries (assemble p fields)).map Entry.id) := by
  have hnone : Apart fields [] := ⟨List.nodup_nil, List.nil_subset _⟩
  have hassembles : Assembles p fields none p.schema.groupFields [] (assemble p fields) _ :=
    assembles_blocks hnone (Nat.lt_succ_self _)
  have heq := hassembles.shown_eq
  rw [List.append_nil] at heq
  have hapart := hassembles.apart hnone
  rw [heq] at hapart
  refine ⟨_, hassembles, heq, List.nodup_reverse.mp hapart.nodup, fun i hi => ?_⟩
  exact hapart.listed (List.mem_reverse.mpr hi)

/-! ## What is shown -/

/-- The instance stands in a block of the group that it follows, with its values. -/
def Faithful (p : Package) (fields : List ItemField) (s : Entry) : Prop :=
  ∃ S, p.groupSchema? s.group = some S ∧ Governs p (Lists fields) S (some s.id) ∧
    s.fields = instanceValues fields S s.id

mutual

/-- **An instance is shown** in a block of the group that it follows. -/
theorem Assembles.faithful {S : Schema} {owner : Option InstanceId} {hosts : List Field}
    {shown shown' : List InstanceId} {bs : List Block} :
    Assembles p fields owner hosts shown bs shown' → Governs p (Lists fields) S owner →
      (∀ F ∈ hosts, F ∈ S.groupFields) → ∀ s ∈ blockEntries bs, Faithful p fields s
  | .done, _, _ => fun _ hs => (List.not_mem_nil hs).elim
  | .pass _ hrest, hS, hhosts => hrest.faithful hS fun F hF => hhosts F (List.mem_cons_of_mem _ hF)
  | .block hg hlisted hinner hshows hrest, hS, hhosts => by
    intro s hs
    rw [blockEntries, List.mem_append] at hs
    rcases hs with hs | hs
    · refine hshows.faithful hinner (fun i hi => ?_) s hs
      exact .inner hS (hhosts _ List.mem_cons_self) (groupSchema_iff.mpr ⟨_, hg, hinner⟩)
        ⟨_, hlisted, hi⟩
    · exact hrest.faithful hS (fun F hF => hhosts F (List.mem_cons_of_mem _ hF)) s hs

/-- Every instance in the block of a group follows the schema of this group. -/
theorem Shows.faithful {inner : Schema} {g : GroupId} {is shown shown' : List InstanceId}
    {ns : List Instance} : Shows p fields inner is shown ns shown' →
      p.groupSchema? g = some inner → (∀ i ∈ is, Governs p (Lists fields) inner (some i)) →
      ∀ s ∈ instanceEntries g ns, Faithful p fields s
  | .done, _, _ => fun _ hs => (List.not_mem_nil hs).elim
  | .again _ hrest, hinner, his =>
    hrest.faithful hinner fun i hi => his i (List.mem_cons_of_mem _ hi)
  | .first _ hnested hrest, hinner, his => by
    have hi := his _ List.mem_cons_self
    intro s hs
    rw [instanceEntries, Instance.entries, List.cons_append, List.mem_cons, List.mem_append] at hs
    rcases hs with rfl | hs | hs
    · exact ⟨inner, hinner, hi, rfl⟩
    · exact hnested.faithful hi (fun _ hF => hF) s hs
    · exact hrest.faithful hinner (fun i hi => his i (List.mem_cons_of_mem _ hi)) s hs

end

/-- Whatever the group fields of the owner list is shown. -/
def ShowsAll (p : Package) (fields : List ItemField) (owner : Option InstanceId)
    (hosts : List Field) (shown : List InstanceId) : Prop :=
  ∀ F ∈ hosts, ∀ G, groupSchema p F = .ok G → ∀ i, Lists fields ⟨F.id, owner⟩ i → i ∈ shown

/-- What is shown is shown among more. -/
theorem ShowsAll.mono {owner : Option InstanceId} {hosts : List Field}
    {shown shown' : List InstanceId} (h : ShowsAll p fields owner hosts shown)
    (hsub : shown ⊆ shown') : ShowsAll p fields owner hosts shown' :=
  fun F hF G hG i hi => hsub (h F hF G hG i hi)

/-- Whatever is listed in the instance is shown. -/
def ClosedAt (p : Package) (fields : List ItemField) (shown : List InstanceId) (s : Entry) :
    Prop :=
  ∀ S, p.groupSchema? s.group = some S → ShowsAll p fields (some s.id) S.groupFields shown

mutual

/-- **Whatever is listed** by an owner, or by an instance that is shown, is shown. -/
theorem Assembles.closed {owner : Option InstanceId} {hosts : List Field}
    {shown shown' : List InstanceId} {bs : List Block} :
    Assembles p fields owner hosts shown bs shown' →
      ShowsAll p fields owner hosts shown' ∧ ∀ s ∈ blockEntries bs, ClosedAt p fields shown' s
  | .done => ⟨fun _ hF => (List.not_mem_nil hF).elim, fun _ hs => (List.not_mem_nil hs).elim⟩
  | .pass hnone hrest => by
    obtain ⟨hall, hclosed⟩ := hrest.closed
    refine ⟨fun F hF G hG i hi => ?_, hclosed⟩
    rcases List.mem_cons.mp hF with rfl | hF
    · obtain ⟨e, he, -⟩ := hi
      obtain ⟨g, hg, hinner⟩ := groupSchema_iff.mp hG
      exact (hnone g e G hg he hinner).elim
    · exact hall F hF G hG i hi
  | .block hg hlisted hinner hshows hrest => by
    obtain ⟨hall, hclosed⟩ := hrest.closed
    obtain ⟨hfirst, hinside⟩ := hshows.closed hinner
    refine ⟨fun F hF G hG i hi => ?_, fun s hs => ?_⟩
    · rcases List.mem_cons.mp hF with rfl | hF
      · obtain ⟨e, he, hi⟩ := hi
        obtain rfl := Option.some.inj (he.symm.trans hlisted)
        exact hrest.subset (hfirst hi)
      · exact hall F hF G hG i hi
    · rw [blockEntries, List.mem_append] at hs
      rcases hs with hs | hs
      · exact fun S hS => (hinside s hs S hS).mono hrest.subset
      · exact hclosed s hs

/-- After a block everything has been shown that its field lists, and that is listed in its
instances. -/
theorem Shows.closed {inner : Schema} {g : GroupId} {is shown shown' : List InstanceId}
    {ns : List Instance} : Shows p fields inner is shown ns shown' →
      p.groupSchema? g = some inner →
      is ⊆ shown' ∧ ∀ s ∈ instanceEntries g ns, ClosedAt p fields shown' s
  | .done, _ => ⟨List.nil_subset _, fun _ hs => (List.not_mem_nil hs).elim⟩
  | .again hi hrest, hinner => by
    obtain ⟨hall, hclosed⟩ := hrest.closed hinner
    exact ⟨List.cons_subset.mpr ⟨hrest.subset hi, hall⟩, hclosed⟩
  | .first _ hnested hrest, hinner => by
    obtain ⟨hall, hclosed⟩ := hrest.closed hinner
    obtain ⟨hhere, hinside⟩ := hnested.closed
    refine ⟨List.cons_subset.mpr ⟨hrest.subset (hnested.subset List.mem_cons_self), hall⟩,
      fun s hs S hS => ?_⟩
    rw [instanceEntries, Instance.entries, List.cons_append, List.mem_cons, List.mem_append] at hs
    rcases hs with rfl | hs | hs
    · obtain rfl := Option.some.inj (hS.symm.trans hinner)
      exact hhere.mono hrest.subset
    · exact (hinside s hs S hS).mono hrest.subset
    · exact hclosed s hs S hS

end

/-! ## Every block is rendered -/

/-- Blocks are rendered under the keys of group fields. -/
theorem Assembles.keys {owner : Option InstanceId} {hosts : List Field}
    {shown shown' : List InstanceId} {bs : List Block} :
    Assembles p fields owner hosts shown bs shown' →
      ((renderBlocks p bs).map Prod.fst).Sublist (hosts.map Field.key)
  | .done => .slnil
  | .pass _ hrest => hrest.keys.cons _
  | .block _ _ hinner _ hrest => by
    rw [renderBlocks, hinner]
    exact hrest.keys.cons_cons _

/-- Every block is rendered as an array under its key. -/
theorem Assembles.mem_renderBlocks {owner : Option InstanceId} {hosts : List Field}
    {shown shown' : List InstanceId} {bs : List Block} {field : FieldId} {key : String}
    {group : GroupId} {is : List Instance} :
    Assembles p fields owner hosts shown bs shown' → .mk field key group is ∈ bs →
      ∃ S, p.groupSchema? group = some S ∧
        (key, .array (renderInstances p S is)) ∈ renderBlocks p bs
  | .done, hmem => (List.not_mem_nil hmem).elim
  | .pass _ hrest, hmem => hrest.mem_renderBlocks hmem
  | .block _ _ hinner _ hrest, hmem => by
    rw [renderBlocks, hinner]
    rcases List.mem_cons.mp hmem with heq | hmem
    · cases heq
      exact ⟨_, hinner, List.mem_cons_self⟩
    · obtain ⟨S, hS, hrendered⟩ := hrest.mem_renderBlocks hmem
      exact ⟨S, hS, List.mem_cons_of_mem _ hrendered⟩

end ContentStore.Embedding
