import ContentStore.Proofs.Pairing.Partners
import ContentStore.Proofs.Records
import ContentStore.Proofs.Workspaces

/-!
# Metadata items and those who name them

A write that names a metadata item binds it to the written item, and a removal
takes it out together with the item.  Neither looks for other items that name it.
So what happened last to the metadata item decides (`lastFate`): it belongs to the
item that it was linked with last, or is gone if it was deleted since then, and
whoever else names it still is left with a link that goes one way only
(`Store.linked_of_run`).

What a step makes of metadata items is said once for all kinds of them
(`Tables.Disposes`): bound ones and deleted ones are those that the step is about,
and all others belong to whom they belonged to.
-/

namespace ContentStore

open Tables

/-- What became of a metadata item in a call that went through. -/
inductive Fate where
  | linked (item : ItemId)
  | deleted
  deriving DecidableEq

/-- A write links the metadata item that it names, if it goes through. -/
def Fate.ofWrite (given : Option ItemId) (y : ItemId) : Except Error Version → Option Fate
  | .ok v => if given = some y then some (.linked v.item.id) else none
  | .error _ => none

/-- What became of a metadata item in a call. -/
def Entry.fate? (e : Entry) (y : ItemId) : Option Fate :=
  match e.call with
  | .createItem param => Fate.ofWrite param.metadata y (Store.createItem e.ctx param e.before).1
  | .createMetadataItem param =>
    Fate.ofWrite param.metadata y (Store.createMetadataItem e.ctx param e.before).1
  | .updateItem param => Fate.ofWrite param.metadata y (Store.updateItem e.ctx param e.before).1
  | .deleteItem id =>
    if (Store.deleteItem e.ctx id e.before).1.isOk ∧
      (y = id ∨ (Write.latestItem e.before.tables id).bind Item.metadataItem = some y)
    then some .deleted else none
  | _ => none

/-- What became of a metadata item last. -/
def lastFate (y : ItemId) (log : List Entry) : Option Fate := lastOf (·.fate? y) log

namespace Tables

variable {n m : Nat} {t u : Tables}

/-- The metadata item is stored, follows the metadata schema of the model, and
names the item that it belongs to. -/
def Belongs (t : Tables) (model : ModelId) (y x : ItemId) : Prop :=
  ∃ a, Write.latestItem t y = some a ∧ a.model = model ∧ t.IsMetadata a ∧ a.metadataOf = some x

/-- What a step makes of metadata items, where `fate` tells of those that it is
about. -/
structure Disposes (fate : ItemId → Option Fate) (n : Nat) (t u : Tables) : Prop where
  linked : ∀ y x, fate y = some (.linked x) →
    ∃ a, Write.latestItem u y = some a ∧ u.IsMetadata a ∧ a.metadataOf = some x
  deleted : ∀ y, fate y = some .deleted → y.Given n ∧ Write.latestItem u y = none
  kept : ∀ y a, fate y = none → Write.latestItem t y = some a → t.IsMetadata a →
    ∃ b, Write.latestItem u y = some b ∧ u.IsMetadata b ∧ b.metadataOf = a.metadataOf
  named : ∀ x it y, Write.latestItem u x = some it → it.metadataItem = some y →
    (fate y).isSome ∨ ∃ old, Write.latestItem t x = some old ∧ old.metadataItem = some y

/-- Nothing becomes of metadata items where no item is written. -/
theorem disposes_of_eq (hlatest : Write.latestItem u = Write.latestItem t)
    (hmodels : ∀ M ∈ t.models, M ∈ u.models) : Disposes (fun _ => none) n t u where
  linked := fun _ _ h => nomatch h
  deleted := fun _ h => nomatch h
  kept := fun y a _ ha hmeta => by
    obtain ⟨M, hM, hof⟩ := hmeta
    exact ⟨a, by rw [hlatest, ha], ⟨M, hmodels M hM, hof⟩, rfl⟩
  named := fun x it y hit hy => .inr ⟨it, by rw [← hlatest, hit], hy⟩

section Puts

variable {o : Operator} {p : Package} {old : Option Item} {it : Item} {given : Option ItemId}

/-- After a write the metadata item that it names belongs to the written item, and
any other to whom it belonged. -/
theorem owner_of_putsNamed (h : Write.PutsNamed o p old given it t m u) {y : ItemId} {a : Item}
    (hy : y ≠ it.id) (ha : Write.latestItem t y = some a) :
    ∃ b, Write.latestItem u y = some b ∧
      b.metadataOf = if given = some y then some it.id else a.metadataOf := by
  obtain ⟨-, hs₁, hbinds, happends⟩ := h
  rename_i n₁ t₁
  obtain ⟨-, hshadows, hforth⟩ := happends.back hs₁
  have hbound : ∃ a₁, Write.latestItem t₁ y = some a₁ ∧
      a₁.metadataOf = if given = some y then some it.id else a.metadataOf := by
    split
    · rename_i hgiven
      exact hbinds.named y hgiven
    · rename_i hgiven
      exact ⟨a, (hbinds.others y hgiven).trans ha, rfl⟩
  -- appending the item touches references of others only
  obtain ⟨a₁, ha₁, howner⟩ := hbound
  obtain ⟨b, hb⟩ := Option.isSome_iff_exists.mp (hforth y (by rw [ha₁]; rfl))
  obtain ⟨a', ha', hab⟩ := hshadows y hy b hb
  obtain rfl := Option.some.inj (ha₁.symm.trans ha')
  exact ⟨b, hb, hab.owner.trans howner⟩

/-- **What a write makes of metadata items.** -/
theorem disposes_of_puts (hs : Sound n t) (hp : Packed t p) (hmodel : p.model.id = it.model)
    (hstored : Write.latestItem t it.id = old) (horigin : ∀ a, old = some a → it.origin = a.origin)
    (hnamed : Write.Named t p it given (old.bind Item.metadataItem)) (hself : given ≠ some it.id)
    (hputs : Write.Puts o p old it n t m u) (hbinds : Write.PutsNamed o p old given it t m u) :
    Disposes (fun y => if given = some y then some (.linked it.id) else none) n t u := by
  obtain ⟨hwritten, hothers⟩ := hputs.back hs
  have hmetadata : ∀ y, y ≠ it.id → ∀ a b, Write.latestItem t y = some a →
      Write.latestItem u y = some b → t.IsMetadata a → u.IsMetadata b := by
    intro y hy a b ha hb hmeta
    obtain ⟨a', ha', hab⟩ := hothers y hy b hb
    obtain rfl := Option.some.inj (ha.symm.trans ha')
    exact hputs.sameCatalog.isMetadata hab.origin hmeta
  constructor
  case linked =>
    intro y x hfate
    split at hfate
    · rename_i hy
      cases hfate
      have hne : y ≠ it.id := fun heq => hself (heq ▸ hy)
      obtain ⟨a, ha, hamodel, S, hS, hschema⟩ := hnamed.stored y hy
      obtain ⟨b, hb, hof⟩ := owner_of_putsNamed hbinds hne ha
      rw [if_pos hy] at hof
      refine ⟨b, hb, hmetadata y hne a b ha hb ⟨p.model, hp.model, hmodel.trans hamodel.symm, ?_⟩,
        hof⟩
      rw [hschema]
      exact (hp.metadata S hS).2
    · cases hfate
  case deleted =>
    intro y hfate
    split at hfate <;> cases hfate
  case kept =>
    intro y a hfate ha hmeta
    by_cases hy : y = it.id
    · subst hy
      have hold := hstored.symm.trans ha
      refine ⟨it, hwritten, hputs.sameCatalog.isMetadata (horigin a hold) hmeta, ?_⟩
      rw [hbinds.owner, hold]
      rfl
    · have hgiven : given ≠ some y := fun heq => by
        rw [if_pos heq] at hfate
        cases hfate
      obtain ⟨b, hb, hof⟩ := owner_of_putsNamed hbinds hy ha
      rw [if_neg hgiven] at hof
      exact ⟨b, hb, hmetadata y hy a b ha hb hmeta, hof⟩
  case named =>
    intro x X y hX hy
    by_cases hx : x = it.id
    · subst hx
      obtain rfl := Option.some.inj (hwritten.symm.trans hX)
      rw [hnamed.item] at hy
      cases hgiven : given with
      | some z =>
        rw [hgiven, Option.some_or] at hy
        rw [if_pos hy]
        exact .inl rfl
      | none =>
        rw [hgiven, Option.none_or] at hy
        obtain ⟨a, ha, hay⟩ := Option.bind_eq_some_iff.mp hy
        exact .inr ⟨a, hstored.trans ha, hay⟩
    · obtain ⟨Y, hY, hYX⟩ := hothers x hx X hX
      exact .inr ⟨Y, hY, hYX.metadata.symm.trans hy⟩

/-- **What a removal makes of metadata items.** -/
theorem disposes_of_removes (hs : Sound n t) (hh : Housed n t)
    (h : Write.Removes o p it n t m u) :
    Disposes (fun y => if y = it.id ∨ it.metadataItem = some y then some .deleted else none)
      n t u := by
  obtain ⟨hback, hforth⟩ := Write.removes_after hs h
  constructor
  case linked =>
    intro y x hfate
    split at hfate <;> cases hfate
  case deleted =>
    intro y hfate
    split at hfate
    · rename_i hy
      refine ⟨?_, ?_⟩
      · rcases hy with rfl | hy
        · exact hs.item_given h.stored
        · exact (hh.linked _ _ _ h.stored hy).1
      · by_contra hne
        obtain ⟨Z, hZ⟩ := Option.ne_none_iff_exists'.mp hne
        obtain ⟨hself, hmeta, -⟩ := hback y Z hZ
        exact hy.elim hself hmeta
    · cases hfate
  case kept =>
    intro y a hfate ha hmeta
    split at hfate
    · cases hfate
    · rename_i hy
      rw [not_or] at hy
      obtain ⟨b, hb⟩ := Option.isSome_iff_exists.mp (hforth y hy.1 hy.2 (by rw [ha]; rfl))
      obtain ⟨-, -, a', ha', hab⟩ := hback y b hb
      obtain rfl := Option.some.inj (ha.symm.trans ha')
      exact ⟨b, hb, h.sameCatalog.isMetadata hab.origin hmeta, hab.owner⟩
  case named =>
    intro x X y hX hy
    obtain ⟨-, -, Y, hY, hYX⟩ := hback x X hX
    exact .inr ⟨Y, hY, hYX.metadata.symm.trans hy⟩

end Puts

end Tables

namespace Store

variable {s t : Store} {log : List Entry} {ctx : Context}

/-! ## What a call makes of metadata items -/

theorem Rests.disposes (h : s.Rests t) :
    Disposes (fun _ => none) s.supply.next s.tables t.tables :=
  disposes_of_eq (by rw [h.1]) fun M hM => by rwa [h.1]

theorem disposes_of_creates {op : Operation Version} {package : Except Error Package}
    {param : CreateItem} (hs : s.Sane) (h : Reaches op s (Creates ctx package param s)) :
    Disposes (fun y => Fate.ofWrite param.metadata y (op s).1) s.supply.next s.tables
      (op s).2.tables := by
  cases hresult : (op s).1 with
  | error e => exact (h.of_error hresult).disposes
  | ok v =>
    obtain ⟨p, values, -, -, hp, hit, hputs, hbinds⟩ := (h.of_ok hresult).written hs
    have hnone : Write.latestItem s.tables v.item.id = none := by
      obtain ⟨k, hk, hid⟩ := hit.id
      rw [hid]
      exact hs.sound.latestItem_fresh hk
    refine disposes_of_puts hs.sound (packed_of_writes hp) hit.model.symm hnone
      (fun _ h => nomatch h) hit.metadata (fun hself => ?_) hputs hbinds
    obtain ⟨a, ha, -⟩ := hit.metadata.stored _ hself
    rw [hnone] at ha
    cases ha

theorem disposes_updateItem (hs : s.Sane) (param : UpdateItem) :
    Disposes (fun y => Fate.ofWrite param.metadata y (updateItem ctx param s).1) s.supply.next
      s.tables (updateItem ctx param s).2.tables := by
  have h : Reaches (updateItem ctx param) s (Updates ctx param s) := reaches_updateItem param
  cases hresult : (updateItem ctx param s).1 with
  | error e => exact (h.of_error hresult).disposes
  | ok v =>
    obtain ⟨p, old, values, -, hp, hit, hputs, hbinds⟩ := (h.of_ok hresult).written hs
    obtain ⟨hpacked, hmodel, -⟩ := packed_itemPackage hp
    refine disposes_of_puts hs.sound hpacked (hmodel.trans (Write.model_of_updated hit).symm)
      hit.stored (fun _ h => Option.some.inj h ▸ hit.origin) hit.metadata (fun hself => ?_) hputs
      hbinds
    -- the metadata items of an item follow another schema than it does
    obtain ⟨a, ha, -, S, hS, hschema⟩ := hit.metadata.stored _ hself
    obtain rfl := Option.some.inj (hit.stored.symm.trans ha)
    exact metadata_ne_of_itemPackage hs.wired hp hS hschema

theorem disposes_deleteItem (hs : s.Sane) (hh : Housed s.supply.next s.tables) (id : ItemId) :
    Disposes (fun y => (⟨s, ctx, .deleteItem id⟩ : Entry).fate? y) s.supply.next s.tables
      (deleteItem ctx id s).2.tables := by
  have h : Reaches (deleteItem ctx id) s fun _ t => Drops ctx id s t := reaches_deleteItem id
  unfold Entry.fate?
  dsimp only
  cases hresult : (deleteItem ctx id s).1 with
  | error e =>
    have hnone : ∀ y, ¬ ((Except.error e : Except Error Unit).isOk = true ∧
        (y = id ∨ (Write.latestItem s.tables id).bind Item.metadataItem = some y)) :=
      fun _ hboth => nomatch hboth.1
    simp only [if_neg (hnone _)]
    exact (h.of_error hresult).disposes
  | ok a =>
    obtain ⟨p, it, rfl, -, hp, hremoves⟩ := (h.of_ok hresult).written hs
    have hok : (Except.ok a : Except Error Unit).isOk = true := rfl
    simp only [hok, true_and, hremoves.stored, Option.bind_some]
    exact disposes_of_removes hs.sound hh hremoves

/-- **What a call makes of metadata items.** -/
theorem disposes_of_call (hs : s.Sane) (hh : Housed s.supply.next s.tables) (ctx : Context)
    (c : Call) :
    Disposes (fun y => (⟨s, ctx, c⟩ : Entry).fate? y) s.supply.next s.tables
      (c.after ctx s).tables := by
  by_cases hc : c.Edits
  · cases c with
    | createItem param => exact disposes_of_creates hs (reaches_createItem param)
    | createMetadataItem param => exact disposes_of_creates hs (reaches_createMetadataItem param)
    | updateItem param => exact disposes_updateItem hs param
    | deleteItem id => exact disposes_deleteItem hs hh id
    | search p q pagination => exact (rests_search p q pagination).disposes
    | publish ids => exact (hc.2 trivial).elim
    | unpublish ids => exact (hc.2 trivial).elim
    | _ => exact hc.1.elim
  · have hfate : (fun y => (⟨s, ctx, c⟩ : Entry).fate? y) = fun _ => none := by
      cases c <;> first | rfl | exact (hc ⟨trivial, id⟩).elim
    rw [hfate]
    cases outcome_after hs ctx c with
    | rests h => exact h.disposes
    | creates hedits => exact (hc hedits).elim
    | updates hedits => exact (hc hedits).elim
    | removes hedits => exact (hc hedits).elim
    | publishes _ _ h =>
      refine disposes_of_eq (h.latestItem hs.sound) fun M hM => ?_
      obtain ⟨refs, htables⟩ := h.tables
      rw [htables]
      exact hM
    | reshapes _ h =>
      exact disposes_of_eq (latestItem_of_rewires (h.rewires hs.wired) hs.sound)
        fun _ => h.mem_models hs.wired
    | declares _ h =>
      exact disposes_of_eq (latestItem_of_rewires (h.rewires hs.wired) hs.sound)
        fun _ => h.mem_models hs.wired

/-! ## Every run -/

/-- The record of a run tells to whom metadata items belong. -/
structure Bound (log : List Entry) (s : Store) : Prop where
  reachable : s.Reachable
  linked : ∀ y x, lastFate y log = some (.linked x) →
    ∃ a, Write.latestItem s.tables y = some a ∧ s.tables.IsMetadata a ∧ a.metadataOf = some x
  deleted : ∀ y, lastFate y log = some .deleted →
    y.Given s.supply.next ∧ Write.latestItem s.tables y = none
  named : ∀ x it y, Write.latestItem s.tables x = some it → it.metadataItem = some y →
    (lastFate y log).isSome

/-- **A step keeps the record right**, if what it makes of metadata items is put
into it. -/
theorem Bound.step (h : Bound log s) (hmove : s.Moves t) {log' : List Entry}
    {fate : ItemId → Option Fate} (hlog : ∀ y, lastFate y log' = (fate y).or (lastFate y log))
    (hfate : Disposes fate s.supply.next s.tables t.tables) : Bound log' t := by
  have hs := h.reachable.sane
  have ht := hmove.sane hs
  have hcontinues := fun y => hmove.continues hs y
  constructor
  case reachable => exact h.reachable.evolves (.single hmove)
  case linked =>
    intro y x hlast
    rw [hlog] at hlast
    cases hy : fate y with
    | some f =>
      rw [hy, Option.some_or] at hlast
      exact hfate.linked y x (hy.trans hlast)
    | none =>
      rw [hy, Option.none_or] at hlast
      obtain ⟨a, ha, hmeta, hof⟩ := h.linked y x hlast
      obtain ⟨b, hb, hmeta', hof'⟩ := hfate.kept y a hy ha hmeta
      exact ⟨b, hb, hmeta', hof'.trans hof⟩
  case deleted =>
    intro y hlast
    rw [hlog] at hlast
    cases hy : fate y with
    | some f =>
      rw [hy, Option.some_or] at hlast
      obtain ⟨hgiven, hgone⟩ := hfate.deleted y (hy.trans hlast)
      exact ⟨hgiven.mono (hcontinues y).supply, hgone⟩
    | none =>
      rw [hy, Option.none_or] at hlast
      obtain ⟨hgiven, hgone⟩ := h.deleted y hlast
      refine ⟨hgiven.mono (hcontinues y).supply, ?_⟩
      rw [hs.sound.latestItem_eq_none_iff] at hgone
      rw [ht.sound.latestItem_eq_none_iff]
      by_contra hne
      exact (hcontinues y).stored hgiven hne hgone
  case named =>
    intro x it y hit hy
    rw [hlog, Option.isSome_or]
    rcases hfate.named x it y hit hy with hnew | ⟨old, hold, holdy⟩
    · rw [hnew, Bool.true_or]
    · rw [h.named x old y hold holdy, Bool.or_true]

/-- **The record tells to whom metadata items belong** after every run from an
empty store. -/
theorem bound_of_recorded {config : Config} {clock : Time.Clock} {supply : Supply}
    {emitter : Emitter} (h : Recorded (blank config clock supply emitter) log s) :
    Bound log s := by
  induction h with
  | start =>
    exact ⟨reachable_blank _ _ _ _, fun _ _ h => (nomatch h), fun _ h => (nomatch h),
      fun _ _ _ h => nomatch h⟩
  | call _ ctx c ih =>
    exact ih.step (.call ctx c) (fun y => lastOf_concat _ _ _)
      (disposes_of_call ih.reachable.sane ih.reachable.housed ctx c)
  | @declare log t _ d ih =>
    have hs := ih.reachable.sane
    have hreshaped := reshaping_declare d t
    exact ih.step (.declare d) (fun y => (Option.none_or).symm)
      (disposes_of_eq (latestItem_of_rewires (hreshaped.rewires hs.wired) hs.sound)
        fun _ => hreshaped.mem_models hs.wired)
  | rest _ hrest ih => exact ih.step (.rest hrest) (fun y => (Option.none_or).symm) hrest.disposes

/-- What the record of a run says of a metadata item that an item of the model
names. -/
def LinkedSince (t : Store) (model : ModelId) (y : ItemId) : Option Fate → Prop
  | some (.linked owner) => t.tables.Belongs model y owner
  | some .deleted => Write.latestItem t.tables y = none
  | none => False

/-- **A link with a metadata item is mutual just if nothing has become of the
metadata item since**, after every run from an empty store.  Otherwise it belongs
to the item that it was linked with last, or it has been deleted. -/
theorem linked_of_run {config : Config} {clock : Time.Clock} {supply : Supply} {emitter : Emitter}
    (h : Recorded (blank config clock supply emitter) log s) {x y : ItemId} {it : Item}
    (hit : Write.latestItem s.tables x = some it) (hy : it.metadataItem = some y) :
    (s.tables.Belongs it.model y x ↔ lastFate y log = some (.linked x)) ∧
      s.LinkedSince it.model y (lastFate y log) := by
  have hbound := bound_of_recorded h
  have hbelongs : ∀ owner, lastFate y log = some (.linked owner) →
      s.tables.Belongs it.model y owner := by
    intro owner hlast
    obtain ⟨a, ha, hmeta, hof⟩ := hbound.linked y owner hlast
    exact ⟨a, ha, (hbound.reachable.housed.linked x it y hit hy).2 a ha, hmeta, hof⟩
  have hsome := hbound.named x it y hit hy
  cases hlast : lastFate y log with
  | none =>
    rw [hlast] at hsome
    cases hsome
  | some fate =>
    cases fate with
    | linked owner =>
      obtain ⟨a, ha, hmodel, hmeta, hof⟩ := hbelongs owner hlast
      refine ⟨⟨fun hex => ?_, fun heq => ?_⟩, a, ha, hmodel, hmeta, hof⟩
      · obtain ⟨b, hb, -, -, hbof⟩ := hex
        obtain rfl := Option.some.inj (ha.symm.trans hb)
        rw [Option.some.inj (hof.symm.trans hbof)]
      · cases heq
        exact ⟨a, ha, hmodel, hmeta, hof⟩
    | deleted =>
      have hgone := (hbound.deleted y hlast).2
      refine ⟨⟨fun hex => ?_, fun heq => (nomatch heq)⟩, hgone⟩
      obtain ⟨b, hb, -⟩ := hex
      rw [hgone] at hb
      cases hb

section Clippings

/-- Two articles are linked with the same clipping, one after the other. -/
def clippings : List Call := [
  .createModel (NewModel.ofKey ⟨"project"⟩ ⟨"desk"⟩ "article").withMetadata,
  .createMetadataItem ⟨.ofSerial 2, [], none⟩,
  .createItem ⟨.ofSerial 2, [], some (.ofSerial 3)⟩,
  .createItem ⟨.ofSerial 2, [], some (.ofSerial 3)⟩]

/-- The desk after some calls. -/
def clippingsAfter (cs : List Call) : Store :=
  Call.afterAll (.maintainer ⟨"desk"⟩) cs (blank .standard ⟨⟨0, 0⟩, 1⟩ ⟨0⟩ .silent)

/-- The clipping belongs to the second article. -/
theorem linked_of_clippings : ∃ log it,
    Recorded (blank .standard ⟨⟨0, 0⟩, 1⟩ ⟨0⟩ .silent) log (clippingsAfter clippings) ∧
      Write.latestItem (clippingsAfter clippings).tables (.ofSerial 10) = some it ∧
      it.metadataItem = some (.ofSerial 3) ∧
      lastFate (.ofSerial 3) log = some (.linked (.ofSerial 10)) ∧
      (clippingsAfter clippings).tables.Belongs it.model (.ofSerial 3) (.ofSerial 10) := by
  have hrun : Recorded (blank .standard ⟨⟨0, 0⟩, 1⟩ ⟨0⟩ .silent) _ (clippingsAfter clippings) :=
    Recorded.start.afterAll (.maintainer ⟨"desk"⟩) clippings
  have hnames : ∃ it ∈ Write.latestItem (clippingsAfter clippings).tables (.ofSerial 10),
      it.metadataItem = some (.ofSerial 3) := by decide +kernel
  obtain ⟨it, hit, hy⟩ := hnames
  have hlast : lastFate (.ofSerial 3) ([] ++ Call.record (.maintainer ⟨"desk"⟩) clippings
      (blank .standard ⟨⟨0, 0⟩, 1⟩ ⟨0⟩ .silent)) = some (.linked (.ofSerial 10)) := by
    decide +kernel
  exact ⟨_, it, hrun, hit, hy, hlast, ((linked_of_run hrun hit hy).1).mpr hlast⟩

/-- **A metadata item may be taken away from an item that names it.**  The clipping
belongs to the second article only, and goes with the first one, although the
second one is left. -/
theorem clipping_taken : ∃ s t ctx, s.Reachable ∧ t = (deleteItem ctx (.ofSerial 6) s).2 ∧
    (∃ it, Write.latestItem s.tables (.ofSerial 6) = some it ∧
      it.metadataItem = some (.ofSerial 3) ∧
      ¬ s.tables.Belongs it.model (.ofSerial 3) (.ofSerial 6)) ∧
    (∃ it, Write.latestItem t.tables (.ofSerial 10) = some it ∧
      it.metadataItem = some (.ofSerial 3)) ∧
    Write.latestItem t.tables (.ofSerial 3) = none := by
  have hfirst : ∃ it ∈ Write.latestItem (clippingsAfter clippings).tables (.ofSerial 6),
      it.metadataItem = some (.ofSerial 3) := by decide +kernel
  have hsecond : ∃ it ∈ Write.latestItem
      (deleteItem (.maintainer ⟨"desk"⟩) (.ofSerial 6) (clippingsAfter clippings)).2.tables
      (.ofSerial 10), it.metadataItem = some (.ofSerial 3) := by decide +kernel
  have howner : ∀ a ∈ Write.latestItem (clippingsAfter clippings).tables (.ofSerial 3),
      a.metadataOf ≠ some (.ofSerial 6) := by decide +kernel
  obtain ⟨it, hit, hy⟩ := hfirst
  refine ⟨clippingsAfter clippings, _, .maintainer ⟨"desk"⟩,
    (reachable_blank _ _ _ _).evolves (evolves_afterAll _ _ _), rfl, ⟨it, hit, hy, fun hex => ?_⟩,
    ?_, ?_⟩
  · obtain ⟨a, ha, -, -, hof⟩ := hex
    exact howner a ha hof
  · obtain ⟨second, hsecond, hnames⟩ := hsecond
    exact ⟨second, hsecond, hnames⟩
  · decide +kernel

end Clippings

end Store

end ContentStore
