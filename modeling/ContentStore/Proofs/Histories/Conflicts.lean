import ContentStore.Proofs.Reachable

/-!
# No update is lost

An update that names a version goes through only if that version is the latest
one when the new snapshot is appended, which then becomes its only child.  From
then on the version is the last one of no item, and since ids are never made
again it stays so (`Tables.Spent`): no second update that names it goes through.
Whoever read a version that something else has followed, be it the repair of a
reference, is told of a conflict, and nothing is changed
(`Store.update_of_reachable`).
-/

namespace ContentStore

open Tables

/-! ## Versions that are followed -/

/-- The id was made before, and is that of no last version. -/
structure Tables.Spent (n : Nat) (t : Tables) (v : VersionId) : Prop where
  given : v.number < n
  past : ∀ x w, (t.versionsOf x).getLast? = some w → w.id ≠ v

namespace Tables.Spent

variable {n m : Nat} {t u : Tables} {v : VersionId}

theorem congr (h : Spent n t v) (hle : n ≤ m) (hversions : ∀ x, u.versionsOf x = t.versionsOf x) :
    Spent m u v where
  given := Nat.lt_of_lt_of_le h.given hle
  past := fun x w hw => h.past x w (by rw [← hversions x]; exact hw)

/-- A new version has an id of its own. -/
theorem appended (h : Spent n t v) {w : Version} (hnew : n ≤ w.id.number) (hle : n ≤ m) :
    Spent m (t.appended w) v where
  given := Nat.lt_of_lt_of_le h.given hle
  past := by
    intro x r hr
    rw [versionsOf_appended] at hr
    split at hr
    · rw [List.getLast?_concat] at hr
      cases hr
      intro heq
      have hgiven := h.given
      rw [← heq] at hgiven
      exact Nat.not_lt.mpr hnew hgiven
    · rw [List.append_nil] at hr
      exact h.past x r hr

/-- A spent version stays so when snapshots are saved. -/
theorem saves (hv : Spent n t v) {its : List Item} (h : Saves n t its m u) : Spent m u v := by
  induction h with
  | done hle => exact hv.congr hle fun _ => rfl
  | next hnew hid _ _ _ _ ih => exact ih (hv.appended hnew (by omega))

theorem deleteItem (h : Spent n t v) (item : ItemId) : Spent n (t.deleteItem item) v where
  given := h.given
  past := by
    intro x w hw
    rw [versionsOf_deleteItem] at hw
    split at hw
    · cases hw
    · exact h.past x w hw

/-- And when an item is deleted. -/
theorem removes {o : Operator} {p : Package} {it : Item} (hv : Spent n t v)
    (h : Write.Removes o p it n t m u) : Spent m u v := by
  obtain ⟨its, u', hsaves, rfl⟩ := h.saves
  have hv' := hv.saves hsaves
  cases it.metadataItem with
  | none => exact hv'.deleteItem it.id
  | some x => exact (hv'.deleteItem x).deleteItem it.id

end Tables.Spent

/-- The version that another one has just been appended to is the last of no
item: not of its own, and not of others, whose versions have other ids. -/
theorem Tables.Sound.spent_of_appended {n m : Nat} {t : Tables} {v : VersionId} {w : Version}
    (hs : Sound n t) (hlast : (t.versionsOf w.item.id).getLast?.map Version.id = some v)
    (hnew : n ≤ w.id.number) (hle : n ≤ m) : Spent m (t.appended w) v := by
  obtain ⟨l, hl, rfl⟩ := Option.map_eq_some_iff.mp hlast
  obtain ⟨hmem, hitem⟩ := mem_versionsOf.mp (List.mem_of_getLast? hl)
  have hgiven := hs.ids_given l hmem
  refine ⟨by omega, fun x r hr => ?_⟩
  rw [versionsOf_appended] at hr
  split at hr
  · rw [List.getLast?_concat] at hr
    cases hr
    intro heq
    rw [← heq] at hgiven
    exact Nat.not_lt.mpr hnew hgiven
  · rename_i hx
    rw [List.append_nil] at hr
    obtain ⟨hrmem, hritem⟩ := mem_versionsOf.mp (List.mem_of_getLast? hr)
    intro heq
    have hfound := hs.version?_of_mem hrmem
    rw [heq, hs.version?_of_mem hmem] at hfound
    cases hfound
    exact hx (hitem.symm.trans hritem)

namespace Store

variable {s t : Store} {ctx : Context} {v : VersionId}

/-- And whatever is called. -/
theorem Moves.spent (h : s.Moves t) (hs : s.Sane) (hv : Spent s.supply.next s.tables v) :
    Spent t.supply.next t.tables v := by
  have hrewires : ∀ {m u}, Write.Rewires s.supply.next s.tables m u → Spent m u v :=
    fun h => hv.congr h.supply h.versionsOf
  have hrests : ∀ {t}, s.Rests t → Spent t.supply.next t.tables v :=
    fun h => hv.congr h.2 fun x => by rw [h.1]
  cases h with
  | call ctx c =>
    cases outcome_after hs ctx c with
    | rests h => exact hrests h
    | creates _ _ _ _ hputs =>
      obtain ⟨its, hsaves⟩ := hputs.saves
      exact hv.saves hsaves
    | updates _ _ _ _ hputs =>
      obtain ⟨its, hsaves⟩ := hputs.saves
      exact hv.saves hsaves
    | removes _ _ _ _ h => exact hv.removes h
    | publishes _ _ h =>
      obtain ⟨refs, htables⟩ := h.tables
      exact hv.congr h.supply fun x => by rw [htables]; rfl
    | reshapes _ h => exact hrewires (h.rewires hs.wired)
    | declares _ h => exact hrewires (h.rewires hs.wired)
  | declare d => exact hrewires ((reshaping_declare d s).rewires hs.wired)
  | rest h => exact hrests h

/-- **Whatever happens, a version that was followed is never the last again.** -/
theorem Evolves.spent (h : s.Evolves t) (hs : s.Sane) (hv : Spent s.supply.next s.tables v) :
    Spent t.supply.next t.tables v := by
  induction h with
  | refl => exact hv
  | tail hrun hmove ih => exact hmove.spent (Evolves.sane hrun hs) ih

end Store

/-! ## Updates that name a version -/

namespace Write

variable {w w' : Work} {o : Operator} {p : Package} {param : UpdateItem} {v : Version}
  {e : VersionId}

/-- **An update that goes through follows the version that it names**, which was
the latest one until then. -/
theorem gives_updateItem_named (hs : Sound w.supply.next w.tables)
    (h : Gives (updateItem o p param) w v w') (hversion : param.version = some e) :
    v.item.id = param.item ∧ v.parents = [e] ∧
      (∃ r ∈ w'.tables.versionsOf param.item, r.id = v.id ∧ r.parents = [e]) ∧
      ¬ Spent w.supply.next w.tables e ∧ Spent w'.supply.next w'.tables e := by
  obtain ⟨old, it, values, links, w₁, w₂, w₃, a, hprepared, happend, hrepair, htables, hsupply⟩ :=
    updateItem_steps hs h
  have hs₁ := hprepared.linked.sound hs
  obtain ⟨rfl, hput, htables₂, hid, hnext, hparents, hexpected⟩ :=
    gives_append hs₁ hprepared.kin hprepared.given happend
  have hlast := hexpected e hversion
  have hitem : v.item.id = param.item := hprepared.updated.id
  rw [hlast] at hparents
  obtain ⟨edits, -, hfollow⟩ := gives_repairPartners (hput.sound hs₁) hrepair
  rw [htables, hsupply]
  refine ⟨hitem, hparents, ?_, fun hspent => ?_, Spent.saves ?_ hfollow⟩
  · refine ⟨{ v with refs := [] }, (hfollow.prefix_versionsOf _).subset ?_, rfl, hparents⟩
    rw [htables₂, versionsOf_appended, if_pos hitem]
    exact List.mem_append_right _ (List.mem_singleton_self _)
  · obtain ⟨l, hl, hle⟩ := Option.map_eq_some_iff.mp hlast
    exact (hspent.saves hprepared.linked).past _ l hl hle
  · rw [htables₂]
    exact hs₁.spent_of_appended hlast (by omega) (by omega)

/-- The metadata item that an update links is another item than the one updated. -/
theorem Prepared.ne_of_mem {old it : Item} {values : List ItemField} {links : List Item} {w₁ : Work}
    (h : Prepared o p param w old it values links w₁) (hw : Wired w.supply.next w.tables)
    (hp : w.tables.itemPackage old = .ok p) : ∀ l ∈ links, l.id ≠ it.id := by
  intro l hl heq
  obtain ⟨a, ha, -, -, S, hS, hschema⟩ := h.named l hl
  rw [heq, h.updated.stored] at ha
  cases ha
  exact metadata_ne_of_itemPackage hw hp hS hschema

/-- **An update fails with a conflict if it names another version than the latest
one**, but would go through otherwise.  The metadata item that is linked on the
way is another item. -/
theorem fails_updateItem (hs : Sound w.supply.next w.tables) (hw : Wired w.supply.next w.tables)
    (hp : ∀ old, latestItem w.tables param.item = some old → w.tables.itemPackage old = .ok p)
    (h : Gives (updateItem o p param) w v w') {l : VersionId}
    (hlast : (w.tables.versionsOf param.item).getLast?.map Version.id = some l) (hne : l ≠ e) :
    Fails (updateItem o p { param with version := some e }) w (.conflict param.item e l) := by
  obtain ⟨old, it, values, links, w₁, w₂, w₃, a, hprepared, -⟩ := updateItem_steps hs h
  have hid := hprepared.updated.id
  have hstored := hprepared.updated.stored
  have hold : latestItem w.tables param.item = some old := hid ▸ hstored
  have hlast' : (w₁.tables.versionsOf it.id).getLast?.map Version.id = some l := by
    rw [hprepared.linked.versionsOf_other (hprepared.ne_of_mem hw (hp old hold)), hid]
    exact hlast
  have hconflict := append_conflict (hprepared.linked.sound hs) hlast' hne
  rw [hid] at hconflict
  exact hprepared.fails (some e) _ hconflict

end Write

namespace Store

variable {s : Store} {ctx : Context} {param : UpdateItem} {v : VersionId}

/-- What is checked before an update begins does not depend on the version that
it names. -/
theorem updateItem_eq_ok {w : Version} (h : (updateItem ctx param s).1 = .ok w) :
    ∃ p, s.writtenPackage ctx param.item = .ok p ∧
      ∀ version, updateItem ctx { param with version } s =
        transact ctx (Write.updateItem ctx.operator p { param with version }) s.polled := by
  unfold updateItem at h ⊢
  dsimp only at h ⊢
  split at h
  · cases h
  · rename_i hfields
    cases hp : s.writtenPackage ctx param.item with
    | error e =>
      change ((liftM (s.writtenPackage ctx param.item) >>= _ : Operation Version) s).1 = _ at h
      rw [hp] at h
      cases h
    | ok p =>
      refine ⟨p, rfl, fun version => ?_⟩
      rw [if_neg hfields]
      change (liftM (s.writtenPackage ctx param.item) >>= _ : Operation Version) s = _
      rw [hp]
      rfl

/-- No update that names the version goes through any more. -/
def Superseded (s : Store) (v : VersionId) : Prop :=
  ∀ t, s.Evolves t → ∀ ctx param w, param.version = some v → (updateItem ctx param t).1 ≠ .ok w

/-- No update that names a spent version goes through. -/
theorem superseded_of_spent (hs : s.Sane) (hv : Spent s.supply.next s.tables v) :
    s.Superseded v := by
  intro t hrun ctx param w hversion h
  have ht := Evolves.sane hrun hs
  obtain ⟨p, -, heq⟩ := updateItem_eq_ok h
  rw [heq param.version] at h
  obtain ⟨-, W, hgives, -⟩ := transact_eq_ok (Write.grows_updateItem _ _ _) h
  obtain ⟨-, -, -, hnot, -⟩ := Write.gives_updateItem_named ht.sound hgives hversion
  have hspent := Evolves.spent hrun hs hv
  exact hnot hspent

/-- **No update is lost.**  An update of a reachable store that names a version
and goes through makes a version with that one as its only parent, and no update
that names it goes through ever after.  An update that names another version than
the latest one, and would go through if it named some other version or none,
fails with a conflict, which is worth another try, and changes nothing. -/
theorem update_of_reachable (hs : s.Reachable) (hversion : param.version = some v) :
    (∀ w, (updateItem ctx param s).1 = .ok w →
      w.item.id = param.item ∧ w.parents = [v] ∧
        (∃ r ∈ (updateItem ctx param s).2.tables.versionsOf param.item,
          r.id = w.id ∧ r.parents = [v]) ∧
        (updateItem ctx param s).2.Superseded v) ∧
      ∀ l, s.tables.latest? param.item = some l → l.id ≠ v →
        (∃ version w, (updateItem ctx { param with version } s).1 = .ok w) →
        (Error.conflict param.item v l.id).isRetryable = true ∧
          ∃ t, updateItem ctx param s = (.error (.conflict param.item v l.id), t) ∧
            t.tables = s.tables ∧ t.emitter = s.emitter ∧ t.config = s.config := by
  have hsane := hs.sane
  constructor
  · intro w h
    have hafter : (updateItem ctx param s).2.Sane :=
      Moves.sane (.call ctx (.updateItem param)) hsane
    obtain ⟨p, -, heq⟩ := updateItem_eq_ok h
    have heq := heq param.version
    rw [heq] at h hafter ⊢
    obtain ⟨-, W, hgives, hkeep⟩ := transact_eq_ok (Write.grows_updateItem _ _ _) h
    obtain ⟨hitem, hparents, hstored, -, hspent⟩ :=
      Write.gives_updateItem_named hsane.sound hgives hversion
    rw [hkeep] at hafter ⊢
    exact ⟨hitem, hparents, hstored, superseded_of_spent hafter hspent⟩
  · intro l hl hne hother
    refine ⟨rfl, ?_⟩
    obtain ⟨version, w, h⟩ := hother
    obtain ⟨p, hp, heq⟩ := updateItem_eq_ok h
    rw [heq version] at h
    obtain ⟨hactive, W, hgives, -⟩ := transact_eq_ok (Write.grows_updateItem _ _ _) h
    obtain ⟨it, hit, hpackage, -⟩ := writtenPackage_eq_ok hp
    have hlast : (s.tables.versionsOf param.item).getLast?.map Version.id = some l.id := by
      rw [← hsane.sound.target?_latest]
      exact target?_of_latest? hl
    have hfails := Write.fails_updateItem (e := v) hsane.sound hsane.wired
      (fun old hold => Option.some.inj (hit.symm.trans hold) ▸ hpackage) hgives hlast hne
    obtain ⟨t, ht⟩ := transact_of_fails hactive hfails
    obtain ⟨htables, hemitter, hconfig⟩ := transact_error (Write.grows_updateItem _ _ _) ht
    have hsame : param = { param with version := some v } := by rw [← hversion]
    rw [hsame]
    exact ⟨t, (heq (some v)).trans ht, htables, hemitter, hconfig⟩

section Staff

/-- People with names and mentors, each mentor with one pupil.  Two of them are
there, and then the second one becomes the pupil of the first. -/
def staff : List Call := [
  .createModel (.ofKey ⟨"project"⟩ ⟨"staff"⟩ "person"),
  .createField { NewField.ofKey (.ofSerial 0) "mentor"
    (.reference (.ofSerial 1) (.ofSerial 0) none) with mirror := some (.ofKey "pupil") },
  .createField (.ofKey (.ofSerial 0) "name" (.text none)),
  .createItem ⟨.ofSerial 1, [.byKey "name" (.string "Ann")], none⟩,
  .createItem ⟨.ofSerial 1, [.byKey "name" (.string "Bob")], none⟩,
  .updateItem ⟨.ofSerial 9, none,
    [.byKey "mentor" (.string (Id.ofSerial 6 : ItemId).text)], none⟩]

/-- The store in which the mentor has followed the write of the pupil. -/
def staffStore : Store :=
  Call.afterAll (.maintainer ⟨"staff"⟩) staff (blank .standard ⟨⟨0, 0⟩, 1⟩ ⟨0⟩ .silent)

/-- The mentor is renamed, by somebody who has read the version. -/
def rename (v : VersionId) : UpdateItem :=
  ⟨.ofSerial 6, some v, [.byKey "name" (.string "Anna")], none⟩

/-- Whoever read the mentor before the repair is told of a conflict; whoever read
it afterwards may rename it, once. -/
theorem update_of_staff :
    (∃ t, updateItem (.maintainer ⟨"staff"⟩) (rename ⟨8⟩) staffStore =
      (.error (.conflict (.ofSerial 6) ⟨8⟩ ⟨13⟩), t) ∧ t.tables = staffStore.tables) ∧
      ∃ w, (updateItem (.maintainer ⟨"staff"⟩) (rename ⟨13⟩) staffStore).1 = .ok w ∧
        w.parents = [⟨13⟩] ∧
        (updateItem (.maintainer ⟨"staff"⟩) (rename ⟨13⟩) staffStore).2.Superseded ⟨13⟩ := by
  have hreach : staffStore.Reachable := (reachable_blank _ _ _ _).evolves (evolves_afterAll _ _ _)
  have hlatest : ∃ l ∈ staffStore.tables.latest? (.ofSerial 6), l.id = ⟨13⟩ := by decide +kernel
  obtain ⟨l, hl, hlid⟩ := hlatest
  have hok : (updateItem (.maintainer ⟨"staff"⟩) (rename ⟨13⟩) staffStore).1.isOk = true := by
    decide +kernel
  have hsucceeds :
      ∃ w, (updateItem (.maintainer ⟨"staff"⟩) (rename ⟨13⟩) staffStore).1 = .ok w := by
    cases h : (updateItem (.maintainer ⟨"staff"⟩) (rename ⟨13⟩) staffStore).1 with
    | error e =>
      rw [h] at hok
      cases hok
    | ok w => exact ⟨w, rfl⟩
  obtain ⟨w, hw⟩ := hsucceeds
  have hnamed : ∀ v, (rename v).version = some v := fun _ => rfl
  constructor
  · have hstale := (update_of_reachable hreach (hnamed ⟨8⟩)).2 l hl (by rw [hlid]; decide)
      ⟨some ⟨13⟩, w, hw⟩
    obtain ⟨-, t, ht, htables, -⟩ := hstale
    rw [hlid] at ht
    exact ⟨t, ht, htables⟩
  · obtain ⟨-, hparents, -, hsuperseded⟩ :=
      (update_of_reachable hreach (hnamed ⟨13⟩)).1 w hw
    exact ⟨w, hw, hparents, hsuperseded⟩

end Staff

end Store

end ContentStore
