import ContentStore.Proofs.Histories.Saves
import ContentStore.Proofs.Writes.Events

/-!
# What publishing does

Publishing and withdrawing move refs and make no version.  A ref moves to the
latest version of its own item only, so histories stay sound, and since the
versions stay the same the latest snapshots do, too.
-/

namespace ContentStore.Write

open Tables

/-- Only refs differ, and they are sound with the versions that are there. -/
structure MovesRefs (n : Nat) (t : Tables) (m : Nat) (u : Tables) : Prop where
  tables : ∃ refs, u = { t with refs }
  supply : n ≤ m
  sound : Sound m u

/-- Moving refs leaves all versions. -/
theorem MovesRefs.versionsOf {n m : Nat} {t u : Tables} (h : MovesRefs n t m u) (x : ItemId) :
    u.versionsOf x = t.versionsOf x := by
  obtain ⟨refs, rfl⟩ := h.tables
  rfl

/-- Moving `public` leaves the latest snapshots. -/
theorem MovesRefs.latestItem {n m : Nat} {t u : Tables} (h : MovesRefs n t m u) (hs : Sound n t) :
    latestItem u = latestItem t := by
  obtain ⟨refs, rfl⟩ := h.tables
  funext x
  rw [h.sound.latestItem_eq, hs.latestItem_eq]
  rfl

/-- The operator maintains the workspace of a stored item. -/
def Maintained (o : Operator) (t : Tables) (x : ItemId) : Prop :=
  ∃ it p, latestItem t x = some it ∧ t.itemPackage it = .ok p ∧
    o.canMaintain p.schema.workspace = true

section

variable {w w' : Work} {o : Operator} {how : Publication}

/-- A history of versions that are stored. -/
structure IsStored (t : Tables) (h : History) : Prop where
  versions : ∀ id v, h.version? id = some v →
    ∃ w ∈ t.versionsOf h.item, w.id = id ∧ w.item = v.item
  latest : h.latest = t.target? h.item .latest

/-- A history is loaded just if there is one. -/
theorem history_eq_ok {t : Tables} {id : ItemId} {h : History} :
    history t id = .ok h ↔ t.history? id = some h := by
  unfold history
  cases t.history? id <;> simp

/-- A history that is loaded is made of what is stored of the item. -/
theorem isStored_of_history {t : Tables} {id : ItemId} {h : History} (hh : history t id = .ok h) :
    IsStored t h ∧ h.item = id := by
  obtain ⟨-, hitem, hlatest, hversions⟩ := history?_eq_some (history_eq_ok.mp hh)
  refine ⟨⟨fun vid v hv => ?_, by rw [hlatest, hitem]⟩, hitem⟩
  have hvid : v.id = vid := by simpa using List.find?_some hv
  have hmem : (v.id, v.item) ∈ (t.versionsOf id).map fun v => (v.id, v.item) :=
    hversions ▸ List.mem_map_of_mem (List.mem_of_find?_eq_some hv)
  obtain ⟨w, hw, heq⟩ := List.mem_map.mp hmem
  obtain ⟨hwid, hwitem⟩ := Prod.mk.inj heq
  exact ⟨w, hitem ▸ hw, hwid.trans hvid, hwitem⟩

/-- The last version stored is the latest one of a history. -/
theorem IsStored.last {t : Tables} {n : Nat} {h : History} {v : Version} (hstored : IsStored t h)
    (hs : Sound n t) (hv : h.latest? = some v) :
    ∃ last, (t.versionsOf h.item).getLast? = some last ∧ last.id = v.id ∧ last.item = v.item := by
  obtain ⟨vid, hlatest, hv⟩ := Option.bind_eq_some_iff.mp hv
  obtain ⟨w, hw, rfl, hitem⟩ := hstored.versions vid v hv
  have htarget : t.target? h.item .latest = some w.id := hstored.latest.symm.trans hlatest
  rw [hs.target?_latest] at htarget
  obtain ⟨l, hl, hlid⟩ := Option.map_eq_some_iff.mp htarget
  -- ids of versions are distinct, so the last one is the version found
  have hl' := hs.version?_of_mem (mem_versionsOf.mp (List.mem_of_getLast? hl)).1
  rw [hlid, hs.version?_of_mem (mem_versionsOf.mp hw).1] at hl'
  have hvid : v.id = w.id := by simpa using List.find?_some hv
  exact ⟨l, hl, hlid.trans hvid.symm, by rw [← Option.some.inj hl', hitem]⟩

/-- The latest version of a history is that of its item. -/
theorem IsStored.latestItem {t : Tables} {n : Nat} {h : History} {v : Version}
    (hstored : IsStored t h) (hs : Sound n t) (hv : h.latest? = some v) :
    latestItem t h.item = some v.item := by
  obtain ⟨last, hlast, -, hitem⟩ := hstored.last hs hv
  rw [hs.latestItem_eq, hlast, Option.map_some, hitem]

/-- The history after `public` has been moved. -/
def repointed (how : Publication) (h : History) : History :=
  match how with
  | .publish => (h.setTarget .published h.latest).syncRefs
  | .withdraw => (h.setTarget .published none).syncRefs

/-- Moving a ref sets it and brings the lists of refs up to date. -/
theorem moveRef_eq_ok {h moved : History} {target : Option VersionId}
    (hmoved : h.moveRef .published target = .ok moved) :
    moved = (h.setTarget .published target).syncRefs := by
  unfold History.moveRef at hmoved
  cases target with
  | none =>
    cases hmoved
    rfl
  | some vid =>
    dsimp only at hmoved
    split at hmoved
    · cases hmoved
      rfl
    · cases hmoved

/-- Moving `public` leaves the latest version as it is, but for the refs listed
with it. -/
theorem latest?_repointed (how : Publication) {h : History} {v : Version}
    (hv : (repointed how h).latest? = some v) :
    ∃ a, h.latest? = some a ∧ v.id = a.id ∧ v.item = a.item := by
  have hsync : ∀ target, (h.setTarget .published target).syncRefs.latest? = some v →
      ∃ a, h.latest? = some a ∧ v.id = a.id ∧ v.item = a.item := by
    intro target hv
    obtain ⟨vid, hlatest, hv⟩ := Option.bind_eq_some_iff.mp hv
    unfold History.version? History.syncRefs at hv
    rw [List.find?_map] at hv
    obtain ⟨a, ha, rfl⟩ := Option.map_eq_some_iff.mp hv
    exact ⟨a, Option.bind_eq_some_iff.mpr ⟨vid, hlatest, ha⟩, rfl, rfl⟩
  cases how with
  | publish => exact hsync _ hv
  | withdraw => exact hsync _ hv

/-- Announcing a version queues an event about it and changes nothing else. -/
theorem gives_announce {latest : Option Version} {e : Version → Event} {missing : Error}
    {v : Version}
    (h : Gives (match latest with
      | some v => do
        queue (e v)
        pure v
      | _ => throw missing : Write Version) w v w') :
    latest = some v ∧ w' = { w with events := w.events ++ [e v] } := by
  cases latest with
  | none => exact (gives_throw h).elim
  | some latest =>
    simp only [gives_bind, gives_pure] at h
    obtain ⟨_, w₁, hqueue, rfl, rfl⟩ := h
    cases hqueue
    exact ⟨rfl, rfl⟩

/-- What publishing or withdrawing an item writes. -/
def moved (how : Publication) (x : ItemId) (latest : VersionId) (t : Tables) : Tables :=
  match how with
  | .publish => t.setRef x .published latest
  | .withdraw => t.deleteRef x .published

/-- What `public` names afterwards. -/
def publicRows (how : Publication) (x : ItemId) (latest : VersionId) : List RefRow :=
  match how with
  | .publish => [⟨x, .published, latest⟩]
  | .withdraw => []

/-- Publishing writes the rows of `public` of this item, and no others. -/
theorem rowsOf_moved (how : Publication) (x y : ItemId) (latest : VersionId) (r : Ref)
    (t : Tables) :
    (moved how x latest t).rowsOf y r =
      if y = x ∧ r = .published then publicRows how x latest else t.rowsOf y r := by
  cases how with
  | publish => exact rowsOf_setRef t x y .published r latest
  | withdraw => exact rowsOf_deleteRef t x y .published r

/-- An item may be published at its last version, or withdrawn. -/
theorem movesRefs_moved {n : Nat} {t : Tables} {x : ItemId} {last : Version} (hs : Sound n t)
    (hlast : (t.versionsOf x).getLast? = some last) (how : Publication) :
    MovesRefs n t n (moved how x last.id t) := by
  cases how with
  | publish => exact ⟨⟨_, rfl⟩, Nat.le_refl _, hs.setPublished (List.mem_of_getLast? hlast)⟩
  | withdraw => exact ⟨⟨_, rfl⟩, Nat.le_refl _, hs.deletePublished x⟩

/-- **The steps of moving `public`.**  The version returned is shown as it is once
`public` has moved. -/
theorem movePublic_steps {start : Time.Instant} {h : History} {v : Version}
    (hgives : Gives (movePublic o how start h) w v w') :
    (repointed how h).latest? = some v ∧
      ∃ a, h.latest? = some a ∧ v.id = a.id ∧ v.item = a.item ∧
        w' = { w with
          tables := moved how h.item a.id w.tables
          events := w.events ++ [⟨how.event, v, o, [], [], start⟩] } := by
  unfold movePublic at hgives
  cases how with
  | withdraw =>
    simp only [gives_bind, gives_lift, gives_change, gives_pure] at hgives
    obtain ⟨_, _, ⟨hmoved, rfl⟩, _, _, rfl, _, _, ⟨rfl, rfl⟩, hrest⟩ := hgives
    obtain ⟨hv, rfl⟩ := gives_announce hrest
    rw [moveRef_eq_ok hmoved] at hv
    obtain ⟨a, ha, hid, hitem⟩ := latest?_repointed .withdraw hv
    exact ⟨hv, a, ha, hid, hitem, rfl⟩
  | publish =>
    cases hlatest : h.latest with
    | none =>
      rw [hlatest] at hgives
      simp only [gives_bind] at hgives
      obtain ⟨_, _, hthrow, -⟩ := hgives
      exact (gives_throw hthrow).elim
    | some latest =>
      rw [hlatest] at hgives
      simp only [gives_bind, gives_lift, gives_change, gives_pure] at hgives
      obtain ⟨_, _, ⟨hmoved, rfl⟩, _, _, rfl, _, _, ⟨rfl, rfl⟩, hrest⟩ := hgives
      obtain ⟨hv, rfl⟩ := gives_announce hrest
      rw [moveRef_eq_ok hmoved, ← hlatest] at hv
      obtain ⟨a, ha, hid, hitem⟩ := latest?_repointed .publish hv
      obtain ⟨_, hlatest', hfound⟩ := Option.bind_eq_some_iff.mp ha
      obtain rfl := Option.some.inj (hlatest.symm.trans hlatest')
      have haid : a.id = latest := by simpa using List.find?_some hfound
      exact ⟨hv, a, ha, hid, hitem, by rw [haid]; rfl⟩

/-- **What publishing or withdrawing one item does.** -/
theorem gives_movePublic {start : Time.Instant} {h : History} {v : Version}
    (hs : Sound w.supply.next w.tables) (hstored : IsStored w.tables h)
    (hgives : Gives (movePublic o how start h) w v w') :
    ∃ last, (w.tables.versionsOf h.item).getLast? = some last ∧ last.id = v.id ∧
      last.item = v.item ∧ h.latest?.isSome = true ∧
      w'.tables = moved how h.item last.id w.tables ∧ w'.supply = w.supply ∧
      w'.events = w.events ++ [⟨how.event, v, o, [], [], start⟩] := by
  obtain ⟨-, a, ha, hid, hitem, rfl⟩ := movePublic_steps hgives
  obtain ⟨last, hlast, hlastid, hlastitem⟩ := hstored.last hs ha
  rw [← hlastid]
  exact ⟨last, hlast, hlastid.trans hid.symm, hlastitem.trans hitem.symm, by rw [ha]; rfl, rfl, rfl,
    rfl⟩

/-- Refs that move leave histories stored. -/
theorem IsStored.moved {t : Tables} {n : Nat} {h : History} {x : ItemId} {last : Version}
    (hstored : IsStored t h) (hs : Sound n t) (hlast : (t.versionsOf x).getLast? = some last)
    (how : Publication) : IsStored (moved how x last.id t) h := by
  obtain ⟨⟨refs, htables⟩, -, hsound⟩ := movesRefs_moved hs hlast how
  refine ⟨by rw [htables]; exact hstored.versions, ?_⟩
  -- `latest` stays where it is
  rw [hsound.target?_latest, hstored.latest, hs.target?_latest, htables]
  rfl

/-- What publishing or withdrawing items does: for each item of the list, in its
order, `public` moves and an event is queued, and that is all. -/
structure MovesPublic (o : Operator) (how : Publication) (ids : List ItemId) (vs : List Version)
    (w w' : Work) : Prop where
  refs : MovesRefs w.supply.next w.tables w'.supply.next w'.tables
  items : vs.map (fun v => v.item.id) = ids
  listed : ∀ x ∈ ids, ∃ last, (w.tables.versionsOf x).getLast? = some last ∧
    w'.tables.rowsOf x .published = publicRows how x last.id
  others : ∀ x r, x ∉ ids ∨ r ≠ .published → w'.tables.rowsOf x r = w.tables.rowsOf x r
  events : ∃ es, w'.events = w.events ++ es ∧ Reports how.event o vs es

/-- **Items are published or withdrawn one by one**, each of those listed, and each has a
version. -/
theorem gives_movesPublic {start : Time.Instant} {histories : List History} {vs : List Version}
    (hs : Sound w.supply.next w.tables) (hstored : ∀ h ∈ histories, IsStored w.tables h)
    (hgives : Gives (histories.mapM (movePublic o how start)) w vs w') :
    MovesPublic o how (histories.map History.item) vs w w' ∧
      ∀ h ∈ histories, h.latest?.isSome = true := by
  induction histories generalizing w vs with
  | nil =>
    obtain ⟨rfl, rfl⟩ := gives_mapM_nil.mp hgives
    refine ⟨⟨⟨⟨_, rfl⟩, Nat.le_refl _, hs⟩, rfl, ?_, fun _ _ _ => rfl, [], ?_, rfl⟩, ?_⟩
    · exact fun _ hx => (List.not_mem_nil hx).elim
    · rw [List.append_nil]
    · exact fun _ hx => (List.not_mem_nil hx).elim
  | cons h histories ih =>
    obtain ⟨v, u, vs', hfirst, hrest, rfl⟩ := gives_mapM_cons.mp hgives
    obtain ⟨last, hlast, hid, hitem, hlatest, htables, hsupply, hevents⟩ :=
      gives_movePublic hs (hstored h List.mem_cons_self) hfirst
    obtain ⟨⟨refs, htables₁⟩, -, hsound⟩ := movesRefs_moved hs hlast how
    have hrows := fun y r => rowsOf_moved how h.item y last.id r w.tables
    have hstored' : ∀ h' ∈ histories, IsStored u.tables h' := by
      intro h' hh'
      rw [htables]
      exact (hstored h' (List.mem_cons_of_mem _ hh')).moved hs hlast how
    rw [← htables] at hsound hrows htables₁
    rw [← hsupply] at hsound
    obtain ⟨⟨⟨⟨refs', htables₂⟩, hle, hsound'⟩, hitems, hlisted, hothers, es, hes, hesvs⟩, hall⟩ :=
      ih hsound hstored' hrest
    have hversions : ∀ x, u.tables.versionsOf x = w.tables.versionsOf x := by
      intro x
      rw [htables₁]
      rfl
    refine ⟨⟨⟨⟨refs', by rw [htables₂, htables₁]⟩, by rw [hsupply] at hle; exact hle, hsound'⟩, ?_,
      fun x hx => ?_, fun x r hx => ?_, ⟨_, by rw [hes, hevents, List.append_assoc], ?_⟩⟩, ?_⟩
    · have hown := (mem_versionsOf.mp (List.mem_of_getLast? hlast)).2
      rw [List.map_cons, List.map_cons, hitems, ← hitem, hown]
    · by_cases hmore : x ∈ histories.map History.item
      · rw [← hversions]
        exact hlisted x hmore
      · have hx : x = h.item := (List.mem_cons.mp hx).resolve_right hmore
        subst hx
        exact ⟨last, hlast, by rw [hothers _ _ (.inl hmore), hrows, if_pos ⟨rfl, rfl⟩]⟩
    · have hmore : x ∉ histories.map History.item ∨ r ≠ .published :=
        hx.imp_left fun hx hmem => hx (List.mem_cons_of_mem _ hmem)
      have hfirst : ¬ (x = h.item ∧ r = .published) := by
        intro hboth
        rcases hx with hx | hr
        · exact hx (hboth.1 ▸ List.mem_cons_self)
        · exact hr hboth.2
      rw [hothers x r hmore, hrows, if_neg hfirst]
    · exact congrArg (_ :: ·) hesvs
    · exact fun h' hh' => (List.mem_cons.mp hh').elim (fun heq => heq ▸ hlatest) (hall h')

/-- **The steps of publishing and withdrawing.**  All histories are read before the
first ref moves. -/
theorem moveAllPublic_steps {ids : List ItemId} {vs : List Version}
    (hgives : Gives (moveAllPublic o how ids) w vs w') :
    ∃ histories start w₁, ids.mapM (history w.tables) = .ok histories ∧
      (∀ v ∈ histories.filterMap History.latest?, checkMaintained w.tables o v = .ok ()) ∧
      w₁.tables = w.tables ∧ w₁.supply = w.supply ∧ w₁.events = w.events ∧
      Gives (histories.mapM (movePublic o how start)) w₁ vs w' := by
  unfold moveAllPublic at hgives
  simp only [gives_bind, gives_tables, gives_lift] at hgives
  obtain ⟨_, _, ⟨rfl, rfl⟩, histories, _, ⟨hhistories, rfl⟩, hrest⟩ := hgives
  split at hrest
  · simp only [gives_bind] at hrest
    obtain ⟨_, _, hthrow, -⟩ := hrest
    exact (gives_throw hthrow).elim
  · simp only [gives_bind, gives_lift] at hrest
    obtain ⟨_, _, ⟨hmaintained, rfl⟩, start, w₁, hnow, hmoves⟩ := hrest
    have hevents : w₁.events = w.events := by
      cases hnow
      rfl
    obtain ⟨htables, hsupply⟩ := gives_now hnow
    exact ⟨histories, start, w₁, hhistories, ok_of_forM hmaintained, htables, hsupply, hevents,
      hmoves⟩

/-- **What publishing and withdrawing do.**  The operator maintains all of the
items. -/
theorem gives_moveAllPublic {ids : List ItemId} {vs : List Version}
    (hs : Sound w.supply.next w.tables) (hgives : Gives (moveAllPublic o how ids) w vs w') :
    MovesPublic o how ids vs w w' ∧ ∀ x ∈ ids, Maintained o w.tables x := by
  obtain ⟨histories, start, w₁, hhistories, hmaintained, htables, hsupply, hevents, hmoves⟩ :=
    moveAllPublic_steps hgives
  have hread := forall₂_of_mapM hhistories
  have hstored : ∀ h ∈ histories, IsStored w.tables h := by
    intro h hh
    obtain ⟨id, -, hid⟩ := mem_of_mapM hhistories h hh
    exact (isStored_of_history hid).1
  have hids : histories.map History.item = ids := by
    rw [← List.forall₂_eq_eq_eq, List.forall₂_map_left_iff]
    exact hread.flip.imp fun _ _ hid => (isStored_of_history hid).2
  obtain ⟨hmoved, hlatest⟩ := gives_movesPublic (by rw [htables, hsupply]; exact hs)
    (by rw [htables]; exact hstored) hmoves
  obtain ⟨hrefs, hitems, hlisted, hothers, hqueued⟩ := hmoved
  rw [hids] at hitems hlisted hothers
  rw [htables] at hrefs hlisted hothers
  rw [hsupply] at hrefs
  rw [hevents] at hqueued
  refine ⟨⟨hrefs, hitems, hlisted, hothers, hqueued⟩, fun x hx => ?_⟩
  obtain ⟨h, hh, rfl⟩ := List.mem_map.mp (hids ▸ hx)
  obtain ⟨v, hv⟩ := Option.isSome_iff_exists.mp (hlatest h hh)
  have hchecked := hmaintained v (List.mem_filterMap.mpr ⟨h, hh, hv⟩)
  obtain ⟨p, hp, hmay⟩ := bind_eq_ok.mp hchecked
  exact ⟨v.item, p, (hstored h hh).latestItem hs hv, hp, Operator.checkMaintain_eq_ok.mp hmay⟩

end

end ContentStore.Write
