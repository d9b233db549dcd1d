import ContentStore.Proofs.Pairing.Partners

/-!
# Partners in every state of a run

On a catalog that stays, what a stored item holds in a paired field is a stored
item that holds it back, or a metadata item that was deleted while it did
(`Store.partner_of_run`).  The latter does happen (`Store.partner_lost`): items
of a model with metadata may be held by their model alone, and a metadata item
is deleted without its partner being told.
-/

namespace ContentStore

open Tables Pairing Write

/-- Where the items stay, so do their partners. -/
theorem Tables.partnered_congr {n m : Nat} {t u : Tables} (hP : Partnered n t)
    (hcatalog : SameCatalog t u) (hle : n ≤ m) (hlatest : latestItem u = latestItem t) :
    Partnered m u ∧ OnlyMetadataLost t u := by
  have hpaired : u.Paired = t.Paired := by
    funext x f
    simp only [Paired, hlatest, hcatalog.pairs]
  refine ⟨⟨?linked, ?given, ?metadata⟩, ?lost⟩
  case linked =>
    rw [hcatalog.schemas, hlatest, hpaired]
    exact hP.linked
  case given =>
    rw [hlatest, hpaired]
    intro x f y hx hxy
    exact (hP.given hx hxy).mono hle
  case metadata =>
    rw [hlatest]
    intro x it hit y hy
    obtain ⟨hgiven, hmetadata⟩ := hP.metadata x it hit y hy
    exact ⟨hgiven.mono hle, fun a ha => hcatalog.isMetadata rfl (hmetadata a ha)⟩
  case lost =>
    intro x y f g _ hx hxy hy
    rw [hpaired] at hx
    rw [hlatest] at hxy hy
    exact ⟨hx, hxy, .inl hy⟩

/-- The item is stored and holds `y` in a two-way field of its schema, which has
the mirror `g`. -/
def Tables.Holds (t : Tables) (x : ItemId) (g : FieldId) (y : ItemId) : Prop :=
  ∃ S ∈ t.schemas, ∃ F ∈ S.fields, F.corresponding? = some g ∧
    ∃ it ∈ latestItem t x, it.schema = S.id ∧ it.reference? F.id = some y

instance {t : Tables} {x y : ItemId} {g : FieldId} : Decidable (t.Holds x g y) :=
  inferInstanceAs (Decidable (∃ S ∈ t.schemas, ∃ F ∈ S.fields, F.corresponding? = some g ∧
    ∃ it ∈ latestItem t x, it.schema = S.id ∧ it.reference? F.id = some y))

/-- A two-way field of the schema of an item belongs to its model. -/
theorem Tables.Holds.edge {s : Store} (hs : s.Stocked) {x y : ItemId} {g : FieldId}
    (h : s.tables.Holds x g y) : ∃ f, Mates s.tables.schemas f g ∧ s.tables.Paired x f ∧
      edges (latestItem s.tables) x f = some y := by
  obtain ⟨S, hS, F, hF, hg, it, hx, hschema, hy⟩ := h
  obtain ⟨M, hM, hid, hown⟩ := (hs.suits x it hx).placed
  obtain ⟨far, hfar, -⟩ := Field.farEnd?_of_corresponding? hg
  have hd := Wired.declares_of_mem hS hF
  rw [hfar] at hd
  rw [hschema] at hown
  have hhosts := hid ▸ hs.sane.wired.hosts_of_declares hM hown hd
  exact ⟨F.id, ⟨S, hS, F, hF, rfl, hg⟩, ⟨it, hx, S.id, far, hhosts, hd⟩,
    (edges_of_some hx F.id).trans hy⟩

namespace Store

variable {s t : Store}

/-- **A step about items leaves stored items partnered**, and loses metadata
items only. -/
theorem partnered_of_step (hs : s.Stocked) (hP : Partnered s.supply.next s.tables)
    (h : Step Call.OnItems s t) :
    Partnered t.supply.next t.tables ∧ OnlyMetadataLost s.tables t.tables := by
  obtain ⟨hcatalog, -⟩ := sameCatalog_of_step hs.sane h
  cases touches_of_step hs h with
  | rests h => exact partnered_congr hP hcatalog h.2 (by rw [h.1])
  | puts h hputs => exact partnered_puts hs.sane.sound hs.sane.wired hP h hputs
  | removes hp hmodel hschema h =>
    exact partnered_removes hs.sane.sound hs.sane.wired hP hp hmodel hschema h
  | publishes h => exact partnered_congr hP hcatalog h.supply (h.latestItem hs.sane.sound)

/-- An item that is stored no more does not come back. -/
theorem gone_of_step (hs : s.Stocked) (h : Step Call.OnItems s t) {y : ItemId}
    (hgiven : y.Given s.supply.next) (hy : latestItem s.tables y = none) :
    latestItem t.tables y = none := by
  cases touches_of_step hs h with
  | rests h => rwa [h.1]
  | puts h hputs => exact h.gone_after hs.sane.sound hs.sane.wired hputs hgiven hy
  | removes _ _ _ h => exact h.gone hs.sane.sound hy
  | publishes h => rwa [h.latestItem hs.sane.sound]

theorem gone_of_run (hs : s.Stocked) (h : Run Call.OnItems s t) {y : ItemId}
    (hgiven : y.Given s.supply.next) (hy : latestItem s.tables y = none) :
    latestItem t.tables y = none ∧ y.Given t.supply.next := by
  induction h with
  | refl => exact ⟨hy, hgiven⟩
  | tail hrun hstep ih =>
    have hv := stocked_of_run hs hrun
    obtain ⟨hy, hgiven⟩ := ih
    exact ⟨gone_of_step hv hstep hgiven hy, hgiven.mono (sameCatalog_of_step hv.sane hstep).2⟩

/-- In a run from `s` to `t` the metadata item `y` was deleted while it held `x` in
the field `g`. -/
def DeletedWhileHolding (s t : Store) (y : ItemId) (g : FieldId) (x : ItemId) : Prop :=
  ∃ u v b, Run Call.OnItems s u ∧ Step Call.OnItems u v ∧ Run Call.OnItems v t ∧
    latestItem u.tables y = some b ∧ u.tables.IsMetadata b ∧ b.reference? g = some x ∧
    latestItem v.tables y = none

theorem DeletedWhileHolding.gone (hs : s.Stocked) {x y : ItemId} {g : FieldId}
    (h : DeletedWhileHolding s t y g x) : latestItem t.tables y = none := by
  obtain ⟨u, v, b, hsu, huv, hvt, hb, -, -, hy⟩ := h
  have hu := stocked_of_run hs hsu
  have hgiven := (hu.sane.sound.item_given hb).mono (sameCatalog_of_step hu.sane huv).2
  exact (gone_of_run (stocked_of_step hu huv) hvt hgiven hy).1

/-- Stored items are partnered all along, and what is held and gone was deleted
as a metadata item that held back. -/
theorem partnered_of_run (hs : s.Sane) (hempty : s.Unstocked) (h : Run Call.OnItems s t) :
    Partnered t.supply.next t.tables ∧ ∀ {x y f g}, Mates t.tables.schemas f g →
      t.tables.Paired x f → edges (latestItem t.tables) x f = some y →
      latestItem t.tables y = none → DeletedWhileHolding s t y g x := by
  have hstocked := hempty.stocked hs
  induction h with
  | refl =>
    refine ⟨partnered_of_empty (hempty.latestItem hs), ?_⟩
    intro x y f g _ hex
    obtain ⟨it, hit, -⟩ := hex
    exact nomatch (hempty.latestItem hs x).symm.trans hit
  | @tail v w hrun hstep ih =>
    obtain ⟨hP, hlost⟩ := ih
    have hv := stocked_of_run hstocked hrun
    obtain ⟨hcatalog, -⟩ := sameCatalog_of_step hv.sane hstep
    obtain ⟨hP', honly⟩ := partnered_of_step hv hP hstep
    refine ⟨hP', ?_⟩
    intro x y f g hfg hx hxy hy
    rw [hcatalog.schemas] at hfg
    obtain ⟨hx', hxy', hy' | ⟨b, hb, hmetadata⟩⟩ := honly hfg hx hxy hy
    · obtain ⟨u, v, b, hu, huv, hv, hb⟩ := hlost hfg hx' hxy' hy'
      exact ⟨u, v, b, hu, huv, hv.tail hstep, hb⟩
    · refine ⟨v, w, b, hrun, hstep, .refl, hb, hmetadata, ?_, hy⟩
      obtain ⟨-, hgone | ⟨-, hback⟩⟩ := hP.linked.back hfg hx' hxy'
      · exact nomatch hgone.symm.trans hb
      · rwa [edges_of_some hb] at hback

/-- **What an item holds in a two-way field** is another item.  It is stored and
holds the item in the mirror, unless it was a metadata item and was deleted while
it held the item. -/
theorem partner_of_run {config : Config} {clock : Time.Clock} {supply : Supply}
    {emitter : Emitter} (hstart : Run Call.Any (blank config clock supply emitter) s)
    (hempty : s.Unstocked) (h : Run Call.OnItems s t) {x y : ItemId} {g : FieldId}
    (hheld : t.tables.Holds x g y) : y ≠ x ∧
      ((∃ b, latestItem t.tables y = some b ∧ b.reference? g = some x) ↔
        ¬ DeletedWhileHolding s t y g x) := by
  have hs := sane_of_run hstart (sane_blank config clock supply emitter)
  obtain ⟨hP, hlost⟩ := partnered_of_run hs hempty h
  obtain ⟨f, hmates, hpaired, hxy⟩ := hheld.edge (stocked_of_run (hempty.stocked hs) h)
  obtain ⟨hne, hgone | ⟨⟨b, hb, -⟩, hback⟩⟩ := hP.linked.back hmates hpaired hxy
  · refine ⟨hne, iff_of_false ?_ (not_not_intro (hlost hmates hpaired hxy hgone))⟩
    intro hex
    obtain ⟨b, hb, -⟩ := hex
    exact nomatch hgone.symm.trans hb
  · rw [edges_of_some hb] at hback
    refine ⟨hne, iff_of_true ⟨b, hb, hback⟩ ?_⟩
    intro hdeleted
    exact nomatch (hdeleted.gone (hempty.stocked hs)).symm.trans hb

section Desk

/-- Posts and their authors, each author with one post.  Authors may have
metadata. -/
def desk : List Call := [
  .createModel (.ofKey ⟨"project"⟩ ⟨"desk"⟩ "post"),
  .createModel (NewModel.ofKey ⟨"project"⟩ ⟨"desk"⟩ "author").withMetadata,
  .createField { NewField.ofKey (.ofSerial 0) "author"
    (.reference (.ofSerial 4) (.ofSerial 2) none) with mirror := some (.ofKey "post") }]

/-- A metadata item of the model of authors becomes the author of a post. -/
def assignment : List Call := [
  .createMetadataItem ⟨.ofSerial 4, [], none⟩,
  .createItem ⟨.ofSerial 1,
    [.byKey "author" (.string (Id.ofSerial 7 : ItemId).text)], none⟩]

/-- The desk without items. -/
def emptyDesk : Store :=
  Call.afterAll (.maintainer ⟨"desk"⟩) desk (blank .standard ⟨⟨0, 0⟩, 1⟩ ⟨0⟩ .silent)

/-- The desk after some calls. -/
def deskAfter (cs : List Call) : Store := Call.afterAll (.maintainer ⟨"desk"⟩) cs emptyDesk

theorem run_deskAfter {cs : List Call} (h : ∀ c ∈ cs, c.OfItems) :
    Run Call.OnItems emptyDesk (deskAfter cs) := Call.run_afterAll (fun _ => h) _

/-- The post and its author hold each other. -/
theorem partner_of_post : ∃ t, Run Call.OnItems emptyDesk t ∧
    t.tables.Holds (.ofSerial 10) (.ofSerial 6) (.ofSerial 7) ∧
    ∃ b, latestItem t.tables (.ofSerial 7) = some b ∧
      b.reference? (.ofSerial 6) = some (.ofSerial 10) := by
  have hrun : Run Call.OnItems emptyDesk (deskAfter assignment) := run_deskAfter (by decide)
  have hheld : (deskAfter assignment).tables.Holds (.ofSerial 10) (.ofSerial 6) (.ofSerial 7) := by
    decide +kernel
  have hthere : latestItem (deskAfter assignment).tables (.ofSerial 7) ≠ none := by
    decide +kernel
  have hstart : Run Call.Any (blank .standard ⟨⟨0, 0⟩, 1⟩ ⟨0⟩ .silent) emptyDesk :=
    Call.run_afterAll (fun _ _ _ => trivial) _
  have hempty : emptyDesk.tables.versions = [] := by decide +kernel
  refine ⟨_, hrun, hheld, ?_⟩
  obtain ⟨-, hback⟩ := partner_of_run hstart hempty hrun hheld
  refine hback.mpr fun hdeleted => hthere ?_
  have hs := sane_of_run hstart (sane_blank .standard ⟨⟨0, 0⟩, 1⟩ ⟨0⟩ .silent)
  exact hdeleted.gone (Unstocked.stocked hempty hs)

/-- **A partner may be lost.**  The author is deleted, and the post still holds
it. -/
theorem partner_lost : ∃ s t,
    Run Call.OnCatalog (blank .standard ⟨⟨0, 0⟩, 1⟩ ⟨0⟩ .silent) s ∧ Run Call.OnItems s t ∧
      t.tables.Holds (.ofSerial 10) (.ofSerial 6) (.ofSerial 7) ∧
      latestItem t.tables (.ofSerial 7) = none := by
  have hcalls : ∀ c ∈ desk, ¬ c.OfItems := by decide
  refine ⟨emptyDesk, deskAfter (assignment ++ [.deleteItem (.ofSerial 7)]),
    Call.run_afterAll (fun _ => hcalls) _, run_deskAfter (by decide), ?_, ?_⟩
  · decide +kernel
  · decide +kernel

end Desk

end Store

end ContentStore
