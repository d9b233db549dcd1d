import ContentStore.Proofs.Effects
import ContentStore.Version.History
import Mathlib.Data.List.Nodup
import Mathlib.Logic.Relation

/-!
# Histories made by calls

Two calls change a history: one appends a snapshot, the other moves a ref.  What
each of them can do is said once (`Does`), refusals and their reasons included.

Moving `latest` back to an older version makes the next one branch off there, so
the parents need not form a line, as they do for the items of a store.  What is
left of the line is that every version but the first has one parent, and that
this stands before it (`PointsBack`).  The lists of refs are made anew by each
call and always say what the refs say (`ListsRefs`).  From these two, and from
ids that differ, all the rest follows for every history that calls can make
(`coherent_of_made`).
-/

namespace ContentStore

/-- A version without its list of refs, which is the one part of it that
changes. -/
def Version.bare (v : Version) : Version := { v with refs := [] }

namespace History

open Time (Instant)

/-- The version that an append adds: the latest one is its parent. -/
def next (h : History) (item : Item) (timestamp : Instant) (fresh : VersionId) : Version :=
  ⟨fresh, h.latest.toList, [], timestamp, item⟩

/-- A call that changes a history.  `fresh` is the id drawn for a new version. -/
inductive Call where
  | append (item : Item) (timestamp : Instant) (expected : Option VersionId) (fresh : VersionId)
  | move (r : Ref) (target : Option VersionId)

namespace Call

/-- What a call answers, and the history that it leaves. -/
def run (h : History) : Call → Except Error Unit × History
  | append item timestamp expected fresh =>
    match h.append item timestamp expected fresh with
    | .ok (h', _) => (.ok (), h')
    | .error e => (.error e, h)
  | move r target =>
    match h.moveRef r target with
    | .ok h' => (.ok (), h')
    | .error e => (.error e, h)

/-- The calls as programs that write the history in place, one write after the
other.  What has been written stays when such a program fails. -/
def inPlace : Call → ExceptT Error (StateM History) Unit
  | append item timestamp expected fresh => do
    let h ← get
    if item.id ≠ h.item then throw (.misuse (.foreignItem item.id h.item))
    match expected, h.latest with
    | none, _ => pure ()
    | some e, some actual => if actual ≠ e then throw (.conflict h.item e actual)
    | some e, none => throw (.notFound .version e.toText)
    modify fun h => { h with versions := h.versions ++ [h.next item timestamp fresh] }
    modify fun h => h.setTarget .latest (some fresh)
    modify syncRefs
  | move r target => do
    let h ← get
    match target, r with
    | some id, _ => if (h.version? id).isNone then throw (.notFound .version id.toText)
    | none, .latest => throw (.misuse .latestIsFixed)
    | none, _ => pure ()
    modify fun h => h.setTarget r target
    modify syncRefs

/-- The id that a call draws is none of the history's. -/
def Fresh (h : History) : Call → Prop
  | append _ _ _ fresh => fresh ∉ h.versions.map Version.id
  | move _ _ => True

instance (h : History) : (c : Call) → Decidable (c.Fresh h)
  | append _ _ _ fresh => inferInstanceAs (Decidable (fresh ∉ h.versions.map Version.id))
  | move _ _ => inferInstanceAs (Decidable True)

end Call

/-- The histories that calls can make of one without versions. -/
inductive Made (item : ItemId) : History → Prop
  | empty : Made item (empty item)
  | call {h : History} {c : Call} (hh : Made item h) (hfresh : c.Fresh h) : Made item (c.run h).2

/-- The versions without their lists of refs. -/
def bare (h : History) : List Version := h.versions.map Version.bare

/-- Every version lists the refs that name it, `latest` first. -/
def ListsRefs (h : History) : Prop :=
  ∀ v ∈ h.versions, (∀ r, r ∈ v.refs ↔ h.target? r = some v.id) ∧
    v.refs.Sublist [.latest, .published]

/-- What a call can do to a history: what it answers, and what it leaves. -/
inductive Does (h : History) : Call → Except Error Unit → History → Prop
  | foreign {item timestamp expected fresh} (hitem : item.id ≠ h.item) :
      Does h (.append item timestamp expected fresh)
        (.error (.misuse (.foreignItem item.id h.item))) h
  | stale {item timestamp expected fresh actual} (hitem : item.id = h.item)
      (hlatest : h.latest = some actual) (hne : actual ≠ expected) :
      Does h (.append item timestamp (some expected) fresh)
        (.error (.conflict h.item expected actual)) h
  | unborn {item timestamp expected fresh} (hitem : item.id = h.item)
      (hlatest : h.latest = none) :
      Does h (.append item timestamp (some expected) fresh)
        (.error (.notFound .version expected.toText)) h
  | appended {item timestamp expected fresh h'} (hitem : item.id = h.item)
      (hexpected : ∀ e, expected = some e → h.latest = some e) (howner : h'.item = h.item)
      (hversions : h'.bare = h.bare ++ [h.next item timestamp fresh])
      (hlatest : h'.latest = some fresh) (hpublished : h'.published = h.published)
      (hlists : h'.ListsRefs) : Does h (.append item timestamp expected fresh) (.ok ()) h'
  | unknown {r id} (hid : id ∉ h.versions.map Version.id) :
      Does h (.move r (some id)) (.error (.notFound .version id.toText)) h
  | fixed : Does h (.move .latest none) (.error (.misuse .latestIsFixed)) h
  | moved {r target h'} (hknown : ∀ id, target = some id → id ∈ h.versions.map Version.id)
      (hremovable : target = none → r ≠ .latest) (howner : h'.item = h.item)
      (hversions : h'.bare = h.bare)
      (htargets : ∀ q, h'.target? q = if q = r then target else h.target? q)
      (hlists : h'.ListsRefs) : Does h (.move r target) (.ok ()) h'

/-- A program that looks at its history gets the history. -/
theorem get_run (h : History) : (get : ExceptT Error (StateM History) History) h = (.ok h, h) := rfl

/-! ## What a call does -/

/-- Syncing rewrites lists of refs and nothing else. -/
@[simp] theorem bare_syncRefs (h : History) : h.syncRefs.bare = h.bare := by
  simp [bare, syncRefs, Version.bare, Function.comp_def]

/-- Syncing moves no ref. -/
@[simp] theorem target?_syncRefs (h : History) (r : Ref) : h.syncRefs.target? r = h.target? r := by
  cases r <;> rfl

/-- A ref that is set points where it should, and the other refs stay. -/
@[simp] theorem target?_setTarget (h : History) (r : Ref) (id : Option VersionId) (q : Ref) :
    (h.setTarget r id).target? q = if q = r then id else h.target? q := by
  cases r <;> cases q <;> rfl

/-- Setting a ref changes no version. -/
@[simp] theorem bare_setTarget (h : History) (r : Ref) (id : Option VersionId) :
    (h.setTarget r id).bare = h.bare := by
  cases r <;> rfl

/-- Nor does it change whose history it is. -/
@[simp] theorem item_setTarget (h : History) (r : Ref) (id : Option VersionId) :
    (h.setTarget r id).item = h.item := by
  cases r <;> rfl

/-- Lists of refs made anew say what the refs say. -/
theorem listsRefs_syncRefs (h : History) : h.syncRefs.ListsRefs := by
  intro v hv
  obtain ⟨w, -, rfl⟩ := List.mem_map.mp hv
  refine ⟨fun r => ?_, List.filter_sublist⟩
  rw [target?_syncRefs]
  cases r <;> simp [refsOf, Ref.all]

/-- A version is found just if its id is among theirs. -/
theorem isSome_version?_iff {h : History} {id : VersionId} :
    (h.version? id).isSome ↔ id ∈ h.versions.map Version.id := by
  simp [version?, List.find?_isSome]

section Append

variable {h : History} {item : Item} {timestamp : Instant} {expected : Option VersionId}
  {fresh : VersionId}

/-- A version of another item is refused. -/
theorem append_of_foreign (hitem : item.id ≠ h.item) :
    h.append item timestamp expected fresh = .error (.misuse (.foreignItem item.id h.item)) := by
  unfold append
  rw [if_pos hitem]
  rfl

/-- **A version other than the latest is refused with a conflict** that names both. -/
theorem append_of_stale {e actual : VersionId} (hitem : item.id = h.item)
    (hlatest : h.latest = some actual) (hne : actual ≠ e) :
    h.append item timestamp (some e) fresh = .error (.conflict h.item e actual) := by
  unfold append
  rw [if_neg (not_not.mpr hitem), hlatest]
  dsimp only
  rw [if_pos hne]
  rfl

/-- Where nothing is stored yet there is no version to expect. -/
theorem append_of_unborn {e : VersionId} (hitem : item.id = h.item) (hlatest : h.latest = none) :
    h.append item timestamp (some e) fresh = .error (.notFound .version e.toText) := by
  unfold append
  rw [if_neg (not_not.mpr hitem), hlatest]
  rfl

/-- The history with one more version behind the latest one. -/
def grown (h : History) (item : Item) (timestamp : Instant) (fresh : VersionId) : History :=
  { h with versions := h.versions ++ [h.next item timestamp fresh], latest := some fresh }.syncRefs

/-- Otherwise the history grows by one version. -/
theorem append_of_latest (hitem : item.id = h.item)
    (hexpected : ∀ e, expected = some e → h.latest = some e) :
    ∃ v, h.append item timestamp expected fresh = .ok (h.grown item timestamp fresh, v) := by
  unfold append
  rw [if_neg (not_not.mpr hitem)]
  cases expected with
  | none =>
    dsimp only
    exact ⟨_, rfl⟩
  | some e =>
    rw [grown, next, hexpected e rfl]
    dsimp only
    rw [if_neg (not_not.mpr rfl)]
    exact ⟨_, rfl⟩

/-- As a call, such an append answers nothing and leaves the grown history. -/
theorem run_append_of_latest (hitem : item.id = h.item)
    (hexpected : ∀ e, expected = some e → h.latest = some e) :
    Call.run h (.append item timestamp expected fresh) = (.ok (), h.grown item timestamp fresh) := by
  obtain ⟨v, hv⟩ := append_of_latest hitem hexpected
  dsimp only [Call.run]
  rw [hv]

end Append

/-- An append does one of the things that it can do. -/
theorem does_append (h : History) (item : Item) (timestamp : Instant)
    (expected : Option VersionId) (fresh : VersionId) :
    Does h (.append item timestamp expected fresh)
      (Call.run h (.append item timestamp expected fresh)).1
      (Call.run h (.append item timestamp expected fresh)).2 := by
  by_cases hitem : item.id = h.item
  case neg =>
    dsimp only [Call.run]
    rw [append_of_foreign hitem]
    exact .foreign hitem
  by_cases hexpected : ∀ e, expected = some e → h.latest = some e
  case pos =>
    rw [run_append_of_latest hitem hexpected]
    refine .appended hitem hexpected rfl ?_ rfl rfl (listsRefs_syncRefs _)
    rw [grown, bare_syncRefs]
    simp [bare, Version.bare, next]
  obtain ⟨e, rfl, hne⟩ : ∃ e, expected = some e ∧ h.latest ≠ some e := by
    simpa only [not_forall, exists_prop] using hexpected
  dsimp only [Call.run]
  cases hlatest : h.latest with
  | none =>
    rw [append_of_unborn hitem hlatest]
    exact .unborn hitem hlatest
  | some actual =>
    have hactual : actual ≠ e := fun heq => hne (heq ▸ hlatest)
    rw [append_of_stale hitem hlatest hactual]
    exact .stale hitem hlatest hactual

/-- So does moving a ref. -/
theorem does_move (h : History) (r : Ref) (target : Option VersionId) :
    Does h (.move r target) (Call.run h (.move r target)).1 (Call.run h (.move r target)).2 := by
  have hmoved (hknown : ∀ id, target = some id → id ∈ h.versions.map Version.id)
      (hremovable : target = none → r ≠ .latest) :
      Does h (.move r target) (.ok ()) (h.setTarget r target).syncRefs :=
    .moved hknown hremovable (by simp [syncRefs]) (by simp) (by simp) (listsRefs_syncRefs _)
  dsimp only [Call.run, moveRef]
  cases target with
  | some id =>
    by_cases hid : id ∈ h.versions.map Version.id
    · simp only [isSome_version?_iff.mpr hid, if_true]
      exact hmoved (by simpa using hid) nofun
    · simp only [isSome_version?_iff, hid, if_false]
      exact .unknown hid
  | none =>
    cases r with
    | latest => exact .fixed
    | published => exact hmoved nofun (by decide)

/-- **A call does what it says**, or is refused for a reason given there. -/
theorem does_run (h : History) (c : Call) : Does h c (c.run h).1 (c.run h).2 := by
  cases c with
  | append item timestamp expected fresh => exact does_append h item timestamp expected fresh
  | move r target => exact does_move h r target

/-! ## Writing in place -/

/-- Appending in place comes to the call: when it fails, nothing has been written before. -/
theorem inPlace_append (h : History) (item : Item) (timestamp : Instant)
    (expected : Option VersionId) (fresh : VersionId) :
    (Call.append item timestamp expected fresh).inPlace h =
      Call.run h (.append item timestamp expected fresh) := by
  dsimp only [Call.run]
  rw [Call.inPlace, run_bind, get_run]
  dsimp only
  by_cases hitem : item.id = h.item
  case neg =>
    rw [append_of_foreign hitem, if_pos hitem]
    rfl
  rw [if_neg (not_not.mpr hitem)]
  cases expected with
  | none => exact (run_append_of_latest hitem (by simp)).symm
  | some e =>
    cases hlatest : h.latest with
    | none =>
      rw [append_of_unborn hitem hlatest]
      rfl
    | some actual =>
      dsimp only
      by_cases hactual : actual = e
      · rw [if_neg (not_not.mpr hactual)]
        exact (run_append_of_latest hitem (by simp [hlatest, hactual])).symm
      · rw [append_of_stale hitem hlatest hactual, if_pos hactual]
        rfl

/-- So does moving a ref in place. -/
theorem inPlace_move (h : History) (r : Ref) (target : Option VersionId) :
    (Call.move r target).inPlace h = Call.run h (.move r target) := by
  dsimp only [Call.run, moveRef]
  rw [Call.inPlace, run_bind, get_run]
  dsimp only
  cases target with
  | some id =>
    dsimp only
    cases h.version? id <;> rfl
  | none => cases r <;> rfl

/-- **Writing in place comes to the same.**  In particular a call that fails has
written nothing. -/
theorem inPlace_eq_run (h : History) (c : Call) : c.inPlace h = c.run h := by
  cases c with
  | append item timestamp expected fresh => exact inPlace_append h item timestamp expected fresh
  | move r target => exact inPlace_move h r target

/-! ## What all calls keep -/

/-- The first version has no parent, and every other one has a single parent, which
stands before it. -/
def PointsBack (versions : List Version) : Prop :=
  ∀ before v after, versions = before ++ v :: after →
    before = [] ∧ v.parents = [] ∨ ∃ w ∈ before, v.parents = [w.id]

/-- What holds of every history that calls make. -/
structure Coherent (h : History) : Prop where
  ids_distinct : (h.versions.map Version.id).Nodup
  points_back : PointsBack h.versions
  latest_isSome : h.latest.isSome ↔ h.versions ≠ []
  target_mem : ∀ r id, h.target? r = some id → id ∈ h.versions.map Version.id
  lists_refs : h.ListsRefs

/-- Nothing about parents depends on the lists of refs. -/
theorem pointsBack_map_bare {versions : List Version} :
    PointsBack (versions.map Version.bare) ↔ PointsBack versions := by
  constructor
  · intro h before v after heq
    rcases h (before.map Version.bare) v.bare (after.map Version.bare) (by simp [heq]) with
      ⟨hnil, hv⟩ | ⟨w, hw, hv⟩
    · exact .inl ⟨List.map_eq_nil_iff.mp hnil, hv⟩
    · obtain ⟨u, hu, rfl⟩ := List.mem_map.mp hw
      exact .inr ⟨u, hu, hv⟩
  · intro h before v after heq
    obtain ⟨before', rest, rfl, rfl, hrest⟩ := List.map_eq_append_iff.mp heq
    obtain ⟨u, after', rfl, rfl, -⟩ := List.map_eq_cons_iff.mp hrest
    rcases h before' u after' rfl with ⟨rfl, hu⟩ | ⟨w, hw, hu⟩
    · exact .inl ⟨rfl, hu⟩
    · exact .inr ⟨w.bare, List.mem_map_of_mem hw, hu⟩

/-- A version may be added that begins the history or has one of its versions for a parent.
-/
theorem pointsBack_concat {versions : List Version} {v : Version} (h : PointsBack versions)
    (hv : versions = [] ∧ v.parents = [] ∨ ∃ w ∈ versions, v.parents = [w.id]) :
    PointsBack (versions ++ [v]) := by
  intro before u after heq
  rcases List.eq_nil_or_concat after with rfl | ⟨after', x, rfl⟩
  · obtain ⟨rfl, hlast⟩ := List.append_inj' heq rfl
    obtain rfl : v = u := by simpa using hlast
    exact hv
  · rw [List.concat_eq_append, ← List.cons_append, ← List.append_assoc] at heq
    obtain ⟨hinit, -⟩ := List.append_inj' heq rfl
    exact h before u after' hinit

/-- Bare versions have the same ids. -/
theorem ids_bare (h : History) : h.bare.map Version.id = h.versions.map Version.id := by
  simp [bare, Version.bare, Function.comp_def]

/-- The next version begins the history or has a stored version for a parent. -/
theorem Coherent.latest_next {h : History} (hh : h.Coherent) (item : Item) (timestamp : Instant)
    (fresh : VersionId) :
    h.bare = [] ∧ (h.next item timestamp fresh).parents = [] ∨
      ∃ w ∈ h.bare, (h.next item timestamp fresh).parents = [w.id] := by
  cases hlatest : h.latest with
  | none =>
    have hnil : h.versions = [] := by
      by_contra hne
      have hsome := hh.latest_isSome.mpr hne
      rw [hlatest] at hsome
      cases hsome
    exact .inl ⟨by simp [bare, hnil], by simp [next, hlatest]⟩
  | some id =>
    have hid : id ∈ h.bare.map Version.id := h.ids_bare ▸ hh.target_mem .latest id hlatest
    obtain ⟨w, hw, rfl⟩ := List.mem_map.mp hid
    exact .inr ⟨w, hw, by simp [next, hlatest]⟩

/-- **A call keeps what holds of histories**, if the id that it draws is fresh. -/
theorem coherent_of_does {h h' : History} {c : Call} {a : Except Error Unit} (hh : h.Coherent)
    (hfresh : c.Fresh h) (hdoes : Does h c a h') : h'.Coherent := by
  cases hdoes with
  | foreign => exact hh
  | stale => exact hh
  | unborn => exact hh
  | unknown => exact hh
  | fixed => exact hh
  | @appended item timestamp _ fresh _ _ _ _ hversions hlatest hpublished hlists =>
    have hids : h'.versions.map Version.id = h.versions.map Version.id ++ [fresh] := by
      rw [← ids_bare, hversions, List.map_append, ids_bare]
      rfl
    constructor
    case ids_distinct =>
      rw [hids]
      exact List.nodup_append.mpr ⟨hh.ids_distinct, List.nodup_singleton _, by
        rintro id hid _ hlast rfl
        exact hfresh (List.mem_singleton.mp hlast ▸ hid)⟩
    case points_back =>
      rw [← pointsBack_map_bare]
      change PointsBack h'.bare
      rw [hversions]
      exact pointsBack_concat (pointsBack_map_bare.mpr hh.points_back) (hh.latest_next _ _ _)
    case latest_isSome =>
      have hne : h'.versions ≠ [] := by
        rintro hnil
        rw [hnil] at hids
        simp at hids
      simp [hlatest, hne]
    case target_mem =>
      intro r id hid
      rw [hids, List.mem_append, List.mem_singleton]
      cases r with
      | latest => exact .inr (Option.some.inj (hid.symm.trans hlatest))
      | published => exact .inl (hh.target_mem .published id (hpublished.symm.trans hid))
    case lists_refs => exact hlists
  | @moved r target _ hknown hremovable _ hversions htargets hlists =>
    have hids : h'.versions.map Version.id = h.versions.map Version.id := by
      rw [← ids_bare, hversions, ids_bare]
    constructor
    case ids_distinct => exact hids ▸ hh.ids_distinct
    case points_back =>
      rw [← pointsBack_map_bare]
      change PointsBack h'.bare
      rw [hversions]
      exact pointsBack_map_bare.mpr hh.points_back
    case latest_isSome =>
      have hempty : h'.versions = [] ↔ h.versions = [] := by
        rw [← List.map_eq_nil_iff (f := Version.id), hids, List.map_eq_nil_iff]
      have hlatest : h'.latest = if .latest = r then target else h.latest := htargets .latest
      rw [ne_eq, hempty, ← ne_eq, ← hh.latest_isSome, hlatest]
      split
      · -- `latest` names one of the versions, so it was set before
        rename_i hr
        obtain ⟨id, rfl⟩ := Option.ne_none_iff_exists'.mp fun hnone => hremovable hnone hr.symm
        have hne : h.versions ≠ [] := fun hnil => by
          have hid := hknown id rfl
          rw [hnil] at hid
          exact List.not_mem_nil hid
        simp [hh.latest_isSome.mpr hne]
      · rfl
    case target_mem =>
      intro q id hid
      rw [htargets] at hid
      rw [hids]
      split at hid
      · exact hknown id hid
      · exact hh.target_mem q id hid
    case lists_refs => exact hlists

/-- A history without versions is coherent. -/
theorem coherent_empty (item : ItemId) : (empty item).Coherent where
  ids_distinct := List.nodup_nil
  points_back := by
    intro before v after heq
    simp [empty] at heq
  latest_isSome := by simp [empty]
  target_mem := by
    intro r id hid
    cases r <;> cases hid
  lists_refs := by simp [ListsRefs, empty]

/-- **Every history that calls make is coherent.** -/
theorem coherent_of_made {item : ItemId} {h : History} (hh : Made item h) : h.Coherent := by
  induction hh with
  | empty => exact coherent_empty item
  | @call h c _ hfresh ih => exact coherent_of_does ih hfresh (does_run h c)

/-- One version is a parent of another. -/
def IsParent (h : History) (parent child : VersionId) : Prop :=
  ∃ v ∈ h.versions, v.id = child ∧ parent ∈ v.parents

namespace Coherent

variable {h : History}

/-- A parent stands before its child. -/
theorem idxOf_lt (hh : h.Coherent) {parent child : VersionId} (hp : h.IsParent parent child) :
    (h.versions.map Version.id).idxOf parent < (h.versions.map Version.id).idxOf child := by
  obtain ⟨v, hv, rfl, hmem⟩ := hp
  obtain ⟨before, after, heq⟩ := List.append_of_mem hv
  rcases hh.points_back before v after heq with ⟨-, hnil⟩ | ⟨w, hw, hparents⟩
  · rw [hnil] at hmem
    exact (List.not_mem_nil hmem).elim
  · obtain rfl : parent = w.id := by simpa [hparents] using hmem
    have hbefore : w.id ∈ before.map Version.id := List.mem_map_of_mem hw
    have hids := hh.ids_distinct
    rw [heq, List.map_append, List.map_cons, List.nodup_append] at hids
    have hchild : v.id ∉ before.map Version.id := fun hid =>
      hids.2.2 v.id hid v.id List.mem_cons_self rfl
    rw [heq, List.map_append, List.map_cons, List.idxOf_append_of_mem hbefore,
      List.idxOf_append_of_notMem hchild, List.idxOf_cons_self, Nat.add_zero]
    exact List.idxOf_lt_length_iff.mpr hbefore

/-- No version comes from itself. -/
theorem acyclic (hh : h.Coherent) (id : VersionId) : ¬ Relation.TransGen h.IsParent id id := by
  have hlt : ∀ {a b}, Relation.TransGen h.IsParent a b →
      (h.versions.map Version.id).idxOf a < (h.versions.map Version.id).idxOf b := by
    intro a b hab
    induction hab with
    | single hp => exact hh.idxOf_lt hp
    | tail _ hp ih => exact Nat.lt_trans ih (hh.idxOf_lt hp)
  exact fun hid => Nat.lt_irrefl _ (hlt hid)

/-- A ref names one version at most. -/
theorem eq_of_mem_refs (hh : h.Coherent) {v w : Version} (hv : v ∈ h.versions)
    (hw : w ∈ h.versions) {r : Ref} (hrv : r ∈ v.refs) (hrw : r ∈ w.refs) : v = w := by
  have hvid := ((hh.lists_refs v hv).1 r).mp hrv
  have hwid := ((hh.lists_refs w hw).1 r).mp hrw
  exact List.inj_on_of_nodup_map hh.ids_distinct hv hw (Option.some.inj (hvid.symm.trans hwid))

end Coherent

/-- **Whatever calls are made**, in whatever order, the history stays in order: its
parents point back, its refs name versions of it, and each version lists the refs
that name it.  The next call is refused for one of the reasons given, and then
nothing is written, or else it adds one version behind the latest or moves one
ref. -/
theorem coherent_of_calls {item : ItemId} {h : History} (hh : Made item h) :
    h.Coherent ∧ (∀ id, ¬ Relation.TransGen h.IsParent id id) ∧
      (∀ r, ∀ v ∈ h.versions, ∀ w ∈ h.versions, r ∈ v.refs → r ∈ w.refs → v = w) ∧
      ∀ c : Call, c.inPlace h = c.run h ∧ Does h c (c.run h).1 (c.run h).2 := by
  have hcoherent := coherent_of_made hh
  refine ⟨hcoherent, hcoherent.acyclic, ?_, fun c => ⟨inPlace_eq_run h c, does_run h c⟩⟩
  exact fun r v hv w hw hrv hrw => hcoherent.eq_of_mem_refs hv hw hrv hrw

section Branches

/-- An item without values. -/
def leaflet : Item :=
  { id := ⟨"leaflet"⟩, project := ⟨"project"⟩, model := ⟨"model"⟩, schema := ⟨"schema"⟩,
    thread := ⟨"thread"⟩, fields := [], metadataItem := none, metadataOf := none,
    createdBy := .user ⟨"user"⟩, updatedBy := none, createdAt := ⟨0, 0⟩ }

/-- After two versions `latest` goes back to the first, which is published, and a
third version is appended there. -/
def branching : List Call := [
  .append leaflet ⟨1, 0⟩ none ⟨1⟩, .append leaflet ⟨2, 0⟩ (some ⟨1⟩) ⟨2⟩,
  .move .latest (some ⟨1⟩), .append leaflet ⟨3, 0⟩ (some ⟨2⟩) ⟨3⟩, .move .published (some ⟨1⟩),
  .append leaflet ⟨4, 0⟩ (some ⟨1⟩) ⟨3⟩]

/-- The history after calls made one after the other. -/
def afterAll (calls : List Call) (h : History) : History := calls.foldl (fun h c => (c.run h).2) h

/-- The second and the third version both come from the first. -/
theorem coherent_of_branching : ∃ h, Made leaflet.id h ∧ h = afterAll branching (empty leaflet.id) ∧
    h.versions.map (fun v => (v.id, v.parents, v.refs)) =
      [(⟨1⟩, [], [.published]), (⟨2⟩, [⟨1⟩], []), (⟨3⟩, [⟨1⟩], [.latest])] ∧
    h.Coherent ∧ Does h (.move .latest none) (.error (.misuse .latestIsFixed)) h := by
  have hmade : Made leaflet.id (afterAll branching (empty leaflet.id)) := by
    refine .call (.call (.call (.call (.call (.call .empty ?_) ?_) ?_) ?_) ?_) ?_ <;> decide
  obtain ⟨hcoherent, -, -, hcalls⟩ := coherent_of_calls hmade
  exact ⟨_, hmade, rfl, by decide, hcoherent, (hcalls (.move .latest none)).2⟩

end Branches

end History

end ContentStore
