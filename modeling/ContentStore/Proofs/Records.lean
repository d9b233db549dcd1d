import ContentStore.Proofs.Histories.Growth
import ContentStore.Proofs.Reachable

/-!
# Recorded runs

The state of a store owes more to the past than an invariant can say: which
version is published, say, depends on what was published when.  A recorded run is
a run with the list of its calls, each with the store that it found, so that the
state can be compared with the record (`Store.Recorded`).  Every run has one
(`Store.exists_recorded`).

Beside it stands what any move makes of the history of one item
(`Store.Continues`): it goes on or ends as a whole, and does not begin under an
id that was given away before.
-/

namespace ContentStore

open Tables

/-- A call of a run, with the store that it found. -/
structure Entry where
  before : Store
  ctx : Context
  call : Call

/-- The entries of several calls of one context. -/
def Call.record (ctx : Context) : List Call → Store → List Entry
  | [], _ => []
  | c :: cs, s => ⟨s, ctx, c⟩ :: record ctx cs (c.after ctx s)

/-- The last thing of some kind that the calls of a record have done. -/
def lastOf {α : Type} (f : Entry → Option α) (log : List Entry) : Option α :=
  (log.filterMap f).getLast?

theorem lastOf_concat {α : Type} (f : Entry → Option α) (log : List Entry) (e : Entry) :
    lastOf f (log ++ [e]) = (f e).or (lastOf f log) := by
  unfold lastOf
  rw [List.filterMap_append, List.getLast?_append]
  cases h : f e <;> simp [h]

namespace Store

/-- A run from a store with the record of its calls, the last one at the end. -/
inductive Recorded (s : Store) : List Entry → Store → Prop
  | start : Recorded s [] s
  | call {log : List Entry} {t : Store} (h : Recorded s log t) (ctx : Context) (c : Call) :
      Recorded s (log ++ [⟨t, ctx, c⟩]) (c.after ctx t)
  | declare {log : List Entry} {t : Store} (h : Recorded s log t) (d : Declaration) :
      Recorded s log (declare d t).2
  | rest {log : List Entry} {t u : Store} (h : Recorded s log t) (hrest : t.Rests u) :
      Recorded s log u

variable {s t u : Store} {log : List Entry}

theorem Recorded.evolves (h : Recorded s log t) : s.Evolves t := by
  induction h with
  | start => exact .refl
  | call _ ctx c ih => exact ih.tail (.call ctx c)
  | declare _ d ih => exact ih.tail (.declare d)
  | rest _ hrest ih => exact ih.tail (.rest hrest)

/-- Every run has a record. -/
theorem exists_recorded (h : s.Evolves t) : ∃ log, Recorded s log t := by
  induction h with
  | refl => exact ⟨[], .start⟩
  | tail _ hmove ih =>
    obtain ⟨log, hlog⟩ := ih
    cases hmove with
    | call ctx c => exact ⟨_, hlog.call ctx c⟩
    | declare d => exact ⟨_, hlog.declare d⟩
    | rest hrest => exact ⟨_, hlog.rest hrest⟩

/-- Calls one after the other are recorded. -/
theorem Recorded.afterAll (h : Recorded s log t) (ctx : Context) (cs : List Call) :
    Recorded s (log ++ Call.record ctx cs t) (Call.afterAll ctx cs t) := by
  induction cs generalizing log t with
  | nil =>
    rw [Call.record, List.append_nil]
    exact h
  | cons c cs ih =>
    have hrest := ih (h.call ctx c)
    rw [List.append_assoc] at hrest
    exact hrest

/-! ## The history of one item -/

/-- The history of an item goes on, or the item is stored no more.  An id given
away before is not that of a new item. -/
structure Continues (s t : Store) (x : ItemId) : Prop where
  prolonged : t.tables.versionsOf x ≠ [] → s.tables.versionsOf x <+: t.tables.versionsOf x
  stored : x.Given s.supply.next → t.tables.versionsOf x ≠ [] → s.tables.versionsOf x ≠ []
  supply : s.supply.next ≤ t.supply.next

/-- Nor is anything else published of it. -/
structure Undisturbed (s t : Store) (x : ItemId) : Prop extends Continues s t x where
  published : t.tables.versionsOf x ≠ [] →
    t.tables.rowsOf x .published = s.tables.rowsOf x .published

theorem continues_of_eq {x : ItemId} (hsame : t.tables.versionsOf x = s.tables.versionsOf x)
    (hle : s.supply.next ≤ t.supply.next) : s.Continues t x :=
  ⟨fun _ => hsame ▸ List.prefix_rfl, fun _ hne => hsame ▸ hne, hle⟩

theorem undisturbed_of_eq {x : ItemId} (hversions : t.tables.versions = s.tables.versions)
    (hrefs : t.tables.refs = s.tables.refs) (hle : s.supply.next ≤ t.supply.next) :
    s.Undisturbed t x := by
  have hsame : t.tables.versionsOf x = s.tables.versionsOf x := by
    rw [versionsOf, versionsOf, hversions]
  refine ⟨continues_of_eq hsame hle, fun _ => ?_⟩
  rw [rowsOf, rowsOf, hrefs]

/-- A store that rests disturbs nothing. -/
theorem Rests.undisturbed (h : s.Rests t) (x : ItemId) : s.Undisturbed t x :=
  undisturbed_of_eq (by rw [h.1]) (by rw [h.1]) h.2

/-- Appending versions publishes nothing. -/
theorem rowsOf_published_of_saves {n m : Nat} {t u : Tables} {its : List Item}
    (h : Saves n t its m u) (x : ItemId) : u.rowsOf x .published = t.rowsOf x .published := by
  induction h with
  | done => rfl
  | next _ _ _ _ _ _ ih => rw [ih, rowsOf_appended, if_neg fun hboth => nomatch hboth.2]

/-- An item has versions just if it has a latest snapshot. -/
theorem versionsOf_ne_nil_of_latestItem {n : Nat} {t : Tables} {x : ItemId} (hs : Sound n t) :
    t.versionsOf x ≠ [] ↔ ∃ it, Write.latestItem t x = some it := by
  rw [← Option.ne_none_iff_exists', Ne, Ne, hs.latestItem_eq_none_iff]

/-- Writing an item disturbs no other, and the item itself is new or was stored. -/
theorem undisturbed_of_puts {o : Operator} {p : Package} {old : Option Item} {it : Item}
    (hs : s.Sane) (ht : t.Sane)
    (h : Write.Puts o p old it s.supply.next s.tables t.supply.next t.tables)
    (hstored : it.id.Given s.supply.next → s.tables.versionsOf it.id ≠ []) (x : ItemId) :
    s.Undisturbed t x := by
  obtain ⟨its, hsaves⟩ := h.saves
  refine ⟨⟨fun _ => hsaves.prefix_versionsOf x, fun hgiven hne => ?_, hsaves.le⟩,
    fun _ => rowsOf_published_of_saves hsaves x⟩
  by_cases hx : x = it.id
  · subst hx
    exact hstored hgiven
  · obtain ⟨Z, hZ⟩ := (versionsOf_ne_nil_of_latestItem ht.sound).mp hne
    obtain ⟨Y, hY, -⟩ := (h.back hs.sound).2 x hx Z hZ
    exact (versionsOf_ne_nil_of_latestItem hs.sound).mpr ⟨Y, hY⟩

/-- A removal leaves the refs of other items. -/
theorem rowsOf_removed {v : Tables} {it : Item} {x : ItemId} (hx : x ≠ it.id)
    (hmeta : it.metadataItem ≠ some x) (r : Ref) :
    ((it.metadataItem.elim v v.deleteItem).deleteItem it.id).rowsOf x r = v.rowsOf x r := by
  rw [rowsOf_deleteItem, if_neg hx]
  cases hm : it.metadataItem with
  | none => rfl
  | some y =>
    have hxy : x ≠ y := fun h => hmeta (hm.trans (congrArg some h.symm))
    rw [Option.elim_some, rowsOf_deleteItem, if_neg hxy]

theorem undisturbed_of_removes {o : Operator} {p : Package} {it : Item} (hs : s.Sane) (ht : t.Sane)
    (h : Write.Removes o p it s.supply.next s.tables t.supply.next t.tables) (x : ItemId) :
    s.Undisturbed t x := by
  have hback : t.tables.versionsOf x ≠ [] → x ≠ it.id ∧ it.metadataItem ≠ some x ∧
      s.tables.versionsOf x ≠ [] := by
    intro hne
    obtain ⟨Z, hZ⟩ := (versionsOf_ne_nil_of_latestItem ht.sound).mp hne
    obtain ⟨hx, hmeta, Y, hY, -⟩ := (Write.removes_after hs.sound h).1 x Z hZ
    exact ⟨hx, hmeta, (versionsOf_ne_nil_of_latestItem hs.sound).mpr ⟨Y, hY⟩⟩
  obtain ⟨its, v, hsaves, htables⟩ := h.saves
  refine ⟨⟨fun hne => ?_, fun _ hne => (hback hne).2.2, hsaves.le⟩, fun hne => ?_⟩
  · obtain ⟨hx, hmeta, -⟩ := hback hne
    exact prefix_removes h hx hmeta
  · obtain ⟨hx, hmeta, -⟩ := hback hne
    rw [htables, rowsOf_removed hx hmeta, rowsOf_published_of_saves hsaves]

/-- **A call that publishes nothing leaves what is published.** -/
theorem undisturbed_of_outcome {ctx : Context} {c : Call} (h : Outcome s ctx c t) (hs : s.Sane)
    (hc : ¬ c.Publishes) (x : ItemId) : s.Undisturbed t x := by
  have ht := sane_of_outcome h hs
  have hrewires : Write.Rewires s.supply.next s.tables t.supply.next t.tables →
      s.Undisturbed t x := fun h => undisturbed_of_eq h.versions h.refs h.supply
  cases h with
  | rests h => exact h.undisturbed x
  | creates _ _ _ hit hputs =>
    refine undisturbed_of_puts hs ht hputs (fun hgiven => ?_) x
    obtain ⟨k, hk, hid⟩ := hit.id
    exact (hgiven.ne_ofSerial hk hid).elim
  | updates _ _ _ hit hputs =>
    exact undisturbed_of_puts hs ht hputs
      (fun _ => (versionsOf_ne_nil_of_latestItem hs.sound).mpr ⟨_, hit.stored⟩) x
  | removes _ _ _ _ h => exact undisturbed_of_removes hs ht h x
  | publishes hpublishes => exact (hc hpublishes).elim
  | reshapes _ h => exact hrewires (h.rewires hs.wired)
  | declares _ h => exact hrewires (h.rewires hs.wired)

/-- **Whatever happens, the history of an item goes on or ends.** -/
theorem Moves.continues (h : s.Moves t) (hs : s.Sane) (x : ItemId) : s.Continues t x := by
  cases h with
  | call ctx c =>
    by_cases hc : c.Publishes
    · cases outcome_after hs ctx c with
      | rests h => exact (h.undisturbed x).toContinues
      | publishes _ _ h =>
        obtain ⟨⟨refs, htables⟩, hle, -⟩ := h
        have hsame : (c.after ctx s).tables.versionsOf x = s.tables.versionsOf x := by
          rw [htables]
          rfl
        exact continues_of_eq hsame hle
      | creates hedits => exact (hedits.2 hc).elim
      | updates hedits => exact (hedits.2 hc).elim
      | removes hedits => exact (hedits.2 hc).elim
      | reshapes hcatalog _ => exact (hcatalog hc.ofItems).elim
      | declares hopens _ =>
        subst hopens
        exact hc.elim
    · exact (undisturbed_of_outcome (outcome_after hs ctx c) hs hc x).toContinues
  | declare d =>
    have hrewires := (reshaping_declare d s).rewires hs.wired
    exact (undisturbed_of_eq hrewires.versions hrewires.refs hrewires.supply).toContinues
  | rest h => exact (h.undisturbed x).toContinues

end Store

end ContentStore
