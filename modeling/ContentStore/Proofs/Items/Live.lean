import ContentStore.Proofs.Items.Slots

/-!
# Live instances

The live instances of a list of values are found in rounds that end when their
number stays the same.  They are the least set that contains what values of kind
group list at top level and in live instances (`mem_liveInstances_iff`), so
instances that only list each other are not among them.
-/

namespace ContentStore

/-- The instance is listed by a value of kind group at top level, or by one in a
live instance. -/
inductive Live (fields : List ItemField) : InstanceId → Prop
  | top {e : ItemField} {i : InstanceId} (he : e ∈ fields) (htop : e.group = none)
      (hi : i ∈ e.listed) : Live fields i
  | inner {e : ItemField} {i j : InstanceId} (hj : Live fields j) (he : e ∈ fields)
      (howner : e.group = some j) (hi : i ∈ e.listed) : Live fields i

variable {fields : List ItemField}

theorem Live.of_listed {e : ItemField} {i : InstanceId} (he : e ∈ fields)
    (howner : ∀ j, e.group = some j → Live fields j) (hi : i ∈ e.listed) : Live fields i := by
  cases hgroup : e.group with
  | none => exact .top he hgroup hi
  | some j => exact .inner (howner j hgroup) he hgroup hi

/-- No round finds an instance that is not live. -/
theorem live_of_mem_listedBy {live : List InstanceId} (hlive : ∀ i ∈ live, Live fields i) :
    ∀ i ∈ listedBy fields live, Live fields i := by
  intro i hi
  obtain ⟨e, he, howner, hi⟩ := mem_listedBy.mp hi
  refine .of_listed he (fun j hj => hlive j ?_) hi
  rw [hj] at howner
  exact List.contains_iff_mem.mp howner

/-- **The rounds find the live instances**, all of them and no others. -/
theorem mem_liveInstances_iff {i : InstanceId} : i ∈ liveInstances fields ↔ Live fields i := by
  constructor
  · exact (liveInstances_induct (P := fun live => ∀ j ∈ live, Live fields j)
      (fun _ h => (List.not_mem_nil h).elim) fun _ => live_of_mem_listedBy).1 i
  · intro hi
    induction hi with
    | top he htop hi => exact mem_liveInstances he (by rw [htop]; rfl) hi
    | inner _ he howner hi ih =>
      refine mem_liveInstances he ?_ hi
      rw [howner]
      exact List.contains_iff_mem.mpr ih

theorem all_liveInstances_iff {owner : Option InstanceId} :
    owner.all (liveInstances fields).contains = true ↔ ∀ i, owner = some i → Live fields i := by
  cases owner <;> simp [mem_liveInstances_iff]

theorem mem_dropDead {e : ItemField} :
    e ∈ dropDead fields ↔ e ∈ fields ∧ ∀ i, e.group = some i → Live fields i := by
  rw [dropDead, List.mem_filter, all_liveInstances_iff]

end ContentStore
