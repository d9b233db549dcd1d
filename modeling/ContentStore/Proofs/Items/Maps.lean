import ContentStore.Item.Basic

/-!
# Maps of items

The latest snapshots of all items, as a map from ids.  Saving items puts them
into the map one after the other; of several with one id the last one stays.
-/

namespace ContentStore

/-- The map with one item put in. -/
def put (L : ItemId → Option Item) (it : Item) : ItemId → Option Item := fun x =>
  if x = it.id then some it else L x

/-- The map with items put in, one after the other. -/
def putAll (L : ItemId → Option Item) (its : List Item) : ItemId → Option Item := its.foldl put L

/-- The map with one item taken out. -/
def without (L : ItemId → Option Item) (x : ItemId) : ItemId → Option Item := fun z =>
  if z = x then none else L z

/-- Items are stored under their ids. -/
def Keyed (L : ItemId → Option Item) : Prop := ∀ x it, L x = some it → it.id = x

variable {L : ItemId → Option Item}

/-- An item that is put in is found. -/
@[simp] theorem put_self (L : ItemId → Option Item) (it : Item) : put L it it.id = some it :=
  if_pos rfl

/-- Other items are found as before. -/
theorem put_other (L : ItemId → Option Item) {it : Item} {x : ItemId} (h : x ≠ it.id) :
    put L it x = L x := if_neg h

/-- Items stand under their ids also after one is put in. -/
theorem keyed_put (hL : Keyed L) (it : Item) : Keyed (put L it) := by
  intro x o ho
  unfold put at ho
  split at ho
  · rename_i hx
    rw [← Option.some.inj ho, hx]
  · exact hL x o ho

/-- What is stored stays stored. -/
theorem isSome_put (it : Item) {x : ItemId} (h : (L x).isSome) : (put L it x).isSome := by
  unfold put
  split
  · rfl
  · exact h

/-- An item that is taken out is not found. -/
@[simp] theorem without_self (L : ItemId → Option Item) (x : ItemId) : without L x x = none :=
  if_pos rfl

/-- The others are. -/
theorem without_other (L : ItemId → Option Item) {x z : ItemId} (h : z ≠ x) :
    without L x z = L z := if_neg h

/-- Items stand under their ids also after one is taken out. -/
theorem keyed_without (hL : Keyed L) (x : ItemId) : Keyed (without L x) := by
  intro z o ho
  unfold without at ho
  split at ho
  · cases ho
  · exact hL z o ho

/-- Items are put in one after the other. -/
theorem putAll_cons (L : ItemId → Option Item) (it : Item) (its : List Item) :
    putAll L (it :: its) = putAll (put L it) its := rfl

/-- An item that is not among them is found as before. -/
theorem putAll_other {its : List Item} {x : ItemId} (h : ∀ it ∈ its, it.id ≠ x) :
    putAll L its x = L x := by
  induction its generalizing L with
  | nil => rfl
  | cons it its ih =>
    rw [putAll_cons, ih fun o ho => h o (List.mem_cons_of_mem _ ho)]
    exact put_other L fun hx => h it List.mem_cons_self hx.symm

/-- Of items with different ids each one is there in the end. -/
theorem putAll_of_mem {its : List Item} (hids : (its.map Item.id).Nodup) {it : Item}
    (hit : it ∈ its) : putAll L its it.id = some it := by
  induction its generalizing L with
  | nil => cases hit
  | cons o os ih =>
    rw [List.map_cons, List.nodup_cons] at hids
    rw [putAll_cons]
    rcases List.mem_cons.mp hit with rfl | hit
    · rw [putAll_other, put_self]
      intro o ho heq
      exact hids.1 (heq ▸ List.mem_map_of_mem ho)
    · exact ih hids.2 hit

end ContentStore
