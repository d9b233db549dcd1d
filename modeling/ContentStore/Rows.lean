/-!
# Lists as rows

Fields, slots and stored rows are kept in lists whose order shows in answers.
They are looked up by the first row that matches, and changed in place.
-/

namespace ContentStore

/-- Changes the first row that matches; the others stay as they are. -/
def updateFirst {α : Type} (p : α → Bool) (f : α → α) : List α → List α
  | [] => []
  | x :: xs => if p x then f x :: xs else x :: updateFirst p f xs

/-- Distinct elements, each where it stands first. -/
def distinct {α : Type} [DecidableEq α] : List α → List α
  | [] => []
  | x :: xs => x :: (distinct xs).filter fun y => y ≠ x

/-- Maps over a list from left to right with a state; elements mapped to none
are left out. -/
def thread {α β σ : Type} (f : α → σ → Option β × σ) : List α → σ → List β × σ
  | [], s => ([], s)
  | x :: xs, s =>
    let (y, s) := f x s
    let (ys, s) := thread f xs s
    (y.toList ++ ys, s)

@[simp] theorem length_updateFirst {α : Type} (p : α → Bool) (f : α → α) (xs : List α) :
    (updateFirst p f xs).length = xs.length := by
  induction xs with
  | nil => rfl
  | cons x xs ih =>
    unfold updateFirst
    split <;> simp [ih]

/-- What does not match stays. -/
theorem mem_updateFirst_of_not {α : Type} {p : α → Bool} {f : α → α} {xs : List α} {x : α}
    (hx : x ∈ xs) (hp : p x = false) : x ∈ updateFirst p f xs := by
  induction xs with
  | nil => cases hx
  | cons y ys ih =>
    unfold updateFirst
    split
    · rename_i hy
      refine List.mem_cons_of_mem _ ((List.mem_cons.mp hx).resolve_left fun heq => ?_)
      rw [heq, hy] at hp
      cases hp
    · rcases List.mem_cons.mp hx with rfl | hx
      · exact List.mem_cons_self
      · exact List.mem_cons_of_mem _ (ih hx)

/-- A filter that lets no row that matches through does not see the change. -/
theorem filter_updateFirst {α : Type} {p q : α → Bool} {f : α → α}
    (h : ∀ x, p x = true → q x = false ∧ q (f x) = false) (xs : List α) :
    (updateFirst p f xs).filter q = xs.filter q := by
  induction xs with
  | nil => rfl
  | cons x xs ih =>
    unfold updateFirst
    split
    · rename_i hx
      obtain ⟨hbefore, hafter⟩ := h x hx
      simp [hbefore, hafter]
    · rw [List.filter_cons, List.filter_cons, ih]

/-- A key that no other row has picks one row out. -/
theorem filter_of_nodup {α β : Type} [DecidableEq β] {key : α → β} {xs : List α}
    (h : (xs.map key).Nodup) {x : α} (hx : x ∈ xs) :
    xs.filter (fun y => key y == key x) = [x] := by
  induction xs with
  | nil => cases hx
  | cons y ys ih =>
    rw [List.map_cons, List.nodup_cons] at h
    rcases List.mem_cons.mp hx with rfl | hx
    · have hrest : ys.filter (fun y => key y == key x) = [] := by
        rw [List.filter_eq_nil_iff]
        intro z hz heq
        exact h.1 (beq_iff_eq.mp heq ▸ List.mem_map_of_mem hz)
      simp [hrest]
    · have hne : key y ≠ key x := fun heq => h.1 (heq ▸ List.mem_map_of_mem hx)
      simp [hne, ih h.2 hx]

theorem find?_of_nodup {α β : Type} [DecidableEq β] {key : α → β} {xs : List α}
    (h : (xs.map key).Nodup) {x : α} (hx : x ∈ xs) :
    xs.find? (fun y => key y == key x) = some x := by
  rw [← List.head?_filter, filter_of_nodup h hx]
  rfl

@[simp] theorem mem_distinct {α : Type} [DecidableEq α] {a : α} {xs : List α} :
    a ∈ distinct xs ↔ a ∈ xs := by
  induction xs with
  | nil => simp [distinct]
  | cons x xs ih =>
    by_cases h : a = x <;> simp [distinct, ih, h]

theorem nodup_distinct {α : Type} [DecidableEq α] (xs : List α) : (distinct xs).Nodup := by
  induction xs with
  | nil => exact List.nodup_nil
  | cons x xs ih =>
    rw [distinct, List.nodup_cons]
    exact ⟨by simp, ih.sublist List.filter_sublist⟩

/-! ## Rows with keys -/

section Keyed

variable {α β : Type} [DecidableEq α] {rows : List (α × β)} {k : α}

theorem lookup_cons (k : α) (b : β) (rows : List (α × β)) (k' : α) :
    ((k, b) :: rows).lookup k' = if k' = k then some b else rows.lookup k' := by
  by_cases hk : k' = k
  · subst hk
    simp
  · have hne : (k' == k) = false := by simpa using hk
    simp [List.lookup_cons, hne, hk]

theorem mem_of_lookup {b : β} (h : rows.lookup k = some b) : (k, b) ∈ rows := by
  obtain ⟨before, after, rfl, -⟩ := List.lookup_eq_some_iff.mp h
  exact List.mem_append_right _ List.mem_cons_self

/-- With one row for each key, every row is found under its own. -/
theorem lookup_of_mem {b : β} (h : (rows.map Prod.fst).Nodup) (hb : (k, b) ∈ rows) :
    rows.lookup k = some b := by
  induction rows with
  | nil => cases hb
  | cons e es ih =>
    obtain ⟨j, a⟩ := e
    rw [List.map_cons, List.nodup_cons] at h
    rw [lookup_cons]
    rcases List.mem_cons.mp hb with heq | hmem
    · cases heq
      rw [if_pos rfl]
    · rw [if_neg, ih h.2 hmem]
      rintro rfl
      exact h.1 (List.mem_map.mpr ⟨_, hmem, rfl⟩)

theorem lookup_updateFirst (b : β) (h : (rows.lookup k).isSome) (k' : α) :
    (updateFirst (fun e => e.1 == k) (fun _ => (k, b)) rows).lookup k' =
      if k' = k then some b else rows.lookup k' := by
  induction rows with
  | nil => cases h
  | cons e es ih =>
    obtain ⟨j, a⟩ := e
    unfold updateFirst
    by_cases hj : j = k
    · subst hj
      rw [if_pos (beq_self_eq_true j), lookup_cons, lookup_cons]
      by_cases hk : k' = j <;> simp [hk]
    · have hne : k ≠ j := fun h => hj h.symm
      rw [lookup_cons, if_neg hne] at h
      rw [if_neg (by simpa using hj), lookup_cons, lookup_cons, ih h]
      by_cases hk : k' = j
      · simp [hk, hj]
      · simp [hk]

/-- A row put in the place of the first one of its key, or at the end, is found; the
others stay. -/
theorem lookup_upsert (rows : List (α × β)) (k : α) (b : β) (k' : α) :
    (if (rows.lookup k).isSome then updateFirst (fun e => e.1 == k) (fun _ => (k, b)) rows
      else rows ++ [(k, b)]).lookup k' = if k' = k then some b else rows.lookup k' := by
  split
  · rename_i h
    exact lookup_updateFirst b h k'
  · rename_i h
    have hnone : rows.lookup k = none := Option.not_isSome_iff_eq_none.mp h
    rw [List.lookup_append, lookup_cons]
    by_cases hk : k' = k
    · subst hk
      simp only [hnone, if_pos, Option.none_or]
    · simp only [if_neg hk, List.lookup_nil, Option.or_none]

end Keyed

end ContentStore
