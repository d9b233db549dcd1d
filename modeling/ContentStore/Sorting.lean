/-!
# Stable sorting

Lists are sorted by insertion: each element, in turn, moves forward past those
it comes before.  Elements of which neither comes before the other keep their
order.  Where any two are in order, there is only one list they can be sorted into.
-/

namespace ContentStore

/-- Puts `x` behind the elements already sorted.  These are given last first;
`x` moves past those it comes before. -/
def insertBack {α : Type} (before : α → α → Bool) (x : α) : List α → List α
  | [] => [x]
  | y :: ys => if before x y then y :: insertBack before x ys else x :: y :: ys

/-- The list sorted by a relation, stably. -/
def sortBy {α : Type} (before : α → α → Bool) (xs : List α) : List α :=
  (xs.foldl (fun done x => insertBack before x done) []).reverse

theorem insertBack_perm {α : Type} (before : α → α → Bool) (x : α) (ys : List α) :
    (insertBack before x ys).Perm (x :: ys) := by
  induction ys with
  | nil => exact .refl _
  | cons y ys ih =>
    unfold insertBack
    split
    · exact (ih.cons y).trans (.swap x y ys)
    · exact .refl _

theorem foldl_insertBack_perm {α : Type} (before : α → α → Bool) (xs done : List α) :
    (xs.foldl (fun done x => insertBack before x done) done).Perm (xs.reverse ++ done) := by
  induction xs generalizing done with
  | nil => exact .refl _
  | cons x xs ih =>
    simp only [List.foldl_cons, List.reverse_cons, List.append_assoc, List.singleton_append]
    exact (ih _).trans ((insertBack_perm before x done).append_left _)

/-- Sorting neither adds nor loses elements. -/
theorem sortBy_perm {α : Type} (before : α → α → Bool) (xs : List α) :
    (sortBy before xs).Perm xs := by
  have h := foldl_insertBack_perm before xs []
  rw [List.append_nil] at h
  exact (List.reverse_perm _).trans (h.trans (List.reverse_perm _))

/-- What is in order already stays as it is. -/
theorem sortBy_eq_self {α : Type} {before : α → α → Bool} {xs : List α}
    (h : xs.Pairwise fun x y => before y x = false) : sortBy before xs = xs := by
  have hfold : ∀ done : List α, (∀ x ∈ xs, ∀ y ∈ done, before x y = false) →
      xs.foldl (fun done x => insertBack before x done) done = xs.reverse ++ done := by
    induction xs with
    | nil => exact fun _ _ => rfl
    | cons x xs ih =>
      intro done hdone
      obtain ⟨hx, hxs⟩ := List.pairwise_cons.mp h
      have hfirst : insertBack before x done = x :: done := by
        cases done with
        | nil => rfl
        | cons y ys =>
          have hxy : before x y = false :=
            hdone x List.mem_cons_self y List.mem_cons_self
          simp [insertBack, hxy]
      rw [List.foldl_cons, hfirst, ih hxs, List.reverse_cons, List.append_assoc]
      · rfl
      · intro z hz y hy
        rcases List.mem_cons.mp hy with rfl | hy
        · exact hx z hz
        · exact hdone z (List.mem_cons_of_mem _ hz) y hy
  have hempty := hfold [] fun _ _ _ hy => (List.not_mem_nil hy).elim
  rw [sortBy, hempty, List.append_nil, List.reverse_reverse]

/-- **Sorting puts a list in order**, if among its elements the relation is asymmetric and
its negation transitive. -/
theorem pairwise_sortBy {α : Type} {before : α → α → Bool} {xs : List α}
    (hasymm : ∀ x ∈ xs, ∀ y ∈ xs, before x y = true → before y x = false)
    (htrans : ∀ x ∈ xs, ∀ y ∈ xs, ∀ z ∈ xs,
      before x y = false → before y z = false → before x z = false) :
    (sortBy before xs).Pairwise fun x y => before y x = false := by
  -- what has been sorted is kept last first
  have hinsert : ∀ x ∈ xs, ∀ done ⊆ xs, (done.Pairwise fun x y => before x y = false) →
      (insertBack before x done).Pairwise fun x y => before x y = false := by
    intro x hx done hin hdone
    induction done with
    | nil => exact List.pairwise_singleton _ x
    | cons y ys ih =>
      obtain ⟨hyin, hysin⟩ := List.cons_subset.mp hin
      obtain ⟨hy, hys⟩ := List.pairwise_cons.mp hdone
      unfold insertBack
      split
      · rename_i hxy
        refine List.pairwise_cons.mpr ⟨fun z hz => ?_, ih hysin hys⟩
        rcases List.mem_cons.mp ((insertBack_perm before x ys).subset hz) with rfl | hz
        · exact hasymm z hx y hyin hxy
        · exact hy z hz
      · rename_i hxy
        have hxy : before x y = false := Bool.eq_false_iff.mpr hxy
        refine List.pairwise_cons.mpr ⟨fun z hz => ?_, hdone⟩
        rcases List.mem_cons.mp hz with rfl | hz
        · exact hxy
        · exact htrans x hx y hyin z (hysin hz) hxy (hy z hz)
  have hfold : ∀ ys ⊆ xs, ∀ done ⊆ xs, (done.Pairwise fun x y => before x y = false) →
      (ys.foldl (fun done x => insertBack before x done) done).Pairwise
        fun x y => before x y = false := by
    intro ys hys
    induction ys with
    | nil => exact fun _ _ hdone => hdone
    | cons y ys ih =>
      intro done hin hdone
      obtain ⟨hy, hys⟩ := List.cons_subset.mp hys
      have hstep := (insertBack_perm before y done).subset
      have hnext := List.Subset.trans hstep (List.cons_subset.mpr ⟨hy, hin⟩)
      exact ih hys _ hnext (hinsert y hy done hin hdone)
  rw [sortBy, List.pairwise_reverse]
  exact hfold xs (List.Subset.refl xs) [] (List.nil_subset xs) List.Pairwise.nil

/-- **Sorted by a strict order, a list is the only one of its elements in that order.**  It
is enough that the order is total on these elements. -/
theorem eq_sortBy_iff {α : Type} {before : α → α → Bool} {r : α → α → Prop} {xs : List α}
    (hirrefl : ∀ x, ¬r x x) (htrans : ∀ {x y z}, r x y → r y z → r x z)
    (htotal : ∀ x ∈ xs, ∀ y ∈ xs, r x y ∨ x = y ∨ r y x)
    (hbefore : ∀ x ∈ xs, ∀ y ∈ xs, (before x y = true ↔ r x y)) (hxs : xs.Nodup) (out : List α) :
    out = sortBy before xs ↔ (∀ x, x ∈ out ↔ x ∈ xs) ∧ out.Nodup ∧ out.Pairwise r := by
  have hasymm : ∀ {x y}, r x y → ¬r y x := fun hxy hyx => hirrefl _ (htrans hxy hyx)
  have hnot : ∀ x ∈ xs, ∀ y ∈ xs, (before x y = false ↔ x = y ∨ r y x) := by
    intro x hx y hy
    rw [← Bool.not_eq_true, hbefore x hx y hy]
    refine ⟨fun h => (htotal x hx y hy).resolve_left h, ?_⟩
    rintro (rfl | hyx)
    · exact hirrefl x
    · exact hasymm hyx
  have hsorted : (sortBy before xs).Pairwise fun x y => before y x = false := by
    refine pairwise_sortBy (fun x hx y hy hxy => ?_) (fun x hx y hy z hz hxy hyz => ?_)
    · exact (hnot y hy x hx).mpr (.inr ((hbefore x hx y hy).mp hxy))
    · rw [hnot x hx y hy] at hxy
      rw [hnot y hy z hz] at hyz
      rw [hnot x hx z hz]
      rcases hxy with rfl | hyx
      · exact hyz
      · rcases hyz with rfl | hzy
        · exact .inr hyx
        · exact .inr (htrans hzy hyx)
  have hmem : ∀ x, x ∈ sortBy before xs ↔ x ∈ xs := fun x => (sortBy_perm before xs).mem_iff
  have hnodup : (sortBy before xs).Nodup := (sortBy_perm before xs).nodup_iff.mpr hxs
  have hstrict : (sortBy before xs).Pairwise r := by
    refine (hsorted.and hnodup).imp_of_mem fun {x y} hx hy hxy => ?_
    rcases (hnot y ((hmem y).mp hy) x ((hmem x).mp hx)).mp hxy.1 with heq | hr
    · exact (hxy.2 heq.symm).elim
    · exact hr
  constructor
  · rintro rfl
    exact ⟨hmem, hnodup, hstrict⟩
  · rintro ⟨hout, hdistinct, hpairs⟩
    have hperm : out.Perm (sortBy before xs) :=
      (List.perm_ext_iff_of_nodup hdistinct hnodup).mpr fun x => (hout x).trans (hmem x).symm
    exact hperm.eq_of_pairwise (fun x y _ _ hxy hyx => (hasymm hxy hyx).elim) hpairs hstrict

end ContentStore
