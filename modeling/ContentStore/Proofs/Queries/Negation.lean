import ContentStore.Query.Condition

/-!
# Negation by dual operators

Filters know no negation of a whole tree.  Where every leaf has an operator for its
negation, the tree is negated all the same: `and` and `or` change places, and so do
an operator and its negation at each leaf (`Condition.dual`).  A leaf that tests for
equality, texts, truth, presence or sets has such an operator; one that compares
numbers or days has none, since it fails on a field that is absent whichever way it
compares.

The dual of a tree passes just what the tree does not (`Condition.Negatable.holds_dual`),
and the dual of the dual is the tree (`Condition.Negatable.dual_dual`).
-/

namespace ContentStore.Query

open Time (Instant)

/-! ## Operators -/

namespace EqualOp

/-- The negation of a test for equality. -/
def dual : EqualOp → EqualOp
  | equals => notEquals
  | notEquals => equals

/-- Negating a test for equality twice gives it back. -/
@[simp] theorem dual_dual (op : EqualOp) : op.dual.dual = op := by cases op <;> rfl

/-- The negated test judges the other way. -/
@[simp] theorem judge_dual (equal : Bool) (op : EqualOp) :
    op.dual.judge equal = !op.judge equal := by
  cases op <;> simp [dual, judge]

end EqualOp

namespace TextOp

/-- The negation of a test on texts. -/
def dual : TextOp → TextOp
  | contains => notContains
  | notContains => contains
  | startsWith => notStartsWith
  | notStartsWith => startsWith
  | endsWith => notEndsWith
  | notEndsWith => endsWith

/-- Negating a test on texts twice gives it back. -/
@[simp] theorem dual_dual (op : TextOp) : op.dual.dual = op := by cases op <;> rfl

/-- Both ask for the same texts, and differ only in what they make of the answer. -/
@[simp] theorem test_dual (op : TextOp) : op.dual.test = op.test := by
  funext s t
  cases op <;> rfl

/-- The negated test judges a hit the other way. -/
@[simp] theorem judge_dual (hit : Bool) (op : TextOp) : op.dual.judge hit = !op.judge hit := by
  cases op <;> simp [dual, judge]

end TextOp

namespace PresenceOp

/-- The negation of a test for absence. -/
def dual : PresenceOp → PresenceOp
  | empty => notEmpty
  | notEmpty => empty

/-- What is not absent is present, and the other way round. -/
@[simp] theorem dual_dual (op : PresenceOp) : op.dual.dual = op := by cases op <;> rfl

end PresenceOp

namespace SetOp

/-- The negation of a test against a set. -/
def dual : SetOp → SetOp
  | includesAny => notIncludesAny
  | notIncludesAny => includesAny
  | includesAll => notIncludesAll
  | notIncludesAll => includesAll

/-- Negating a test against a set twice gives it back. -/
@[simp] theorem dual_dual (op : SetOp) : op.dual.dual = op := by cases op <;> rfl

/-- The negated test against a set judges the other way. -/
@[simp] theorem judge_dual (any all : Bool) (op : SetOp) :
    op.dual.judge any all = !op.judge any all := by
  cases op <;> simp [dual, judge]

end SetOp

/-! ## Trees -/

namespace Condition

mutual

/-- The tree with `and` and `or` exchanged, and at each leaf the operator and its
negation. -/
def dual : Condition → Condition
  | and cs => or (dualAll cs)
  | or cs => and (dualAll cs)
  | basic field op value => basic field op.dual value
  | text field op value => text field op.dual value
  | bool field op value => bool field op.dual value
  | presence field op => presence field op.dual
  | set field op values => set field op.dual values
  | number field op value => number field op value
  | time field op value => time field op value

def dualAll : List Condition → List Condition
  | [] => []
  | c :: cs => dual c :: dualAll cs

end

/-- Every leaf has an operator for its negation. -/
inductive Negatable : Condition → Prop
  | basic (field : Selector) (op : EqualOp) (value : Json) : Negatable (basic field op value)
  | text (field : Selector) (op : TextOp) (value : String) : Negatable (text field op value)
  | bool (field : Selector) (op : EqualOp) (value : Bool) : Negatable (bool field op value)
  | presence (field : Selector) (op : PresenceOp) : Negatable (presence field op)
  | set (field : Selector) (op : SetOp) (values : List Json) : Negatable (set field op values)
  | and {cs : List Condition} (hall : ∀ c ∈ cs, Negatable c) : Negatable (and cs)
  | or {cs : List Condition} (hall : ∀ c ∈ cs, Negatable c) : Negatable (or cs)

variable {now : Instant} {c : Candidate} {f : Condition} {fs : List Condition}

/-- All duals hold just if none of the conditions does. -/
theorem allHold_dualAll (h : ∀ f ∈ fs, f.dual.holds now c = !f.holds now c) :
    allHold now c (dualAll fs) = !anyHolds now c fs := by
  induction fs with
  | nil => rfl
  | cons f fs ih =>
    have hrest := ih fun g hg => h g (List.mem_cons_of_mem _ hg)
    rw [dualAll, allHold, anyHolds, h f List.mem_cons_self, hrest, Bool.not_or]

/-- Some dual holds just if not all of the conditions do. -/
theorem anyHolds_dualAll (h : ∀ f ∈ fs, f.dual.holds now c = !f.holds now c) :
    anyHolds now c (dualAll fs) = !allHold now c fs := by
  induction fs with
  | nil => rfl
  | cons f fs ih =>
    have hrest := ih fun g hg => h g (List.mem_cons_of_mem _ hg)
    rw [dualAll, anyHolds, allHold, h f List.mem_cons_self, hrest, Bool.not_and]

/-- The negations of several trees are negated back one by one. -/
theorem dualAll_dualAll (h : ∀ f ∈ fs, f.dual.dual = f) : dualAll (dualAll fs) = fs := by
  induction fs with
  | nil => rfl
  | cons f fs ih =>
    rw [dualAll, dualAll, h f List.mem_cons_self,
      ih fun g hg => h g (List.mem_cons_of_mem _ hg)]

namespace Negatable

/-- **The dual negates the tree.**  At a leaf it asks for the same values and turns the
answer around, whether the field is absent, empty or holds several values; De Morgan's
laws carry this through the tree. -/
theorem holds_dual (h : f.Negatable) (now : Instant) (c : Candidate) :
    f.dual.holds now c = !f.holds now c := by
  induction h with
  | basic field op value => rw [dual, holds, holds, EqualOp.judge_dual]
  | text field op value => rw [dual, holds, holds, TextOp.test_dual, TextOp.judge_dual]
  | bool field op value => rw [dual, holds, holds, EqualOp.judge_dual]
  | presence field op => cases op <;> simp [dual, holds, PresenceOp.dual]
  | set field op values => rw [dual, holds, holds, SetOp.judge_dual]
  | and _ ih => rw [dual, holds, holds, anyHolds_dualAll ih]
  | or _ ih => rw [dual, holds, holds, allHold_dualAll ih]

/-- Negating a tree twice gives it back. -/
theorem dual_dual (h : f.Negatable) : f.dual.dual = f := by
  induction h with
  | basic field op value => rw [dual, dual, EqualOp.dual_dual]
  | text field op value => rw [dual, dual, TextOp.dual_dual]
  | bool field op value => rw [dual, dual, EqualOp.dual_dual]
  | presence field op => rw [dual, dual, PresenceOp.dual_dual]
  | set field op values => rw [dual, dual, SetOp.dual_dual]
  | and _ ih => rw [dual, dual, dualAll_dualAll ih]
  | or _ ih => rw [dual, dual, dualAll_dualAll ih]

/-- **Filters are negated by their duals**: of any candidate, at any time, either the
tree holds or its dual; and the dual of the dual is the tree. -/
theorem negated_by_dual (h : f.Negatable) :
    (∀ now c, f.dual.holds now c = true ↔ f.holds now c = false) ∧ f.dual.dual = f := by
  refine ⟨fun now c => ?_, h.dual_dual⟩
  rw [h.holds_dual now c]
  cases f.holds now c <;> decide

end Negatable

/-- Articles that are open to comments, current ones that are not drafts, and reviews. -/
def worthReading : Condition := or [
  bool (.ofField ⟨"comments"⟩) .equals true,
  and [
    basic (.property .status) .notEquals (.string "draft"),
    set (.ofMeta ⟨"tags"⟩) .notIncludesAny [.string "old", .string "outdated"]],
  and [
    text (.ofField ⟨"title"⟩) .startsWith "Review",
    presence (.ofField ⟨"title"⟩) .notEmpty]]

/-- All others. -/
example : worthReading.dual = and [
    bool (.ofField ⟨"comments"⟩) .notEquals true,
    or [
      basic (.property .status) .equals (.string "draft"),
      set (.ofMeta ⟨"tags"⟩) .includesAny [.string "old", .string "outdated"]],
    or [
      text (.ofField ⟨"title"⟩) .notStartsWith "Review",
      presence (.ofField ⟨"title"⟩) .empty]] := rfl

/-- The articles that are not worth reading are those that the negated tree selects. -/
theorem negated_by_dual_of_worthReading : worthReading.Negatable ∧
    (∀ now c, worthReading.dual.holds now c = true ↔ worthReading.holds now c = false) ∧
    worthReading.dual.dual = worthReading := by
  have hcurrent : ∀ c ∈ [
      basic (.property .status) .notEquals (.string "draft"),
      set (.ofMeta ⟨"tags"⟩) .notIncludesAny [.string "old", .string "outdated"]], Negatable c :=
    List.forall_mem_cons.mpr ⟨.basic _ _ _, List.forall_mem_singleton.mpr (.set _ _ _)⟩
  have hreview : ∀ c ∈ [
      text (.ofField ⟨"title"⟩) .startsWith "Review",
      presence (.ofField ⟨"title"⟩) .notEmpty], Negatable c :=
    List.forall_mem_cons.mpr ⟨.text _ _ _, List.forall_mem_singleton.mpr (.presence _ _)⟩
  have hall : worthReading.Negatable := .or (List.forall_mem_cons.mpr
    ⟨.bool _ _ _, List.forall_mem_cons.mpr ⟨.and hcurrent,
      List.forall_mem_singleton.mpr (.and hreview)⟩⟩)
  exact ⟨hall, hall.negated_by_dual⟩

end Condition

end ContentStore.Query
