import ContentStore.Item.Change
import ContentStore.Proofs.Items.Slots

/-!
# Comparisons are exact

Two lists of values are compared in two passes, over the slots of the new list
and over those that only the old one has.  If either list has one value for
each slot, then both passes look at the same thing, the values present in a
slot before and after (`between_eq`): a slot is reported if these differ, once,
and a report says what they are.  Who has the old values and makes the reported
changes has the new ones.
-/

namespace ContentStore

namespace ChangeKind

/-- The kind of a change, by the sides on which a value is present. -/
def ofSides : Option Values → Option Values → ChangeKind
  | none, _ => .add
  | some _, none => .delete
  | some _, some _ => .update

end ChangeKind

namespace Change

variable {new old fields : List ItemField} {s : Slot} {c : Change}

/-- The slot that changed. -/
def slot (c : Change) : Slot := ⟨c.field, c.group⟩

/-- The slots of two lists: those of the first in its order, then those that only the
second has. -/
def slots (new old : List ItemField) : List Slot :=
  new.map ItemField.slot ++ (old.map ItemField.slot).filter (· ∉ new.map ItemField.slot)

/-- What a change says of two lists of values. -/
structure Tells (new old : List ItemField) (c : Change) : Prop where
  previous : c.previous = present? old c.slot
  current : c.current = present? new c.slot
  differs : c.previous ≠ c.current
  add : c.kind = .add ↔ c.previous = none
  delete : c.kind = .delete ↔ c.current = none
  update : c.kind = .update ↔ c.previous.isSome ∧ c.current.isSome

/-- A change made to the values held in slots. -/
def patch (held : Slot → Option Values) (c : Change) : Slot → Option Values :=
  Function.update held c.slot <|
    match c.kind with
    | .add | .update => c.current
    | .delete => none

/-! ### What is present -/

/-- Where every slot has one value at most, that one is present unless it is empty. -/
theorem present?_of_mem (h : (fields.map ItemField.slot).Nodup) {e : ItemField} (he : e ∈ fields) :
    present? fields e.slot = (some e.value).filter fun vs => !vs.isEmpty := by
  rw [present?, (valueAt?_eq_some_iff h).mpr ⟨he, rfl⟩, Option.map_some]

/-- In a slot without a value nothing is present. -/
theorem present?_of_not_mem (h : s ∉ fields.map ItemField.slot) : present? fields s = none := by
  have hnone : valueAt? fields s = none :=
    valueAt?_eq_none.mpr fun e he hs => h (hs ▸ List.mem_map_of_mem he)
  rw [present?, hnone]
  rfl

/-- An old value has a slot of its own if no new value stands there. -/
theorem isNone_valueAt? (o : ItemField) :
    (!(valueAt? new o.slot).isSome) = decide (o.slot ∉ new.map ItemField.slot) := by
  rw [Bool.eq_iff_iff, decide_eq_true_eq, Bool.not_eq_true', Option.isSome_eq_false_iff,
    Option.isNone_iff_eq_none, valueAt?_eq_none, List.mem_map]
  simp

/-- A slot that has changed is one of either list. -/
theorem mem_slots_of_present? (h : present? old s ≠ present? new s) : s ∈ slots new old := by
  rw [slots, List.mem_append]
  by_cases hnew : s ∈ new.map ItemField.slot
  · exact .inl hnew
  · refine .inr (List.mem_filter.mpr ⟨?_, by simpa using hnew⟩)
    by_contra hold
    exact h (by rw [present?_of_not_mem hnew, present?_of_not_mem hold])

/-- Every slot is looked at once. -/
theorem nodup_slots (hnew : (new.map ItemField.slot).Nodup)
    (hold : (old.map ItemField.slot).Nodup) : (slots new old).Nodup := by
  refine List.nodup_append.mpr ⟨hnew, hold.filter _, ?_⟩
  rintro s hs _ hs' rfl
  have hout : s ∉ new.map ItemField.slot := of_decide_eq_true (List.mem_filter.mp hs').2
  exact hout hs

/-! ### One slot -/

/-- A change of a slot is told with its kind and both sides, and only if they differ. -/
theorem ofSlot?_eq (s : Slot) (before after : Option Values) :
    ofSlot? s before after = if before = after then none
      else some ⟨ChangeKind.ofSides before after, s.field, s.owner, before, after⟩ := by
  rcases before with - | b <;> rcases after with - | a
  case some.some => simp only [ofSlot?, Option.some.injEq, eq_comm, ChangeKind.ofSides]
  all_goals rfl

/-- So a change is told of a slot just if the sides differ. -/
theorem ofSlot?_eq_some {before after : Option Values} :
    ofSlot? s before after = some c ↔
      before ≠ after ∧
        c = ⟨ChangeKind.ofSides before after, s.field, s.owner, before, after⟩ := by
  rw [ofSlot?_eq]
  split
  · simp [*]
  · simp [*, eq_comm]

/-- What is told of a slot is true of the two lists. -/
theorem tells_of_ofSlot? (h : ofSlot? s (present? old s) (present? new s) = some c) :
    c.slot = s ∧ Tells new old c := by
  obtain ⟨hdiffers, rfl⟩ := ofSlot?_eq_some.mp h
  refine ⟨rfl, rfl, rfl, hdiffers, ?_, ?_, ?_⟩ <;>
    rcases hb : present? old s with - | b <;> rcases ha : present? new s with - | a <;>
    simp_all [ChangeKind.ofSides]

/-- A change leaves in its slot what it says is there now. -/
theorem Tells.patch (h : Tells new old c) (held : Slot → Option Values) :
    patch held c = Function.update held c.slot (present? new c.slot) := by
  rw [Change.patch, ← h.current]
  cases hkind : c.kind
  case delete => rw [h.delete.mp hkind]
  all_goals rfl

/-! ### All slots -/

/-- **Both passes look at the present values of a slot**, those of the slots of the two lists
in turn. -/
theorem between_eq (hnew : (new.map ItemField.slot).Nodup)
    (hold : (old.map ItemField.slot).Nodup) :
    between new old =
      (slots new old).filterMap fun s => ofSlot? s (present? old s) (present? new s) := by
  rw [between, slots, List.filterMap_append, List.filterMap_map, List.filter_map,
    List.filterMap_map]
  congr 1
  · refine List.filterMap_congr fun n hn => ?_
    rw [Function.comp_apply, present?_of_mem hnew hn]
  · have honly : (fun o : ItemField => !(valueAt? new o.slot).isSome) =
        (fun s => decide (s ∉ new.map ItemField.slot)) ∘ ItemField.slot :=
      funext isNone_valueAt?
    rw [honly]
    refine List.filterMap_congr fun o ho => ?_
    obtain ⟨hmem, hout⟩ := List.mem_filter.mp ho
    rw [Function.comp_apply, present?_of_mem hold hmem,
      present?_of_not_mem (of_decide_eq_true hout)]

/-- True changes, made to whatever was held before, leave in their slots what is present in
the new list. -/
theorem foldl_patch {cs : List Change} (h : ∀ c ∈ cs, Tells new old c)
    (held : Slot → Option Values) (s : Slot) :
    cs.foldl patch held s = if s ∈ cs.map slot then present? new s else held s := by
  induction cs generalizing held with
  | nil => rfl
  | cons c cs ih =>
    have hcs : ∀ c' ∈ cs, Tells new old c' := fun c' hc' => h c' (List.mem_cons_of_mem _ hc')
    rw [List.foldl_cons, ih hcs, (h c List.mem_cons_self).patch]
    by_cases hc : s = c.slot
    · subst hc
      simp
    · rw [Function.update_of_ne hc]
      simp [hc]

/-- The reported slots are those in which the present values differ. -/
theorem map_slot_between (hnew : (new.map ItemField.slot).Nodup)
    (hold : (old.map ItemField.slot).Nodup) :
    (between new old).map slot =
      (slots new old).filter fun s => present? old s ≠ present? new s := by
  rw [between_eq hnew hold, List.map_filterMap, ← List.filterMap_eq_filter]
  refine List.filterMap_congr fun s _ => ?_
  rw [ofSlot?_eq]
  by_cases h : present? old s = present? new s
  · simp [h, Option.guard]
  · simp [h, slot, Option.guard]

/-- **Just the slots whose present values differ are told of.** -/
theorem mem_map_slot_between (hnew : (new.map ItemField.slot).Nodup)
    (hold : (old.map ItemField.slot).Nodup) :
    s ∈ (between new old).map slot ↔ present? old s ≠ present? new s := by
  rw [map_slot_between hnew hold, List.mem_filter, decide_eq_true_eq]
  exact ⟨And.right, fun h => ⟨mem_slots_of_present? h, h⟩⟩

/-- **Every change that is told is true.** -/
theorem tells_of_mem_between (hnew : (new.map ItemField.slot).Nodup)
    (hold : (old.map ItemField.slot).Nodup) (hc : c ∈ between new old) : Tells new old c := by
  rw [between_eq hnew hold] at hc
  obtain ⟨s, -, hs⟩ := List.mem_filterMap.mp hc
  exact (tells_of_ofSlot? hs).2

/-- **A comparison is exact.**  It reports each slot in which the present values differ, once
and no other one, in the order of the new list and then of the old one; a report tells what was
and what is present, and of a kind by that; and the reported changes make the new values out of
the old ones. -/
theorem between_exact (hnew : (new.map ItemField.slot).Nodup)
    (hold : (old.map ItemField.slot).Nodup) :
    (∀ s, s ∈ (between new old).map slot ↔ present? old s ≠ present? new s) ∧
      ((between new old).map slot).Nodup ∧
      (between new old).map slot =
        (slots new old).filter (fun s => present? old s ≠ present? new s) ∧
      (∀ c ∈ between new old, Tells new old c) ∧
      (between new old).foldl patch (present? old) = present? new := by
  have htells : ∀ c ∈ between new old, Tells new old c := fun c hc =>
    tells_of_mem_between hnew hold hc
  refine ⟨fun s => mem_map_slot_between hnew hold, ?once, map_slot_between hnew hold, htells,
    funext fun s => ?patched⟩
  case once =>
    rw [map_slot_between hnew hold]
    exact (nodup_slots hnew hold).filter _
  case patched =>
    rw [foldl_patch htells]
    split
    · rfl
    · rename_i hs
      exact not_not.mp (mt (mem_map_slot_between hnew hold).mpr hs)

section Drafts

/-- A text in the top-level slot of a field. -/
def wording (field : FieldId) (text : String) : ItemField :=
  ⟨field, field.text, ⟨.text, [.text text]⟩, none⟩

/-- A draft of a page. -/
def firstDraft : List ItemField := [
  wording ⟨"title"⟩ "Home", wording ⟨"lead"⟩ "Hello", wording ⟨"note"⟩ "later",
  wording ⟨"author"⟩ "", wording ⟨"source"⟩ "a letter"]

/-- The next draft, with another lead and a date, without a note and a source. -/
def nextDraft : List ItemField := [
  wording ⟨"date"⟩ "today", wording ⟨"title"⟩ "Home", wording ⟨"lead"⟩ "Welcome",
  wording ⟨"note"⟩ ""]

/-- An emptied note is as gone as a source left out, and an author that was empty is no loss. -/
theorem between_drafts : (nextDraft.map ItemField.slot).Nodup ∧
    (firstDraft.map ItemField.slot).Nodup ∧
    (between nextDraft firstDraft).map (fun c => (c.kind, c.field.text)) =
      [(.add, "date"), (.update, "lead"), (.delete, "note"), (.delete, "source")] ∧
    (between nextDraft firstDraft).foldl patch (present? firstDraft) = present? nextDraft := by
  have hnext : (nextDraft.map ItemField.slot).Nodup := by decide
  have hfirst : (firstDraft.map ItemField.slot).Nodup := by decide
  obtain ⟨-, -, -, -, hpatched⟩ := between_exact hnext hfirst
  exact ⟨hnext, hfirst, by decide, hpatched⟩

end Drafts

end Change

end ContentStore
