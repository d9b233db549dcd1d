import ContentStore.Ident.Basic

/-!
# Exclusive edges

Two-way references as a graph: `E x f` is the item that `x` holds in the field
`f`, and `mirror f g` says that the two fields are the ends of one pair.  The
graph is linked (`Linked`) if whoever is held holds back, and no item is held by
two others in one field.  Items that are gone hold nothing; they may still be
held, but by one item at most.

Moving an end of an edge is `relink`: the item and its former partner let go of
each other, so do the new partner and its former one, and then the two are
joined.  Each of the three parts keeps the graph linked, hence so does the whole
(`Linked.relink`).  `own x f` restricts all of this to the fields that count for
an item.
-/

namespace ContentStore.Pairing

/-- The item held by an item in a field. -/
abbrev Edges := ItemId → FieldId → Option ItemId

namespace Edges

/-- The field of an item holds another item, or nothing. -/
def set (E : Edges) (x : ItemId) (f : FieldId) (y : Option ItemId) : Edges := fun z g =>
  if z = x ∧ g = f then y else E z g

/-- The item lets go of `y` if it holds it in the field. -/
def drop (E : Edges) (x : ItemId) (f : FieldId) (y : ItemId) : Edges :=
  if E x f = some y then E.set x f none else E

/-- The item and its partner let go of each other. -/
def part (E : Edges) (x : ItemId) (f g : FieldId) : Edges :=
  match E x f with
  | some y => (E.drop y g x).set x f none
  | none => E

/-- The item changes its partner. -/
def relink (E : Edges) (x : ItemId) (f g : FieldId) (new : Option ItemId) : Edges :=
  if E x f = new then E
  else match new with
    | some y => (((E.part x f g).part y g f).set x f (some y)).set y g (some x)
    | none => E.part x f g

@[simp] theorem set_self (E : Edges) (x : ItemId) (f : FieldId) (y : Option ItemId) :
    E.set x f y x f = y := if_pos ⟨rfl, rfl⟩

theorem set_other (E : Edges) {x z : ItemId} {f g : FieldId} (y : Option ItemId)
    (h : ¬ (z = x ∧ g = f)) : E.set x f y z g = E z g := if_neg h

/-- Letting go adds nothing. -/
theorem eq_of_drop {E : Edges} {x z w y : ItemId} {f g : FieldId}
    (h : E.drop x f y z g = some w) : E z g = some w ∧ ¬ (z = x ∧ g = f ∧ w = y) := by
  unfold drop at h
  split at h
  · rename_i hx
    by_cases hz : z = x ∧ g = f
    · rw [set, if_pos hz] at h
      cases h
    · rw [set_other E none hz] at h
      exact ⟨h, fun hw => hz ⟨hw.1, hw.2.1⟩⟩
  · rename_i hx
    refine ⟨h, ?_⟩
    intro hboth
    obtain ⟨rfl, rfl, rfl⟩ := hboth
    exact hx h

/-- Nothing but what is let go of is lost. -/
theorem drop_eq {E : Edges} {x z w y : ItemId} {f g : FieldId} (h : E z g = some w)
    (hne : ¬ (z = x ∧ g = f ∧ w = y)) : E.drop x f y z g = some w := by
  unfold drop
  split
  · rename_i hx
    rw [set_other E none, h]
    intro hboth
    obtain ⟨rfl, rfl⟩ := hboth
    exact hne ⟨rfl, rfl, Option.some.inj (h.symm.trans hx)⟩
  · exact h

end Edges

/-- A relation between the ends of pairs: both ends know each other, and no end
has two others. -/
structure Mirrored (mirror : FieldId → FieldId → Prop) : Prop where
  symm : ∀ {f g}, mirror f g → mirror g f
  unique : ∀ {f g h}, mirror f g → mirror f h → g = h
  ne : ∀ {f g}, mirror f g → f ≠ g

/-- Whoever is held holds back, and is held by one item only. -/
structure Linked (mirror : FieldId → FieldId → Prop) (own : ItemId → FieldId → Prop)
    (gone : ItemId → Prop) (E : Edges) : Prop where
  back : ∀ {x y f g}, mirror f g → own x f → E x f = some y →
    y ≠ x ∧ (gone y ∨ own y g ∧ E y g = some x)
  exclusive : ∀ {x z y f g}, mirror f g → own x f → own z f → E x f = some y → E z f = some y →
    x = z

section Linked

variable {mirror : FieldId → FieldId → Prop} {own : ItemId → FieldId → Prop}
  {gone : ItemId → Prop} {E : Edges}

/-- With nothing gone, holding back alone makes edges exclusive. -/
theorem Linked.of_back
    (back : ∀ {x y f g}, mirror f g → own x f → E x f = some y →
      y ≠ x ∧ own y g ∧ E y g = some x) :
    Linked mirror own (fun _ => False) E where
  back := fun hfg hx h => ⟨(back hfg hx h).1, .inr (back hfg hx h).2⟩
  exclusive := fun hfg hx hz hxy hzy =>
    Option.some.inj ((back hfg hx hxy).2.2.symm.trans (back hfg hz hzy).2.2)

/-- Only the edges from owned ends of pairs matter. -/
theorem Linked.congr {own' : ItemId → FieldId → Prop} {gone' : ItemId → Prop} {E' : Edges}
    (hm : Mirrored mirror) (hE : Linked mirror own gone E)
    (h : ∀ {x y f g}, mirror f g →
      (own' x f ∧ E' x f = some y ↔ own x f ∧ E x f = some y))
    (hgone : ∀ {x y f g}, mirror f g → own x f → E x f = some y → gone y → gone' y) :
    Linked mirror own' gone' E' := by
  constructor
  case back =>
    intro x y f g hfg hx hxy
    obtain ⟨hx, hxy⟩ := (h hfg).mp ⟨hx, hxy⟩
    obtain ⟨hne, hy | hy⟩ := hE.back hfg hx hxy
    · exact ⟨hne, .inl (hgone hfg hx hxy hy)⟩
    · exact ⟨hne, .inr ((h (hm.symm hfg)).mpr hy)⟩
  case exclusive =>
    intro x z y f g hfg hx hz hxy hzy
    obtain ⟨hx, hxy⟩ := (h hfg).mp ⟨hx, hxy⟩
    obtain ⟨hz, hzy⟩ := (h hfg).mp ⟨hz, hzy⟩
    exact hE.exclusive hfg hx hz hxy hzy

/-- What is left after parting. -/
theorem eq_of_part {x z w : ItemId} {f g h : FieldId} (hw : E.part x f g z h = some w) :
    E z h = some w ∧ ¬ (z = x ∧ h = f) ∧ ¬ (E x f = some z ∧ h = g ∧ w = x) := by
  cases hy : E x f with
  | some y =>
    simp only [Edges.part, hy] at hw
    by_cases hz : z = x ∧ h = f
    · rw [Edges.set, if_pos hz] at hw
      cases hw
    · rw [Edges.set_other _ none hz] at hw
      obtain ⟨hold, hne⟩ := Edges.eq_of_drop hw
      refine ⟨hold, hz, ?_⟩
      intro hboth
      obtain ⟨hyz, rfl, rfl⟩ := hboth
      exact hne ⟨(Option.some.inj hyz).symm, rfl, rfl⟩
  | none =>
    simp only [Edges.part, hy] at hw
    refine ⟨hw, ?_, ?_⟩
    · intro hboth
      obtain ⟨rfl, rfl⟩ := hboth
      rw [hy] at hw
      cases hw
    · intro hboth
      obtain ⟨hz, -⟩ := hboth
      cases hz

/-- What parting leaves alone. -/
theorem part_eq {x z w : ItemId} {f g h : FieldId} (hw : E z h = some w)
    (hx : ¬ (z = x ∧ h = f)) (hy : ¬ (E x f = some z ∧ h = g ∧ w = x)) :
    E.part x f g z h = some w := by
  cases hxy : E x f with
  | some y =>
    simp only [Edges.part, hxy]
    rw [Edges.set_other _ none hx]
    refine Edges.drop_eq hw ?_
    intro hboth
    obtain ⟨rfl, hg, hwx⟩ := hboth
    exact hy ⟨hxy, hg, hwx⟩
  | none =>
    simp only [Edges.part, hxy]
    exact hw

theorem part_self (x : ItemId) (f g : FieldId) : E.part x f g x f = none := by
  cases hxy : E x f with
  | some y => simp [Edges.part, hxy]
  | none => simp [Edges.part, hxy]

/-- Partners may part. -/
theorem Linked.part (hm : Mirrored mirror) (hE : Linked mirror own gone E) {x : ItemId}
    {f g : FieldId} (hfg : mirror f g) : Linked mirror own gone (E.part x f g) := by
  constructor
  case back =>
    intro a b h k hhk ha hab
    obtain ⟨hold, hax, hxa⟩ := eq_of_part hab
    obtain ⟨hne, hgone | ⟨hb, hba⟩⟩ := hE.back hhk ha hold
    · exact ⟨hne, .inl hgone⟩
    · refine ⟨hne, .inr ⟨hb, part_eq hba ?_ ?_⟩⟩
      · -- `b` is the item that parts, so `a` was its partner and let go of it
        intro hboth
        obtain ⟨rfl, rfl⟩ := hboth
        exact hxa ⟨hba, hm.unique (hm.symm hhk) hfg, rfl⟩
      · -- `b` was the partner, so `a` is the item that parts and holds nothing now
        intro hboth
        obtain ⟨-, rfl, rfl⟩ := hboth
        exact hax ⟨rfl, hm.unique (hm.symm hhk) (hm.symm hfg)⟩
  case exclusive =>
    intro a c b h k hhk ha hc hab hcb
    exact hE.exclusive hhk ha hc (eq_of_part hab).1 (eq_of_part hcb).1

/-- Nobody holds an item that is there and holds nothing in the mirror. -/
theorem Linked.not_held (hE : Linked mirror own gone E) {x : ItemId} (hx : ¬ gone x)
    {f g : FieldId} (hfg : mirror f g) (hnone : own x g → E x g = none) {z : ItemId}
    (hz : own z f) : E z f ≠ some x := by
  intro hzx
  obtain ⟨-, hgone | ⟨hown, hback⟩⟩ := hE.back hfg hz hzx
  · exact hx hgone
  · rw [hnone hown] at hback
    cases hback

/-- Where an edge comes from after two items have been joined. -/
theorem eq_of_join {x y a b : ItemId} {f g h : FieldId}
    (hab : ((E.set x f (some y)).set y g (some x)) a h = some b) :
    (a = x ∧ h = f ∧ b = y) ∨ (a = y ∧ h = g ∧ b = x) ∨
      (E a h = some b ∧ ¬ (a = x ∧ h = f) ∧ ¬ (a = y ∧ h = g)) := by
  by_cases hay : a = y ∧ h = g
  · obtain ⟨rfl, rfl⟩ := hay
    rw [Edges.set_self] at hab
    exact .inr (.inl ⟨rfl, rfl, (Option.some.inj hab).symm⟩)
  · rw [Edges.set_other _ _ hay] at hab
    by_cases hax : a = x ∧ h = f
    · obtain ⟨rfl, rfl⟩ := hax
      rw [Edges.set_self] at hab
      exact .inl ⟨rfl, rfl, (Option.some.inj hab).symm⟩
    · rw [Edges.set_other _ _ hax] at hab
      exact .inr (.inr ⟨hab, hax, hay⟩)

/-- Two items without partners may be joined. -/
theorem Linked.join (hm : Mirrored mirror) (hE : Linked mirror own gone E) {x y : ItemId}
    {f g : FieldId} (hfg : mirror f g) (hx : own x f) (hy : own y g) (hxy : y ≠ x)
    (hgx : ¬ gone x) (hgy : ¬ gone y) (hxf : E x f = none) (hyg : E y g = none) :
    Linked mirror own gone ((E.set x f (some y)).set y g (some x)) := by
  have hfy : ∀ a, own a f → E a f ≠ some y :=
    fun a ha => hE.not_held hgy hfg (fun _ => hyg) ha
  have hgx' : ∀ a, own a g → E a g ≠ some x :=
    fun a ha => hE.not_held hgx (hm.symm hfg) (fun _ => hxf) ha
  have hset : ((E.set x f (some y)).set y g (some x)) x f = some y := by
    rw [Edges.set_other _ _ fun h => hxy h.1.symm, Edges.set_self]
  constructor
  case back =>
    intro a b h k hhk ha hab
    rcases eq_of_join hab with ⟨rfl, rfl, rfl⟩ | ⟨rfl, rfl, rfl⟩ | ⟨hold, hax, hay⟩
    · obtain rfl := hm.unique hfg hhk
      exact ⟨hxy, .inr ⟨hy, Edges.set_self ..⟩⟩
    · obtain rfl := hm.unique (hm.symm hfg) hhk
      exact ⟨hxy.symm, .inr ⟨hx, hset⟩⟩
    · obtain ⟨hne, hgone | ⟨hb, hba⟩⟩ := hE.back hhk ha hold
      · exact ⟨hne, .inl hgone⟩
      · refine ⟨hne, .inr ⟨hb, ?_⟩⟩
        rw [Edges.set_other, Edges.set_other]
        · exact hba
        · intro hboth
          obtain ⟨rfl, rfl⟩ := hboth
          rw [hxf] at hba
          cases hba
        · intro hboth
          obtain ⟨rfl, rfl⟩ := hboth
          rw [hyg] at hba
          cases hba
  case exclusive =>
    intro a c b h k hhk ha hc hab hcb
    rcases eq_of_join hab with ⟨rfl, rfl, rfl⟩ | ⟨rfl, rfl, rfl⟩ | ⟨haold, -, -⟩ <;>
      rcases eq_of_join hcb with ⟨rfl, hh, hb⟩ | ⟨rfl, hh, hb⟩ | ⟨hcold, -, -⟩
    · rfl
    · exact (hm.ne hfg hh).elim
    · exact (hfy _ hc hcold).elim
    · exact (hm.ne hfg hh.symm).elim
    · rfl
    · exact (hgx' _ hc hcold).elim
    · subst hh hb
      exact (hfy _ ha haold).elim
    · subst hh hb
      exact (hgx' _ ha haold).elim
    · exact hE.exclusive hhk ha hc haold hcold

/-- Items may go, as long as those who hold them are told. -/
theorem Linked.shrink {own' : ItemId → FieldId → Prop} {gone' : ItemId → Prop} {E' : Edges}
    (hE : Linked mirror own gone E) (hown : ∀ {x f}, own' x f → own x f ∧ E' x f = E x f)
    (hgone : ∀ {y}, gone y → gone' y)
    (hlost : ∀ {x y f g}, mirror f g → own' x f → E x f = some y → own y g →
      own' y g ∨ gone' y) : Linked mirror own' gone' E' := by
  constructor
  case back =>
    intro x y f g hfg hx hxy
    obtain ⟨hxold, heq⟩ := hown hx
    rw [heq] at hxy
    obtain ⟨hne, hy | ⟨hy, hyx⟩⟩ := hE.back hfg hxold hxy
    · exact ⟨hne, .inl (hgone hy)⟩
    · refine ⟨hne, ?_⟩
      rcases hlost hfg hx hxy hy with hy' | hy'
      · exact .inr ⟨hy', (hown hy').2.trans hyx⟩
      · exact .inl hy'
  case exclusive =>
    intro x z y f g hfg hx hz hxy hzy
    obtain ⟨hx, hxeq⟩ := hown hx
    obtain ⟨hz, hzeq⟩ := hown hz
    rw [hxeq] at hxy
    rw [hzeq] at hzy
    exact hE.exclusive hfg hx hz hxy hzy

/-- **Changing a partner keeps edges linked.** -/
theorem Linked.relink (hm : Mirrored mirror) (hE : Linked mirror own gone E) {x : ItemId}
    {f g : FieldId} {new : Option ItemId} (hfg : mirror f g) (hx : own x f) (hgx : ¬ gone x)
    (hnew : ∀ y, new = some y → y ≠ x ∧ ¬ gone y ∧ own y g) :
    Linked mirror own gone (E.relink x f g new) := by
  unfold Edges.relink
  split
  · exact hE
  · have hpart := hE.part hm hfg (x := x)
    cases new with
    | none => exact hpart
    | some y =>
      obtain ⟨hne, hgy, hy⟩ := hnew y rfl
      refine (hpart.part hm (hm.symm hfg) (x := y)).join hm hfg hx hy hne hgx hgy ?_ ?_
      · cases hxf : ((E.part x f g).part y g f) x f with
        | none => rfl
        | some z => exact ((eq_of_part (eq_of_part hxf).1).2.1 ⟨rfl, rfl⟩).elim
      · exact part_self y g f

end Linked

end ContentStore.Pairing
