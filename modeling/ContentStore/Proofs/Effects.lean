import ContentStore.Store.Basic
import Mathlib.Data.List.Forall2
import Mathlib.Order.Defs.Unbundled

/-!
# Successful writes

The body of a write is a computation that may fail, on a state that is dropped
when it does.  So what a write does to the store is said by its successful runs
alone: `Gives x s a t` is one of them, and the laws below take it apart along
the steps of the body.  What holds of every run is said of each step and then of
the whole (`Along`): no serial number is ever taken back (`Grows`), and most steps
queue no event (`Quiet`).

`reaches_transact` puts the two together: a write leaves the tables alone, or its
body succeeded on them.
-/

namespace ContentStore

/-- Two steps succeed if the first does, and then the second. -/
theorem bind_eq_ok {ε α β : Type} {x : Except ε α} {f : α → Except ε β} {b : β} :
    (x >>= f) = .ok b ↔ ∃ a, x = .ok a ∧ f a = .ok b := by
  cases x with
  | error e =>
    constructor
    · intro h
      cases h
    · intro hex
      obtain ⟨a, h, -⟩ := hex
      cases h
  | ok a =>
    constructor
    · intro h
      exact ⟨a, rfl, h⟩
    · intro hex
      obtain ⟨a', h, hf⟩ := hex
      cases h
      exact hf

/-- A changed result comes from a result. -/
theorem map_eq_ok {ε α β : Type} {x : Except ε α} {f : α → β} {b : β} :
    x.map f = .ok b ↔ ∃ a, x = .ok a ∧ f a = b := by
  cases x <;> simp [Except.map]

/-- A result may be changed at the end of the last step. -/
theorem map_bind_except {ε α β γ : Type} (x : Except ε α) (f : α → Except ε β) (g : β → γ) :
    (x >>= f).map g = x >>= fun a => (f a).map g :=
  map_bind g x f

/-- After a computation only its result matters. -/
theorem bind_congr_ok {ε α β : Type} {x : Except ε α} {f g : α → Except ε β}
    (h : ∀ a, x = .ok a → f a = g a) : x >>= f = x >>= g := by
  cases x with
  | error e => rfl
  | ok a => exact h a rfl

/-- What is left without the errors was the result. -/
theorem ok_of_mem_toOption {ε α : Type} {x : Except ε α} {a : α} (h : a ∈ x.toOption) :
    x = .ok a := by
  cases x with
  | error e => cases h
  | ok b =>
    cases h
    rfl

/-- A computation that leaves something without its errors has a result. -/
theorem exists_ok {ε α : Type} {x : Except ε α} (h : x.toOption.isSome) : ∃ a, x = .ok a := by
  obtain ⟨a, ha⟩ := Option.isSome_iff_exists.mp h
  exact ⟨a, ok_of_mem_toOption ha⟩

/-- The results of a traversal belong to the elements, one by one. -/
theorem forall₂_of_mapM {ε α β : Type} {f : α → Except ε β} {xs : List α} {ys : List β}
    (h : xs.mapM f = .ok ys) : List.Forall₂ (fun x y => f x = .ok y) xs ys := by
  induction xs generalizing ys with
  | nil =>
    cases h
    exact .nil
  | cons x xs ih =>
    rw [List.mapM_cons] at h
    obtain ⟨y, hy, h⟩ := bind_eq_ok.mp h
    obtain ⟨ys', hys, h⟩ := bind_eq_ok.mp h
    cases h
    exact .cons hy (ih hys)

/-- A traversal succeeds if it does for every element. -/
theorem mapM_of_forall₂ {ε α β : Type} {f : α → Except ε β} {xs : List α} {ys : List β}
    (h : List.Forall₂ (fun x y => f x = .ok y) xs ys) : xs.mapM f = .ok ys := by
  induction h with
  | nil => rfl
  | cons hx _ ih =>
    rw [List.mapM_cons, hx, ih]
    rfl

/-- If elements belong together one by one, each on the right has one on the left. -/
theorem exists_of_forall₂ {α β : Type} {R : α → β → Prop} {xs : List α} {ys : List β}
    (h : List.Forall₂ R xs ys) : ∀ y ∈ ys, ∃ x ∈ xs, R x y := by
  induction h with
  | nil => exact fun _ hy => (List.not_mem_nil hy).elim
  | @cons x y _ _ hx _ ih =>
    intro z hz
    rcases List.mem_cons.mp hz with rfl | hz
    · exact ⟨x, List.mem_cons_self, hx⟩
    · obtain ⟨x', hx', hz⟩ := ih z hz
      exact ⟨x', List.mem_cons_of_mem _ hx', hz⟩

/-- Every result of a traversal comes from an element. -/
theorem mem_of_mapM {ε α β : Type} {f : α → Except ε β} {xs : List α} {ys : List β}
    (h : xs.mapM f = .ok ys) : ∀ y ∈ ys, ∃ x ∈ xs, f x = .ok y :=
  exists_of_forall₂ (forall₂_of_mapM h)

/-- A check of all elements is one of each. -/
theorem ok_of_forM {α : Type} {f : α → Except Error Unit} {xs : List α} (h : xs.forM f = .ok ()) :
    ∀ x ∈ xs, f x = .ok () := by
  induction xs with
  | nil => exact fun _ hx => (List.not_mem_nil hx).elim
  | cons y ys ih =>
    change (f y >>= fun _ => ys.forM f) = _ at h
    cases hy : f y with
    | error e =>
      rw [hy] at h
      cases h
    | ok a =>
      rw [hy] at h
      intro x hx
      rcases List.mem_cons.mp hx with rfl | hx
      · exact hy
      · exact ih h x hx

section Gives

variable {σ α β : Type}

/-- Run from `s`, the computation succeeds with `a` and leaves `t`. -/
def Gives (x : ExceptT Error (StateM σ) α) (s : σ) (a : α) (t : σ) : Prop := x s = (.ok a, t)

/-- A computation that does something first, by how that went. -/
theorem run_bind (x : ExceptT Error (StateM σ) α) (f : α → ExceptT Error (StateM σ) β) (s : σ) :
    (x >>= f) s = match x s with
      | (.ok a, t) => f a t
      | (.error e, t) => (.error e, t) := by
  show (ExceptT.bindCont f (x s).1 : StateM σ (Except Error β)) (x s).2 = _
  rcases x s with ⟨_ | a, t⟩ <;> rfl

/-- **Two steps succeed in turn**: the second goes on from where the first has come to. -/
theorem gives_bind {x : ExceptT Error (StateM σ) α} {f : α → ExceptT Error (StateM σ) β}
    {s t : σ} {b : β} :
    Gives (x >>= f) s b t ↔ ∃ a u, Gives x s a u ∧ Gives (f a) u b t := by
  unfold Gives
  rw [run_bind]
  rcases x s with ⟨e | a, u⟩
  · constructor
    · intro h
      cases h
    · intro hex
      obtain ⟨a, u', hx, hf⟩ := hex
      cases hx
  · constructor
    · intro h
      exact ⟨a, u, rfl, h⟩
    · intro hex
      obtain ⟨a', u', hx, hf⟩ := hex
      cases hx
      exact hf

/-- A result leaves the state as it is. -/
@[simp] theorem gives_pure {a b : α} {s t : σ} :
    Gives (pure a : ExceptT Error (StateM σ) α) s b t ↔ a = b ∧ s = t := by
  constructor
  · intro h
    cases h
    exact ⟨rfl, rfl⟩
  · intro hboth
    obtain ⟨rfl, rfl⟩ := hboth
    rfl

/-- An error is no success. -/
@[simp] theorem gives_throw {e : Error} {a : α} {s t : σ} :
    ¬ Gives (throw e : ExceptT Error (StateM σ) α) s a t := by
  intro h
  cases h

/-- A computation without a state leaves the state as it is. -/
@[simp] theorem gives_lift {x : Except Error α} {a : α} {s t : σ} :
    Gives (liftM x : ExceptT Error (StateM σ) α) s a t ↔ x = .ok a ∧ s = t := by
  cases x with
  | error e =>
    constructor
    · intro h
      cases h
    · intro hboth
      obtain ⟨h, rfl⟩ := hboth
      cases h
  | ok b =>
    constructor
    · intro h
      cases h
      exact ⟨rfl, rfl⟩
    · intro hboth
      obtain ⟨h, rfl⟩ := hboth
      cases h
      rfl

/-- An empty loop does nothing. -/
theorem gives_forM_nil {f : α → ExceptT Error (StateM σ) PUnit} {a : PUnit} {s t : σ} :
    Gives (([] : List α).forM f) s a t ↔ t = s := by
  show Gives (pure ⟨⟩) s a t ↔ t = s
  rw [gives_pure]
  exact ⟨fun h => h.2.symm, fun h => ⟨rfl, h.symm⟩⟩

/-- A loop does its first round and then the others. -/
theorem gives_forM_cons {f : α → ExceptT Error (StateM σ) PUnit} {x : α} {xs : List α} {a : PUnit}
    {s t : σ} :
    Gives ((x :: xs).forM f) s a t ↔ ∃ u, Gives (f x) s ⟨⟩ u ∧ Gives (xs.forM f) u a t := by
  show Gives (f x >>= fun _ => xs.forM f) s a t ↔ _
  rw [gives_bind]
  exact ⟨fun ⟨_, u, h⟩ => ⟨u, h⟩, fun ⟨u, h⟩ => ⟨⟨⟩, u, h⟩⟩

/-- A traversal of nothing has no results. -/
theorem gives_mapM_nil {f : α → ExceptT Error (StateM σ) β} {bs : List β} {s t : σ} :
    Gives (([] : List α).mapM f) s bs t ↔ bs = [] ∧ t = s := by
  rw [List.mapM_nil, gives_pure]
  exact ⟨fun ⟨hb, ht⟩ => ⟨hb.symm, ht.symm⟩, fun ⟨hb, ht⟩ => ⟨hb.symm, ht.symm⟩⟩

/-- The first result of a traversal is that of the first element, and the others go on from
there. -/
theorem gives_mapM_cons {f : α → ExceptT Error (StateM σ) β} {x : α} {xs : List α} {bs : List β}
    {s t : σ} :
    Gives ((x :: xs).mapM f) s bs t ↔
      ∃ b u cs, Gives (f x) s b u ∧ Gives (xs.mapM f) u cs t ∧ bs = b :: cs := by
  rw [List.mapM_cons]
  simp only [gives_bind, gives_pure]
  constructor
  · intro hex
    obtain ⟨b, u, hb, cs, u', hcs, rfl, rfl⟩ := hex
    exact ⟨b, u, cs, hb, hcs, rfl⟩
  · intro hex
    obtain ⟨b, u, cs, hb, hcs, rfl⟩ := hex
    exact ⟨b, u, hb, cs, t, hcs, rfl, rfl⟩

/-- Every result of a traversal is that of an element, in the state that it came to. -/
theorem exists_of_gives_mapM {f : α → ExceptT Error (StateM σ) β} {xs : List α} {bs : List β}
    {s t : σ} (h : Gives (xs.mapM f) s bs t) : ∀ b ∈ bs, ∃ x ∈ xs, ∃ u v, Gives (f x) u b v := by
  induction xs generalizing s bs with
  | nil =>
    obtain ⟨rfl, -⟩ := gives_mapM_nil.mp h
    exact fun _ hb => (List.not_mem_nil hb).elim
  | cons x xs ih =>
    obtain ⟨c, u, cs, hfirst, hrest, rfl⟩ := gives_mapM_cons.mp h
    intro b hb
    rcases List.mem_cons.mp hb with rfl | hb
    · exact ⟨x, List.mem_cons_self, s, u, hfirst⟩
    · obtain ⟨y, hy, hgives⟩ := ih hrest b hb
      exact ⟨y, List.mem_cons_of_mem _ hy, hgives⟩

/-- Run from `s`, the computation fails with `e`, wherever it leaves off. -/
def Fails (x : ExceptT Error (StateM σ) α) (s : σ) (e : Error) : Prop := ∃ t, x s = (.error e, t)

/-- After a step that succeeds, the rest fails. -/
theorem fails_bind {x : ExceptT Error (StateM σ) α} {f : α → ExceptT Error (StateM σ) β} {s t : σ}
    {a : α} {e : Error} (h : Gives x s a t) (hf : Fails (f a) t e) : Fails (x >>= f) s e := by
  obtain ⟨u, hu⟩ := hf
  exact ⟨u, by rw [run_bind, h]; exact hu⟩

/-- A step that fails ends the computation. -/
theorem fails_first {x : ExceptT Error (StateM σ) α} {s : σ} {e : Error} (h : Fails x s e)
    (f : α → ExceptT Error (StateM σ) β) : Fails (x >>= f) s e := by
  obtain ⟨u, hu⟩ := h
  exact ⟨u, by rw [run_bind, hu]⟩

end Gives

/-! ## What no body undoes -/

section Along

variable {α β : Type} {R : Work → Work → Prop}

/-- Whether it succeeds or not, the body leads from a state to one that stands in
the relation to it. -/
def Along (R : Work → Work → Prop) (x : Write α) : Prop := ∀ w : Work, R w (x w).2

variable [IsPreorder Work R]

/-- **Two steps stay in the relation** if each does, for it is transitive. -/
theorem along_bind {x : Write α} {f : α → Write β} (hx : Along R x) (hf : ∀ a, Along R (f a)) :
    Along R (x >>= f) := by
  intro w
  have h := hx w
  rw [run_bind]
  rcases hr : x w with ⟨e | a, u⟩
  · simpa [hr] using h
  · have hu : R w u := by simpa [hr] using h
    exact trans_of R hu (hf a u)

/-- Doing nothing stays in it. -/
theorem along_pure (a : α) : Along R (pure a) := fun w => refl_of R w

/-- So does failing. -/
theorem along_throw (e : Error) : Along R (throw e : Write α) := fun w => refl_of R w

/-- What would come after a failure does not matter. -/
theorem along_throw_bind (e : Error) (f : α → Write β) : Along R (throw e >>= f) :=
  fun w => refl_of R w

/-- So does a computation without a state. -/
theorem along_lift (x : Except Error α) : Along R (liftM x : Write α) := by
  intro w
  cases x <;> exact refl_of R w

/-- So does looking at the tables. -/
theorem along_tables : Along R Write.tables := fun w => refl_of R w

/-- A loop stays in the relation if its rounds do. -/
theorem along_forM {f : α → Write PUnit} (hf : ∀ a, Along R (f a)) (xs : List α) :
    Along R (xs.forM f) := by
  induction xs with
  | nil => exact along_pure _
  | cons x xs ih => exact along_bind (hf x) fun _ => ih

/-- A traversal stays in the relation if its steps do. -/
theorem along_mapM {f : α → Write β} (hf : ∀ a, Along R (f a)) (xs : List α) :
    Along R (xs.mapM f) := by
  induction xs with
  | nil =>
    rw [List.mapM_nil]
    exact along_pure _
  | cons x xs ih =>
    rw [List.mapM_cons]
    exact along_bind (hf x) fun _ => along_bind ih fun _ => along_pure _

end Along

section Grows

variable {α : Type}

/-- No serial number has been taken back, and the transaction is as it was: open, with
the tables on which it was begun. -/
def Later (w w' : Work) : Prop := w.supply.next ≤ w'.supply.next ∧ w'.saved = w.saved

/-- Nor has any event been queued. -/
def Silently (w w' : Work) : Prop := Later w w' ∧ w'.events = w.events

instance : IsPreorder Work Later where
  refl _ := ⟨Nat.le_refl _, rfl⟩
  trans _ _ _ h h' := ⟨Nat.le_trans h.1 h'.1, h'.2.trans h.2⟩

instance : IsPreorder Work Silently where
  refl w := ⟨refl_of Later w, rfl⟩
  trans _ _ _ h h' := ⟨trans_of Later h.1 h'.1, h'.2.trans h.2⟩

/-- Whether it succeeds or not, the body takes no serial number back and leaves the
transaction open. -/
abbrev Grows (x : Write α) : Prop := Along Later x

/-- Nor does it queue an event. -/
abbrev Quiet (x : Write α) : Prop := Along Silently x

theorem Quiet.grows {x : Write α} (h : Quiet x) : Grows x := fun w => (h w).1

/-- The clock takes no numbers and tells nobody. -/
theorem quiet_now : Quiet Write.now := fun _ => ⟨⟨Nat.le_refl _, rfl⟩, rfl⟩

/-- A fresh number is one more than the last. -/
theorem quiet_fresh : Quiet Write.fresh := fun w => ⟨⟨Nat.le_succ w.supply.next, rfl⟩, rfl⟩

theorem quiet_freshId {k : IdKind} : Quiet (Write.freshId : Write (Id k)) :=
  along_bind quiet_fresh fun _ => along_pure _

/-- Tables are changed in the open transaction. -/
theorem quiet_change (f : Tables → Tables) : Quiet (Write.change f) :=
  fun _ => ⟨⟨Nat.le_refl _, rfl⟩, rfl⟩

/-- An event changes no numbers. -/
theorem grows_queue (e : Event) : Grows (Write.queue e) := fun _ => ⟨Nat.le_refl _, rfl⟩

end Grows

/-! ## The steps of bodies -/

namespace Write

/-- Reading the clock changes neither tables nor supply. -/
theorem gives_now {w w' : Work} {i : Time.Instant} (h : Gives now w i w') :
    w'.tables = w.tables ∧ w'.supply = w.supply := by
  cases h
  exact ⟨rfl, rfl⟩

/-- A fresh number is the next of the supply, which then goes on behind it. -/
theorem gives_fresh {w w' : Work} {n : Nat} (h : Gives fresh w n w') :
    n = w.supply.next ∧ w'.tables = w.tables ∧ w'.supply = ⟨w.supply.next + 1⟩ := by
  cases h
  exact ⟨rfl, rfl, rfl⟩

/-- A fresh id is made from such a number. -/
theorem gives_freshId {k : IdKind} {w w' : Work} {id : Id k} (h : Gives freshId w id w') :
    id = .ofSerial w.supply.next ∧ w'.tables = w.tables ∧
      w'.supply = ⟨w.supply.next + 1⟩ := by
  cases h
  exact ⟨rfl, rfl, rfl⟩

/-- The tables are looked at and stay as they are. -/
@[simp] theorem gives_tables {w w' : Work} {t : Tables} :
    Gives tables w t w' ↔ t = w.tables ∧ w = w' := by
  constructor
  · intro h
    cases h
    exact ⟨rfl, rfl⟩
  · intro hboth
    obtain ⟨rfl, rfl⟩ := hboth
    rfl

/-- The tables are changed as they should be, and nothing else is. -/
@[simp] theorem gives_change {f : Tables → Tables} {w w' : Work} {a : Unit} :
    Gives (change f) w a w' ↔ w' = { w with tables := f w.tables } := by
  constructor
  · intro h
    cases h
    rfl
  · intro heq
    subst heq
    rfl

/-- Queueing an event changes neither tables nor supply. -/
theorem gives_queue {e : Event} {w w' : Work} {a : Unit} (h : Gives (queue e) w a w') :
    w'.tables = w.tables ∧ w'.supply = w.supply := by
  cases h
  exact ⟨rfl, rfl⟩

end Write

/-! ## Transactions -/

namespace Store

/-- The tables are left as they are; serial numbers may have been given out. -/
def Rests (s t : Store) : Prop := t.tables = s.tables ∧ s.supply.next ≤ t.supply.next

theorem Rests.refl (s : Store) : s.Rests s := ⟨rfl, Nat.le_refl _⟩

/-- The body succeeds on the tables and the supply of `s` with `a`, and leaves
those of `t`. -/
def Commits {α : Type} (body : Write α) (s : Store) (a : α) (t : Store) : Prop :=
  ∃ w w' : Work, w.tables = s.tables ∧ w.supply = s.supply ∧ Gives body w a w' ∧
    t.tables = w'.tables ∧ t.supply = w'.supply

/-- What is said of the tables and the supply around a body holds of those around
its commit. -/
theorem Commits.elim {α : Type} {body : Write α} {a : α} {s t : Store}
    {R : Nat → Tables → Nat → Tables → Prop} (h : Commits body s a t)
    (hR : ∀ {w w'}, Gives body w a w' → R w.supply.next w.tables w'.supply.next w'.tables) :
    R s.supply.next s.tables t.supply.next t.tables := by
  obtain ⟨w, w', htables, hsupply, hgives, htables', hsupply'⟩ := h
  rw [← htables, ← hsupply, htables', hsupply']
  exact hR hgives

/-- What the body of a write begins with: the tables of the store, in a transaction
begun on them. -/
def opened (s : Store) : Work := s.work ⟨s.tables, some s.tables⟩

/-- The store once a write is committed, after the second look whether it is given up. -/
def committed (s : Store) (w : Work) : Store := (s.keep (.idle w.tables) w).polled

section Transact

variable {α : Type} {ctx : Context} {body : Write α} {s : Store} {a : α} {e : Error}

/-- The store to which a write that failed is rolled back, if its body has left the
transaction open. -/
theorem abandon_eq {w : Work} (h : w.saved = some s.tables) : s.abandon w = s.spend w := by
  rw [abandon, Session.giveUp_of_open h]
  rfl

/-- **A write is a transaction**: it is begun, and after the body it is committed, or
else rolled back.  This ends it well if the body has left it open. -/
theorem transact_eq (hg : Grows body) (ctx : Context) (s : Store) :
    transact ctx body s = (match ctx.ensureActive s.progress with
      | .error e => (.error e, s.polled)
      | .ok () => match body s.polled.opened with
        | (.error e, w) => (.error e, s.spend w)
        | (.ok a, w) => match ctx.ensureActive w.progress with
          | .error e => (.error e, (s.spend w).polled)
          | .ok () => (.ok a, s.committed w) : Except Error α × Store) := by
  have hopen : (body s.polled.opened).2.saved = some s.tables := (hg s.polled.opened).2
  unfold transact
  rw [Session.begin_idle]
  cases ctx.ensureActive s.progress with
  | error e => rfl
  | ok _ =>
    dsimp only
    rw [show s.polled.work ⟨s.tables, some s.tables⟩ = s.polled.opened from rfl]
    rcases hbody : body s.polled.opened with ⟨e | a, w⟩
    · rw [hbody] at hopen
      simp only [abandon_eq hopen]
    · rw [hbody] at hopen
      simp only [abandon_eq hopen, Session.commit_of_open hopen]
      cases ctx.ensureActive w.progress <;> rfl

/-- A write that succeeds keeps what its body did. -/
theorem transact_eq_ok (hg : Grows body) (h : (transact ctx body s).1 = .ok a) :
    ctx.ensureActive s.progress = .ok () ∧ ∃ w, Gives body s.polled.opened a w ∧
      (transact ctx body s).2 = s.committed w := by
  rw [transact_eq hg] at h ⊢
  cases hactive : ctx.ensureActive s.progress with
  | error e =>
    rw [hactive] at h
    cases h
  | ok _ =>
    rw [hactive] at h
    refine ⟨rfl, ?_⟩
    rcases hbody : body s.polled.opened with ⟨e | b, w⟩
    · rw [hbody] at h
      cases h
    · rw [hbody] at h
      dsimp only at h ⊢
      split at h
      · cases h
      · cases h
        exact ⟨w, hbody, rfl⟩

/-- A write that fails is rolled back: tables, emitter and settings are as before. -/
theorem transact_error {t : Store} (hg : Grows body) (h : transact ctx body s = (.error e, t)) :
    t.tables = s.tables ∧ t.emitter = s.emitter ∧ t.config = s.config := by
  rw [transact_eq hg] at h
  split at h
  · cases h
    exact ⟨rfl, rfl, rfl⟩
  · split at h
    · cases h
      exact ⟨rfl, rfl, rfl⟩
    · split at h
      · cases h
        exact ⟨rfl, rfl, rfl⟩
      · cases h

/-- A write whose body fails does so, too. -/
theorem transact_of_fails (hactive : ctx.ensureActive s.progress = .ok ())
    (h : Fails body s.polled.opened e) : ∃ t, transact ctx body s = (.error e, t) := by
  obtain ⟨w, hw⟩ := h
  unfold transact
  rw [hactive, Session.begin_idle]
  dsimp only
  rw [show s.polled.work ⟨s.tables, some s.tables⟩ = s.polled.opened from rfl, hw]
  exact ⟨_, rfl⟩

end Transact

/-! ## Calls -/

section Reaches

variable {α β : Type} {s : Store} {Q Q' : α → Store → Prop}

/-- Called on `s` the operation succeeds as `Q` says, or it fails and leaves the
tables alone. -/
def Reaches (op : Operation α) (s : Store) (Q : α → Store → Prop) : Prop :=
  (∃ a, (op s).1 = .ok a ∧ Q a (op s).2) ∨ (∃ e, (op s).1 = .error e) ∧ s.Rests (op s).2

/-- What follows from what a call does holds when the call succeeds. -/
theorem Reaches.mono {op : Operation α} (h : Reaches op s Q) (hQ : ∀ a t, Q a t → Q' a t) :
    Reaches op s Q' := by
  rcases h with ⟨a, ha, h⟩ | h
  · exact .inl ⟨a, ha, hQ a _ h⟩
  · exact .inr h

/-- What holds after the operation, whether it succeeds or fails. -/
theorem Reaches.after {op : Operation α} {P : Store → Prop} (h : Reaches op s Q)
    (hrests : ∀ t, s.Rests t → P t) (hQ : ∀ a t, Q a t → P t) : P (op s).2 := by
  rcases h with ⟨a, -, h⟩ | ⟨-, h⟩
  · exact hQ a _ h
  · exact hrests _ h

/-- What a call has done that succeeded. -/
theorem Reaches.of_ok {op : Operation α} {a : α} (h : Reaches op s Q) (ha : (op s).1 = .ok a) :
    Q a (op s).2 := by
  rcases h with ⟨b, hb, h⟩ | ⟨⟨e, he⟩, -⟩
  · obtain rfl := Except.ok.inj (ha.symm.trans hb)
    exact h
  · cases ha.symm.trans he

/-- A call that failed has changed no tables. -/
theorem Reaches.of_error {op : Operation α} {e : Error} (h : Reaches op s Q)
    (he : (op s).1 = .error e) : s.Rests (op s).2 := by
  rcases h with ⟨b, hb, -⟩ | ⟨-, h⟩
  · cases he.symm.trans hb
  · exact h

/-- A call that fails at once leaves the store as it was. -/
theorem reaches_throw_bind (e : Error) (f : β → Operation α) : Reaches (throw e >>= f) s Q :=
  .inr ⟨⟨e, rfl⟩, Rests.refl s⟩

/-- An operation begins by looking at the store. -/
theorem reaches_get_bind {f : Store → Operation α} (h : Reaches (f s) s Q) :
    Reaches (get >>= f) s Q := h

/-- A check that fails leaves the store alone. -/
theorem reaches_lift_bind {x : Except Error β} {f : β → Operation α}
    (h : ∀ b, x = .ok b → Reaches (f b) s Q) : Reaches (liftM x >>= f) s Q := by
  cases x with
  | error e => exact .inr ⟨⟨e, rfl⟩, Rests.refl s⟩
  | ok b => exact h b rfl

/-- One more look whether the call is given up changes nothing else. -/
theorem reaches_polled_bind {f : PUnit → Operation α} (h : Reaches (f ⟨⟩) s.polled Q) :
    Reaches (modify polled >>= f) s Q := h

/-- **A write keeps all of its changes or none.** -/
theorem reaches_transact {ctx : Context} {body : Write α} (hg : Grows body) (s : Store) :
    Reaches (transact ctx body) s (Commits body s) := by
  obtain ⟨hw, -⟩ := hg s.polled.opened
  unfold Reaches
  rw [transact_eq hg]
  split
  · exact .inr ⟨⟨_, rfl⟩, Rests.refl s⟩
  · rcases hb : body s.polled.opened with ⟨e | a, w⟩
    · rw [hb] at hw
      exact .inr ⟨⟨e, rfl⟩, rfl, hw⟩
    · rw [hb] at hw
      dsimp only
      split
      · exact .inr ⟨⟨_, rfl⟩, rfl, hw⟩
      · exact .inl ⟨a, rfl, s.polled.opened, w, rfl, rfl, hb, rfl, rfl⟩

end Reaches

end Store

end ContentStore
