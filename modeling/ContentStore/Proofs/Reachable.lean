import ContentStore.Proofs.Contents

/-!
# Reachable stores

A store moves by a call of anybody, by applying a declared catalog, or by
something that leaves the tables alone, such as a read.  Stores that come from an
empty one by such moves are the reachable ones.  They are sane, and so is
everything that follows (`Reachable.sane`, `Reachable.evolves`).

The catalog of a reachable store comes about by single writes of it, whatever
happens to items in between.  So a property of the catalog that holds without
rows and is kept by each of these writes holds in every reachable store
(`Lasting.reachable`).
-/

namespace ContentStore

open Tables

namespace Store

/-- What can happen to a store. -/
inductive Moves (s : Store) : Store → Prop
  | call (ctx : Context) (c : Call) : Moves s (c.after ctx s)
  | declare (d : Declaration) : Moves s (declare d s).2
  | rest {t : Store} (h : s.Rests t) : Moves s t

/-- What can become of a store. -/
abbrev Evolves : Store → Store → Prop := Relation.ReflTransGen Moves

/-- The store has come from an empty one. -/
def Reachable (s : Store) : Prop :=
  ∃ config clock supply emitter, (blank config clock supply emitter).Evolves s

variable {s t : Store} {ctx : Context}

theorem Reachable.evolves (hs : s.Reachable) (h : s.Evolves t) : t.Reachable := by
  obtain ⟨config, clock, supply, emitter, hrun⟩ := hs
  exact ⟨config, clock, supply, emitter, hrun.trans h⟩

theorem reachable_blank (config : Config) (clock : Time.Clock) (supply : Supply)
    (emitter : Emitter) : (blank config clock supply emitter).Reachable :=
  ⟨_, _, _, _, .refl⟩

/-- Calls one after the other make a store evolve. -/
theorem evolves_afterAll (ctx : Context) (cs : List Call) (s : Store) :
    s.Evolves (Call.afterAll ctx cs s) := by
  induction cs generalizing s with
  | nil => exact .refl
  | cons c cs ih => exact .head (.call ctx c) (ih _)

/-- What calls that add to the catalog keep is kept by a run of them. -/
theorem Reachable.extending {P : Store → Prop} (hs : s.Reachable) (h : Run Call.Extending s t)
    (hrests : ∀ {u v : Store}, u.Rests v → P u → P v)
    (hcall : ∀ {u : Store} {ctx : Context} {c : Call}, u.Reachable → c.Extends → P u →
      P (c.after ctx u)) (hP : P s) : P t := by
  have hboth : t.Reachable ∧ P t := by
    induction h with
    | refl => exact ⟨hs, hP⟩
    | tail _ hstep ih =>
      obtain ⟨hu, hPu⟩ := ih
      cases hstep with
      | rest h => exact ⟨hu.evolves (.single (.rest h)), hrests h hPu⟩
      | call hc => exact ⟨hu.evolves (.single (.call _ _)), hcall hu hc hPu⟩
  exact hboth.2

/-! ## Sane stores -/

theorem Reshaped.sane {o : Operator} (h : s.Reshaped o t) (hs : s.Sane) : t.Sane := by
  have hrewires := h.rewires hs.wired
  exact ⟨hrewires.sound hs.sound, hrewires.wired⟩

/-- A sane store stays so with whatever is called. -/
theorem Moves.sane (h : s.Moves t) (hs : s.Sane) : t.Sane := by
  cases h with
  | call ctx c => exact sane_of_outcome (outcome_after hs ctx c) hs
  | declare d => exact (reshaping_declare d s).sane hs
  | rest h => exact h.sane hs

/-- So it does in the long run. -/
theorem Evolves.sane (h : s.Evolves t) (hs : s.Sane) : t.Sane := by
  induction h with
  | refl => exact hs
  | tail _ hmove ih => exact hmove.sane ih

/-- **Every reachable store is sane.** -/
theorem Reachable.sane (hs : s.Reachable) : s.Sane := by
  obtain ⟨config, clock, supply, emitter, h⟩ := hs
  exact Evolves.sane h (sane_blank config clock supply emitter)

end Store

/-- A property of the catalog that holds without rows and is kept by every write
of a wired catalog.  The numbers are the next serial numbers. -/
structure Tables.Lasting (I : Nat → Tables → Prop) : Prop where
  empty : ∀ n, I n .empty
  same : ∀ {n m t u}, n ≤ m → SameCatalog t u → I n t → I m u
  step : ∀ {o n t m u}, Wired n t → I n t → Write.Reshapes o n t m u → I m u

namespace Tables.Lasting

variable {I : Nat → Tables → Prop} {s t : Store}

/-- What lasts lasts through writes of the catalog. -/
theorem reshaped (hI : Lasting I) {o : Operator} (h : s.Reshaped o t) (hs : s.Sane)
    (hIs : I s.supply.next s.tables) : I t.supply.next t.tables := by
  induction h with
  | refl => exact hIs
  | tail hrun hstep ih =>
    rcases hstep with hrests | hstep
    · exact hI.same hrests.2 hrests.sameCatalog ih
    · exact hI.step (Store.Reshaped.sane hrun hs).wired ih hstep

/-- One move keeps the property. -/
theorem moves (hI : Lasting I) (h : s.Moves t) (hs : s.Sane) (hIs : I s.supply.next s.tables) :
    I t.supply.next t.tables := by
  cases h with
  | call ctx c =>
    by_cases hitems : c.OfItems
    · obtain ⟨hcatalog, hle⟩ := Store.sameCatalog_of_outcome (Store.outcome_after hs ctx c) hitems
      exact hI.same hle hcatalog hIs
    · cases Store.outcome_after hs ctx c with
      | rests h => exact hI.same h.2 h.sameCatalog hIs
      | reshapes _ h => exact hI.step hs.wired hIs h
      | declares _ h => exact hI.reshaped h hs hIs
      | creates h => exact (hitems h.1).elim
      | updates h => exact (hitems h.1).elim
      | removes h => exact (hitems h.1).elim
      | publishes h => exact (hitems h.ofItems).elim
  | declare d => exact hI.reshaped (Store.reshaping_declare d s) hs hIs
  | rest h => exact hI.same h.2 h.sameCatalog hIs

/-- **A lasting property holds in every reachable store.** -/
theorem reachable (hI : Lasting I) (hs : s.Reachable) : I s.supply.next s.tables := by
  obtain ⟨config, clock, supply, emitter, h⟩ := hs
  induction h with
  | refl => exact hI.empty _
  | tail hrun hmove ih =>
    exact hI.moves hmove (Store.Evolves.sane hrun (Store.sane_blank config clock supply emitter)) ih

end Tables.Lasting

end ContentStore
