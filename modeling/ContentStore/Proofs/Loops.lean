/-!
# Loops that end

Definitions that repeat a body until it is done take fuel.  What the body does
without any fuel is said by a relation (`Ends`): it holds only if the body is done
after finitely many rounds.  If the fuel is not used up before, the definition gives
what the loop ends with (`ends_of_fuel`).
-/

namespace ContentStore

variable {σ ρ : Type} {body : σ → ρ ⊕ σ}

/-- From the state on, the body is done after finitely many rounds, with the result. -/
inductive Ends (body : σ → ρ ⊕ σ) : σ → ρ → Prop
  | done {s : σ} {r : ρ} (h : body s = .inl r) : Ends body s r
  | again {s s' : σ} {r : ρ} (h : body s = .inr s') (hrest : Ends body s' r) : Ends body s r

/-- **Enough fuel** is not used up.  A definition that goes through the body with each
fuel ends with what the loop ends with, if the body is done in any case where no fuel is
left, and a further round leaves enough of it. -/
theorem ends_of_fuel (run : Nat → σ → ρ) (Enough : Nat → σ → Prop)
    (hrun : ∀ fuel s, run (fuel + 1) s = (body s).elim id (run fuel))
    (hzero : ∀ s, Enough 0 s → body s = .inl (run 0 s))
    (hround : ∀ fuel s s', Enough (fuel + 1) s → body s = .inr s' → Enough fuel s')
    {fuel : Nat} {s : σ} (h : Enough fuel s) : Ends body s (run fuel s) := by
  induction fuel generalizing s with
  | zero => exact .done (hzero s h)
  | succ fuel ih =>
    rw [hrun]
    cases hbody : body s with
    | inl r => exact .done hbody
    | inr s' => exact .again hbody (ih (hround fuel s s' h hbody))

/-- What rounds preserve still holds when the body is done. -/
theorem Ends.last {s : σ} {r : ρ} (h : Ends body s r) {I : σ → Prop}
    (hround : ∀ s s', I s → body s = .inr s' → I s') (hs : I s) :
    ∃ s', I s' ∧ body s' = .inl r := by
  induction h with
  | done h => exact ⟨_, hs, h⟩
  | again h _ ih => exact ih (hround _ _ hs h)

end ContentStore
