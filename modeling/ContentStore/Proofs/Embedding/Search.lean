import ContentStore.Embedding.Cycles

/-!
# The search for embedded groups

The search (`follow`) keeps a stack of groups yet to be looked at and a list of
groups that are loaded.  Whatever a loaded group embeds is loaded or on the
stack (`Groups.Settled`).  Every group is loaded once, so the embeddings of the
groups that are not loaded yet bound the steps to come (`Groups.pending`): the
search never runs out of fuel, and what it returns is closed under embedding
(`settled_of_ensureAcyclic`).
-/

namespace ContentStore.Embedding

namespace Groups

/-- The groups load, none of their schemas is `host`, and all that they embed is
among them or among the rest. -/
def Settled (g : Groups) (host : SchemaId) (loaded rest : List GroupId) : Prop :=
  ∀ x ∈ loaded, ∃ s, g.load x = .ok s ∧ s.id ≠ host ∧ ∀ y ∈ s.embedded, y ∈ loaded ∨ y ∈ rest

/-- Number of embeddings that loading a group reveals. -/
def reveals : Except Error Schema → Nat
  | .ok s => s.embedded.length
  | .error _ => 0

/-- Number of embeddings in the groups that are not loaded yet. -/
def pending : List (GroupId × Except Error Schema) → List GroupId → Nat
  | [], _ => 0
  | e :: es, loaded => (if e.1 ∈ loaded then 0 else reveals e.2) + pending es loaded

theorem steps_eq (g : Groups) : g.steps = pending g.known [] + 1 := by
  unfold steps
  induction g.known with
  | nil => rfl
  | cons e es ih =>
    rw [List.map_cons, List.foldr_cons, Nat.add_assoc, ih, pending, if_neg List.not_mem_nil]
    exact (Nat.add_assoc ..).symm

/-- The more is loaded, the less is pending. -/
theorem pending_cons_le (known : List (GroupId × Except Error Schema)) (loaded : List GroupId)
    (id : GroupId) : pending known (id :: loaded) ≤ pending known loaded := by
  induction known with
  | nil => exact Nat.le_refl _
  | cons e es ih =>
    unfold pending
    by_cases hloaded : e.1 ∈ loaded
    · rw [if_pos (List.mem_cons_of_mem _ hloaded), if_pos hloaded]
      omega
    · rw [if_neg hloaded]
      split <;> omega

/-- Loading a group moves its embeddings from the pending ones to the stack. -/
theorem pending_cons {known : List (GroupId × Except Error Schema)} {loaded : List GroupId}
    {id : GroupId} {s : Schema} (hid : id ∉ loaded) (hs : known.lookup id = some (.ok s)) :
    pending known (id :: loaded) + s.embedded.length ≤ pending known loaded := by
  induction known with
  | nil => cases hs
  | cons e es ih =>
    obtain ⟨k, x⟩ := e
    rw [List.lookup_cons] at hs
    unfold pending
    by_cases hk : id = k
    · subst hk
      simp only [beq_self_eq_true, Option.some.injEq] at hs
      subst hs
      have hrest := pending_cons_le es loaded id
      rw [if_pos List.mem_cons_self, if_neg hid]
      simp only [reveals]
      omega
    · have hne : (id == k) = false := by simpa using hk
      rw [hne] at hs
      have hrest := ih hs
      have hkid : k ≠ id := fun h => hk h.symm
      by_cases hloaded : k ∈ loaded
      · rw [if_pos (List.mem_cons_of_mem _ hloaded), if_pos hloaded]
        omega
      · have hnew : k ∉ id :: loaded := by
          rw [List.mem_cons, not_or]
          exact ⟨hkid, hloaded⟩
        rw [if_neg hnew, if_neg hloaded]
        omega

end Groups

variable {g : Groups} {host : SchemaId} {start : GroupId}

/-- What has been loaded was known. -/
theorem Groups.lookup_of_load {id : GroupId} {s : Schema} (h : g.load id = .ok s) :
    g.known.lookup id = some (.ok s) := by
  unfold load at h
  cases hl : g.known.lookup id with
  | none =>
    rw [hl] at h
    cases h
  | some x =>
    rw [hl, Option.getD_some] at h
    rw [h]

namespace Groups.Settled

variable {loaded stack : List GroupId} {id : GroupId}

/-- A group that is loaded already need not stay on the stack. -/
theorem skip (h : g.Settled host loaded (id :: stack)) (hmem : id ∈ loaded) :
    g.Settled host loaded stack := by
  intro x hx
  obtain ⟨s, hs, hne, hall⟩ := h x hx
  refine ⟨s, hs, hne, fun y hy => ?_⟩
  rcases hall y hy with hy | hy
  · exact .inl hy
  · rcases List.mem_cons.mp hy with rfl | hy
    · exact .inl hmem
    · exact .inr hy

/-- A group is loaded, and those that it embeds take its place on the stack. -/
theorem load {s : Schema} (h : g.Settled host loaded (id :: stack)) (hs : g.load id = .ok s)
    (hne : s.id ≠ host) : g.Settled host (id :: loaded) (s.embedded.reverse ++ stack) := by
  intro x hx
  rcases List.mem_cons.mp hx with rfl | hx
  · refine ⟨s, hs, hne, fun y hy => .inr ?_⟩
    exact List.mem_append_left _ (List.mem_reverse.mpr hy)
  · obtain ⟨r, hr, hrne, hall⟩ := h x hx
    refine ⟨r, hr, hrne, fun y hy => ?_⟩
    rcases hall y hy with hy | hy
    · exact .inl (List.mem_cons_of_mem _ hy)
    · rcases List.mem_cons.mp hy with rfl | hy
      · exact .inl List.mem_cons_self
      · exact .inr (List.mem_append_right _ hy)

end Groups.Settled

/-- **The search settles** all groups on the stack, if it has fuel for all that is
pending. -/
theorem settled_of_follow {fuel : Nat} {stack loaded out : List GroupId}
    (hfuel : stack.length + Groups.pending g.known loaded ≤ fuel)
    (hsettled : g.Settled host loaded stack)
    (h : follow g host start fuel stack loaded = .ok out) :
    g.Settled host out [] ∧ (∀ x ∈ loaded, x ∈ out) ∧ ∀ x ∈ stack, x ∈ out := by
  induction fuel generalizing stack loaded with
  | zero =>
    have hnil : stack = [] := List.eq_nil_of_length_eq_zero (by omega)
    subst hnil
    cases h
    exact ⟨hsettled, fun _ hx => hx, fun _ hx => (List.not_mem_nil hx).elim⟩
  | succ fuel ih =>
    cases stack with
    | nil =>
      cases h
      exact ⟨hsettled, fun _ hx => hx, fun _ hx => (List.not_mem_nil hx).elim⟩
    | cons id stack =>
      rw [List.length_cons] at hfuel
      rw [follow] at h
      split at h
      · -- the group on top is loaded already
        rename_i hmem
        have hmem : id ∈ loaded := List.contains_iff_mem.mp hmem
        obtain ⟨hout, hloaded, hstack⟩ := ih (by omega) (hsettled.skip hmem) h
        refine ⟨hout, hloaded, fun x hx => ?_⟩
        rcases List.mem_cons.mp hx with rfl | hx
        · exact hloaded _ hmem
        · exact hstack x hx
      · rename_i hnew
        have hnew : id ∉ loaded := fun hmem => hnew (List.contains_iff_mem.mpr hmem)
        cases hload : g.load id with
        | error e =>
          rw [hload] at h
          cases h
        | ok s =>
          rw [hload] at h
          dsimp only at h
          split at h
          · cases h
          · rename_i hne
            have hpending := Groups.pending_cons hnew (Groups.lookup_of_load hload)
            have hlength : (s.embedded.reverse ++ stack).length =
                s.embedded.length + stack.length := by
              rw [List.length_append, List.length_reverse]
            obtain ⟨hout, hloaded, hstack⟩ := ih (by omega) (hsettled.load hload hne) h
            refine ⟨hout, fun x hx => hloaded x (List.mem_cons_of_mem _ hx), fun x hx => ?_⟩
            rcases List.mem_cons.mp hx with rfl | hx
            · exact hloaded _ List.mem_cons_self
            · exact hstack x (List.mem_append_right _ hx)

/-- **What passes the check** lies in a list of groups that embed each other only,
and none of whose schemas is the host. -/
theorem settled_of_ensureAcyclic {out : List GroupId}
    (h : ensureAcyclic g host start = .ok out) : g.Settled host out [] ∧ start ∈ out := by
  have hfuel : [start].length + Groups.pending g.known [] ≤ g.steps := by
    rw [g.steps_eq, List.length_singleton]
    omega
  obtain ⟨hout, -, hstack⟩ :=
    settled_of_follow hfuel (fun _ hx => (List.not_mem_nil hx).elim) h
  exact ⟨hout, hstack start List.mem_cons_self⟩

end ContentStore.Embedding
