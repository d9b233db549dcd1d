import ContentStore.Proofs.Embedding.Search
import Mathlib.Data.List.Nodup
import Mathlib.Logic.Relation

/-!
# The search decides what is within reach

The check for cycles is a search with a stack, over groups that may embed each
other in any way, and some of which may not load.  What the search does, step by
step and with every call of the loader, is said without any fuel (`Searches`); a
search with enough fuel is one of these (`searches_follow`).  Groups that are
loaded were reached, each is loaded once, and if the search comes to an error,
then at the group called last.  If it comes to none, then nothing within reach
is left out, since what was loaded is closed under embedding.
-/

namespace ContentStore.Embedding

open Relation

/-- A group loads, with a schema that embeds the other group. -/
def Groups.Embeds (g : Groups) (a b : GroupId) : Prop := ∃ s, g.load a = .ok s ∧ b ∈ s.embedded

/-- A group embeds another one at some depth, or is the same. -/
def Groups.Reaches (g : Groups) : GroupId → GroupId → Prop := ReflTransGen g.Embeds

/-- The search for `host` from a stack, after the listed groups were loaded: the groups
it calls the loader for, first one first, and what it comes to. -/
inductive Searches (g : Groups) (host : SchemaId) (start : GroupId) :
    List GroupId → List GroupId → List GroupId → Except Error (List GroupId) → Prop
  | done {loaded : List GroupId} : Searches g host start [] loaded [] (.ok loaded)
  | skip {id : GroupId} {stack loaded calls : List GroupId} {r : Except Error (List GroupId)}
      (hold : id ∈ loaded) (hrest : Searches g host start stack loaded calls r) :
      Searches g host start (id :: stack) loaded calls r
  | fail {id : GroupId} {stack loaded : List GroupId} {e : Error} (hnew : id ∉ loaded)
      (hload : g.load id = .error e) :
      Searches g host start (id :: stack) loaded [id] (.error e)
  | meet {id : GroupId} {stack loaded : List GroupId} {s : Schema} (hnew : id ∉ loaded)
      (hload : g.load id = .ok s) (hhost : s.id = host) :
      Searches g host start (id :: stack) loaded [id] (.error (.schema (.groupCycle start)))
  | load {id : GroupId} {stack loaded calls : List GroupId} {s : Schema}
      {r : Except Error (List GroupId)} (hnew : id ∉ loaded) (hload : g.load id = .ok s)
      (hne : s.id ≠ host)
      (hrest : Searches g host start (s.embedded.reverse ++ stack) (id :: loaded) calls r) :
      Searches g host start (id :: stack) loaded (id :: calls) r

variable {g : Groups} {host : SchemaId} {start : GroupId}

/-- **The search ends** before its fuel does. -/
theorem searches_follow (host : SchemaId) (start : GroupId) {fuel : Nat}
    {stack loaded : List GroupId}
    (hfuel : stack.length + Groups.pending g.known loaded ≤ fuel) :
    ∃ calls, Searches g host start stack loaded calls (follow g host start fuel stack loaded) := by
  induction fuel generalizing stack loaded with
  | zero =>
    have hnil : stack = [] := List.eq_nil_of_length_eq_zero (by omega)
    subst hnil
    exact ⟨[], .done⟩
  | succ fuel ih =>
    cases stack with
    | nil => exact ⟨[], .done⟩
    | cons id stack =>
      rw [List.length_cons] at hfuel
      rw [follow]
      split
      · rename_i hold
        obtain ⟨calls, hrest⟩ := @ih stack loaded (by omega)
        exact ⟨calls, .skip (List.contains_iff_mem.mp hold) hrest⟩
      · rename_i hnew
        have hnew : id ∉ loaded := fun hmem => hnew (List.contains_iff_mem.mpr hmem)
        cases hload : g.load id with
        | error e => exact ⟨[id], .fail hnew hload⟩
        | ok s =>
          dsimp only
          split
          · rename_i hhost
            exact ⟨[id], .meet hnew hload hhost⟩
          · rename_i hne
            have hpending := Groups.pending_cons hnew (Groups.lookup_of_load hload)
            have hlength : (s.embedded.reverse ++ stack).length =
                s.embedded.length + stack.length := by
              rw [List.length_append, List.length_reverse]
            obtain ⟨calls, hrest⟩ := @ih (s.embedded.reverse ++ stack) (id :: loaded) (by omega)
            exact ⟨id :: calls, .load hnew hload hne hrest⟩

namespace Searches

variable {stack loaded calls : List GroupId} {r : Except Error (List GroupId)}

/-- The loader is called once for each group, and not for those that are loaded. -/
theorem nodup_calls (h : Searches g host start stack loaded calls r) :
    calls.Nodup ∧ ∀ x ∈ calls, x ∉ loaded := by
  induction h with
  | done => exact ⟨List.nodup_nil, fun _ hx => (List.not_mem_nil hx).elim⟩
  | skip _ _ ih => exact ih
  | fail hnew | meet hnew =>
    refine ⟨List.nodup_singleton _, fun x hx => ?_⟩
    rw [List.mem_singleton.mp hx]
    exact hnew
  | load hnew _ _ _ ih =>
    obtain ⟨hcalls, hout⟩ := ih
    refine ⟨List.nodup_cons.mpr ⟨fun hid => hout _ hid List.mem_cons_self, hcalls⟩, fun x hx => ?_⟩
    rcases List.mem_cons.mp hx with rfl | hx
    · exact hnew
    · exact fun hold => hout x hx (List.mem_cons_of_mem _ hold)

/-- What holds on the stack and of all that is embedded holds wherever the loader is
called. -/
theorem forall_calls {P : GroupId → Prop} (hembeds : ∀ a b, P a → g.Embeds a b → P b)
    (h : Searches g host start stack loaded calls r) (hstack : ∀ x ∈ stack, P x) :
    ∀ x ∈ calls, P x := by
  induction h with
  | done => exact fun _ hx => (List.not_mem_nil hx).elim
  | skip _ _ ih => exact ih fun x hx => hstack x (List.mem_cons_of_mem _ hx)
  | fail | meet =>
    intro x hx
    rw [List.mem_singleton.mp hx]
    exact hstack _ List.mem_cons_self
  | @load id stack _ _ s _ _ hload _ _ ih =>
    have hid : P id := hstack id List.mem_cons_self
    have hnext : ∀ y ∈ s.embedded.reverse ++ stack, P y := by
      intro y hy
      rcases List.mem_append.mp hy with hy | hy
      · exact hembeds id y hid ⟨s, hload, List.mem_reverse.mp hy⟩
      · exact hstack y (List.mem_cons_of_mem _ hy)
    intro x hx
    rcases List.mem_cons.mp hx with rfl | hx
    · exact hid
    · exact ih hnext x hx

/-- If there is no error, the groups loaded are those called for. -/
theorem of_ok {out : List GroupId} (h : Searches g host start stack loaded calls r)
    (hr : r = .ok out) : out = calls.reverse ++ loaded := by
  induction h with
  | done =>
    cases hr
    rfl
  | skip _ _ ih => exact ih hr
  | fail | meet => cases hr
  | load _ _ _ _ ih =>
    rw [ih hr, List.reverse_cons, List.append_assoc]
    rfl

/-- If there is an error, it is that of a group the loader was called for, which did not
load or whose schema is the host. -/
theorem of_error {e : Error} (h : Searches g host start stack loaded calls r)
    (he : r = .error e) : ∃ x ∈ calls, g.load x = .error e ∨
      e = .schema (.groupCycle start) ∧ ∃ s, g.load x = .ok s ∧ s.id = host := by
  induction h with
  | done => cases he
  | skip _ _ ih => exact ih he
  | fail _ hload =>
    cases he
    exact ⟨_, List.mem_cons_self, .inl hload⟩
  | meet _ hload hhost =>
    cases he
    exact ⟨_, List.mem_cons_self, .inr ⟨rfl, _, hload, hhost⟩⟩
  | load _ _ _ _ ih =>
    obtain ⟨x, hx, hcause⟩ := ih he
    exact ⟨x, List.mem_cons_of_mem _ hx, hcause⟩

/-- A search comes to one result. -/
theorem unique {calls' : List GroupId} {r' : Except Error (List GroupId)}
    (h : Searches g host start stack loaded calls r)
    (h' : Searches g host start stack loaded calls' r') : r = r' := by
  induction h generalizing calls' r' with
  | done =>
    cases h'
    rfl
  | skip hold _ ih =>
    cases h' with
    | skip _ hrest => exact ih hrest
    | fail hnew | meet hnew | load hnew => exact (hnew hold).elim
  | fail hnew hload =>
    cases h' with
    | skip hold => exact (hnew hold).elim
    | fail _ hload' => exact congrArg _ (Except.error.inj (hload.symm.trans hload'))
    | meet _ hload' | load _ hload' => cases hload.symm.trans hload'
  | meet hnew hload hhost =>
    cases h' with
    | skip hold => exact (hnew hold).elim
    | fail _ hload' => cases hload.symm.trans hload'
    | meet => rfl
    | load _ hload' hne =>
      cases hload.symm.trans hload'
      exact (hne hhost).elim
  | load hnew hload hne _ ih =>
    cases h' with
    | skip hold => exact (hnew hold).elim
    | fail _ hload' => cases hload.symm.trans hload'
    | meet _ hload' hhost =>
      cases hload.symm.trans hload'
      exact (hne hhost).elim
    | load _ hload' _ hrest =>
      cases hload.symm.trans hload'
      exact ih hrest

/-- How the host itself is made does not matter, since the search ends where it meets it. -/
theorem congr {g' : Groups} (h : Searches g host start stack loaded calls r)
    (hload : ∀ id, g'.load id = g.load id ∨
      ∃ s s', g.load id = .ok s ∧ g'.load id = .ok s' ∧ s.id = host ∧ s'.id = host) :
    Searches g' host start stack loaded calls r := by
  induction h with
  | done => exact .done
  | skip hold _ ih => exact .skip hold ih
  | @fail id _ _ _ hnew hfail =>
    rcases hload id with heq | ⟨s, -, hs, -⟩
    · exact .fail hnew (heq.trans hfail)
    · cases hfail.symm.trans hs
  | @meet id _ _ _ hnew hmeet hhost =>
    rcases hload id with heq | ⟨-, s', -, hs', -, hhost'⟩
    · exact .meet hnew (heq.trans hmeet) hhost
    · exact .meet hnew hs' hhost'
  | @load id _ _ _ _ _ hnew hfound hne _ ih =>
    rcases hload id with heq | ⟨s, -, hs, -, hhost, -⟩
    · exact .load hnew (heq.trans hfound) hne ih
    · cases hfound.symm.trans hs
      exact (hne hhost).elim

end Searches

/-- The check asks nothing of how the host itself is made. -/
theorem ensureAcyclic_congr {g' : Groups} (hload : ∀ id, g'.load id = g.load id ∨
      ∃ s s', g.load id = .ok s ∧ g'.load id = .ok s' ∧ s.id = host ∧ s'.id = host) :
    ensureAcyclic g' host start = ensureAcyclic g host start := by
  have hfuel : ∀ g : Groups, [start].length + Groups.pending g.known [] ≤ g.steps := by
    intro g
    rw [g.steps_eq, List.length_singleton]
    omega
  obtain ⟨calls, hsearch⟩ := searches_follow (g := g) host start (hfuel g)
  obtain ⟨calls', hsearch'⟩ := searches_follow (g := g') host start (hfuel g')
  exact hsearch'.unique (hsearch.congr hload)

/-- What is closed under embedding holds all that is within reach. -/
theorem Groups.Settled.mem_of_reaches {out : List GroupId} (h : g.Settled host out [])
    (hstart : start ∈ out) {x : GroupId} (hx : g.Reaches start x) : x ∈ out := by
  induction hx with
  | refl => exact hstart
  | tail _ hstep ih =>
    obtain ⟨s, hload, hy⟩ := hstep
    obtain ⟨s', hload', -, hall⟩ := h _ ih
    obtain rfl : s' = s := Except.ok.inj (hload'.symm.trans hload)
    exact (hall _ hy).resolve_right List.not_mem_nil

/-- If all within reach of the stack load, none with the schema of the host, then the search
finds just these groups, each once. -/
theorem exists_follow (host : SchemaId) (start : GroupId) {fuel : Nat} {stack : List GroupId}
    (hfuel : stack.length + Groups.pending g.known [] ≤ fuel)
    (hall : ∀ a ∈ stack, ∀ x, g.Reaches a x → ∃ s, g.load x = .ok s ∧ s.id ≠ host) :
    ∃ out, follow g host start fuel stack [] = .ok out ∧ out.Nodup ∧
      ∀ x, x ∈ out ↔ ∃ a ∈ stack, g.Reaches a x := by
  obtain ⟨calls, hsearch⟩ := searches_follow host start hfuel
  have hreach : ∀ x ∈ calls, ∃ a ∈ stack, g.Reaches a x :=
    hsearch.forall_calls (fun _ _ ⟨a, ha, hpath⟩ hstep => ⟨a, ha, hpath.tail hstep⟩)
      fun x hx => ⟨x, hx, .refl⟩
  cases hresult : follow g host start fuel stack [] with
  | error e =>
    obtain ⟨x, hx, hcause⟩ := hsearch.of_error hresult
    obtain ⟨a, ha, hpath⟩ := hreach x hx
    obtain ⟨s, hload, hne⟩ := hall a ha x hpath
    rcases hcause with hfail | ⟨-, s', hload', hhost⟩
    · cases hload.symm.trans hfail
    · obtain rfl : s' = s := Except.ok.inj (hload'.symm.trans hload)
      exact (hne hhost).elim
  | ok out =>
    have hout : out = calls.reverse := (hsearch.of_ok hresult).trans (List.append_nil _)
    obtain ⟨hsettled, -, hstack⟩ :=
      settled_of_follow hfuel (fun _ hx => (List.not_mem_nil hx).elim) hresult
    refine ⟨out, rfl, ?_, fun x => ⟨fun hx => ?_, ?_⟩⟩
    · rw [hout]
      exact List.nodup_reverse.mpr hsearch.nodup_calls.1
    · rw [hout, List.mem_reverse] at hx
      exact hreach x hx
    · rintro ⟨a, ha, hpath⟩
      exact hsettled.mem_of_reaches (hstack a ha) hpath

/-- **The check decides what is within reach**, for groups that embed each other in any way.
It ends, with one call of the loader at most for each group; it passes just if all groups
within reach load, none with the schema of the host; and an error is that of a group within
reach, the cycle if its schema is the host, or else why it does not load. -/
theorem ensureAcyclic_decides (g : Groups) (host : SchemaId) (start : GroupId) :
    (∃ calls, Searches g host start [start] [] calls (ensureAcyclic g host start) ∧
      calls.Nodup ∧ ∀ x ∈ calls, g.Reaches start x) ∧
    ((∃ loaded, ensureAcyclic g host start = .ok loaded) ↔
      ∀ x, g.Reaches start x → ∃ s, g.load x = .ok s ∧ s.id ≠ host) ∧
    ∀ e, ensureAcyclic g host start = .error e → ∃ x, g.Reaches start x ∧
      (g.load x = .error e ∨
        e = .schema (.groupCycle start) ∧ ∃ s, g.load x = .ok s ∧ s.id = host) := by
  have hfuel : [start].length + Groups.pending g.known [] ≤ g.steps := by
    rw [g.steps_eq, List.length_singleton]
    omega
  obtain ⟨calls, hsearch⟩ := searches_follow host start hfuel
  have hreach : ∀ x ∈ calls, g.Reaches start x := by
    refine hsearch.forall_calls (fun _ _ ha hab => ha.tail hab) fun x hx => ?_
    rw [List.mem_singleton.mp hx]
    exact .refl
  have herror : ∀ e, ensureAcyclic g host start = .error e → ∃ x, g.Reaches start x ∧
      (g.load x = .error e ∨
        e = .schema (.groupCycle start) ∧ ∃ s, g.load x = .ok s ∧ s.id = host) := by
    intro e he
    obtain ⟨x, hx, hcause⟩ := hsearch.of_error he
    exact ⟨x, hreach x hx, hcause⟩
  refine ⟨⟨calls, hsearch, hsearch.nodup_calls.1, hreach⟩, ⟨?passed, ?passes⟩, herror⟩
  case passed =>
    rintro ⟨out, hout⟩ x hx
    obtain ⟨hsettled, hstart⟩ := settled_of_ensureAcyclic hout
    obtain ⟨s, hload, hne, -⟩ := hsettled x (hsettled.mem_of_reaches hstart hx)
    exact ⟨s, hload, hne⟩
  case passes =>
    intro hall
    obtain ⟨out, hout, -⟩ := exists_follow host start hfuel fun a ha x hx =>
      hall x (List.mem_singleton.mp ha ▸ hx)
    exact ⟨out, hout⟩

end ContentStore.Embedding
