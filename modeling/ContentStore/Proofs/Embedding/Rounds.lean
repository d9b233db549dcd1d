import ContentStore.Proofs.Embedding.Governing

/-!
# Reading input in rounds

Input for instances is read in rounds: each takes what belongs to instances that
are known from the values so far, and leaves the rest to the next one.  The fuel
allows for as many rounds as there is input, and every round takes some of it, so
that input which is accepted has been read to the end (`valuesOfRaw_eq_ok`).  Each
of its values stands at top level or in an instance that governs it, by what had
been read before (`Rounds.mem`).
-/

namespace ContentStore.Embedding

variable {p : Package} {stored : List ItemField}

/-- The schema of the instance that input is addressed to, once it is found. -/
def schemaOf? (found : Found) (raw : RawField) : Option Schema := raw.group.bind (found.lookup ·)

/-- Read with the schema of its instance, the input gives the value. -/
def ReadAs (found : Found) (raw : RawField) (v : ItemField) : Prop :=
  ∃ s, schemaOf? found raw = some s ∧ valueOf s raw = .ok v

/-- The input that a round takes. -/
def taken (found : Found) (raws : List RawField) : List RawField :=
  raws.filter fun raw => (schemaOf? found raw).isSome

/-- The input that a round leaves. -/
def untaken (found : Found) (raws : List RawField) : List RawField :=
  raws.filter fun raw => (schemaOf? found raw).isNone

/-- From the values so far and the input that is left, rounds lead to the values in
the end. -/
inductive Rounds (p : Package) (stored : List ItemField) :
    List ItemField → List RawField → List ItemField → Prop
  | done {values : List ItemField} : Rounds p stored values [] values
  | round {values new out : List ItemField} {raws : List RawField} {found : Found}
      (hfound : instanceSchemas p values stored = .ok found)
      (hnew : List.Forall₂ (ReadAs found) (taken found raws) new) (hsome : new ≠ [])
      (hrest : Rounds p stored (values ++ new) (untaken found raws) out) :
      Rounds p stored values raws out

/-! ## One round -/

section Round

variable {found : Found} {raw : RawField} {rest : List RawField}

theorem resolveRound_of_none (hs : schemaOf? found raw = none) :
    resolveRound found (raw :: rest) =
      (resolveRound found rest).map fun r => (r.1, raw :: r.2) := by
  rw [resolveRound, show raw.group.bind (found.lookup ·) = none from hs]

theorem resolveRound_of_some {s : Schema} (hs : schemaOf? found raw = some s) :
    resolveRound found (raw :: rest) =
      valueOf s raw >>= fun v => (resolveRound found rest).map fun r => (v :: r.1, r.2) := by
  rw [resolveRound, show raw.group.bind (found.lookup ·) = some s from hs]
  dsimp only
  cases valueOf s raw <;> rfl

/-- **A round** takes all input for instances that are known, and no other. -/
theorem resolveRound_eq_ok {raws left : List RawField} {new : List ItemField} :
    resolveRound found raws = .ok (new, left) ↔
      List.Forall₂ (ReadAs found) (taken found raws) new ∧ left = untaken found raws := by
  induction raws generalizing new left with
  | nil => simp [resolveRound, taken, untaken, eq_comm]
  | cons raw rest ih =>
    cases hs : schemaOf? found raw with
    | none =>
      have htaken : taken found (raw :: rest) = taken found rest := by simp [taken, hs]
      have huntaken : untaken found (raw :: rest) = raw :: untaken found rest := by
        simp [untaken, hs]
      rw [resolveRound_of_none hs, htaken, huntaken, map_eq_ok]
      constructor
      · rintro ⟨⟨new', left'⟩, hrest, heq⟩
        cases heq
        obtain ⟨hnew, rfl⟩ := ih.mp hrest
        exact ⟨hnew, rfl⟩
      · rintro ⟨hnew, rfl⟩
        exact ⟨(new, untaken found rest), ih.mpr ⟨hnew, rfl⟩, rfl⟩
    | some s =>
      have htaken : taken found (raw :: rest) = raw :: taken found rest := by simp [taken, hs]
      have huntaken : untaken found (raw :: rest) = untaken found rest := by simp [untaken, hs]
      rw [resolveRound_of_some hs, htaken, huntaken, List.forall₂_cons_left_iff, bind_eq_ok]
      constructor
      · rintro ⟨v, hv, hround⟩
        obtain ⟨⟨new', left'⟩, hrest, heq⟩ := map_eq_ok.mp hround
        cases heq
        obtain ⟨hnew, rfl⟩ := ih.mp hrest
        exact ⟨⟨v, new', ⟨s, hs, hv⟩, hnew, rfl⟩, rfl⟩
      · rintro ⟨⟨v, new', ⟨s', hs', hv⟩, hnew, rfl⟩, rfl⟩
        obtain rfl := Option.some.inj (hs.symm.trans hs')
        exact ⟨v, hv, map_eq_ok.mpr ⟨(new', untaken found rest), ih.mpr ⟨hnew, rfl⟩, rfl⟩⟩

end Round

/-- What is not left has been taken. -/
theorem length_taken_add (found : Found) (raws : List RawField) :
    (taken found raws).length + (untaken found raws).length = raws.length := by
  have hnone : untaken found raws = raws.filter fun raw => !(schemaOf? found raw).isSome := by
    simp [untaken]
  rw [hnone]
  exact (List.length_eq_length_filter_add _).symm

/-! ## All rounds -/

theorem resolveRounds_cons_eq_ok {fuel : Nat} {values out : List ItemField} {raw : RawField}
    {rest : List RawField} :
    resolveRounds p stored (fuel + 1) values (raw :: rest) = .ok out ↔
      ∃ found new, instanceSchemas p values stored = .ok found ∧
        List.Forall₂ (ReadAs found) (taken found (raw :: rest)) new ∧ new ≠ [] ∧
        resolveRounds p stored fuel (values ++ new) (untaken found (raw :: rest)) = .ok out := by
  rw [resolveRounds, bind_eq_ok]
  refine exists_congr fun found => ?_
  have hprogress : ∀ {new : List ItemField},
      List.Forall₂ (ReadAs found) (taken found (raw :: rest)) new →
        (new ≠ [] ↔ (untaken found (raw :: rest)).length ≠ (raw :: rest).length) := by
    intro new hnew
    have hlength := hnew.length_eq
    have hsum := length_taken_add found (raw :: rest)
    rw [← List.length_pos_iff]
    omega
  constructor
  · rintro ⟨hfound, h⟩
    obtain ⟨⟨new, left⟩, hround, h⟩ := bind_eq_ok.mp h
    obtain ⟨hnew, rfl⟩ := resolveRound_eq_ok.mp hround
    dsimp only at h
    split at h
    · cases h
    · rename_i hleft
      exact ⟨new, hfound, hnew, (hprogress hnew).mpr hleft, h⟩
  · rintro ⟨new, hfound, hnew, hsome, h⟩
    refine ⟨hfound, bind_eq_ok.mpr ⟨(new, untaken found (raw :: rest)),
      resolveRound_eq_ok.mpr ⟨hnew, rfl⟩, ?_⟩⟩
    dsimp only
    rw [if_neg ((hprogress hnew).mp hsome)]
    exact h

/-- **The fuel suffices** for all rounds that there are. -/
theorem resolveRounds_eq_ok {fuel : Nat} {values out : List ItemField} {raws : List RawField}
    (hfuel : raws.length ≤ fuel) :
    resolveRounds p stored fuel values raws = .ok out ↔ Rounds p stored values raws out := by
  constructor
  · intro h
    induction fuel generalizing values raws with
    | zero =>
      obtain rfl := List.eq_nil_of_length_eq_zero (Nat.le_zero.mp hfuel)
      cases h
      exact .done
    | succ fuel ih =>
      rcases raws with _ | ⟨raw, rest⟩
      · cases h
        exact .done
      · obtain ⟨found, new, hfound, hnew, hsome, h⟩ := resolveRounds_cons_eq_ok.mp h
        refine .round hfound hnew hsome (ih ?_ h)
        have hlength := hnew.length_eq
        have hsum := length_taken_add found (raw :: rest)
        have hpos := List.length_pos_iff.mpr hsome
        omega
  · intro h
    induction h generalizing fuel with
    | done => cases fuel <;> rfl
    | @round values new out raws found hfound hnew hsome hrest ih =>
      have hlength := hnew.length_eq
      have hsum := length_taken_add found raws
      have hpos := List.length_pos_iff.mpr hsome
      rcases raws with _ | ⟨raw, rest⟩
      · rw [List.length_nil] at hsum
        omega
      · cases fuel with
        | zero => cases hfuel
        | succ fuel =>
          exact resolveRounds_cons_eq_ok.mpr ⟨found, new, hfound, hnew, hsome, ih (by omega)⟩

/-- **Input that is accepted** has been read to the end: at top level first, and
then in rounds. -/
theorem valuesOfRaw_eq_ok {input : List RawField} {values : List ItemField} :
    valuesOfRaw p input stored = .ok values ↔
      ∃ top, List.Forall₂ (fun raw v => valueOf p.schema raw = .ok v)
          (input.filter fun raw => raw.group.isNone) top ∧
        Rounds p stored top (input.filter fun raw => raw.group.isSome) values := by
  rw [valuesOfRaw, bind_eq_ok]
  refine exists_congr fun top => and_congr ⟨forall₂_of_mapM, mapM_of_forall₂⟩ ?_
  exact resolveRounds_eq_ok (Nat.le_refl _)

/-! ## Values of one round -/

/-- Rounds only add values. -/
theorem Rounds.isPrefix {values out : List ItemField} {raws : List RawField}
    (h : Rounds p stored values raws out) : values <+: out := by
  induction h with
  | done => exact List.prefix_rfl
  | round _ _ _ _ ih => exact (List.prefix_append _ _).trans ih

/-- **Every value** was there before the rounds, or it was read in one of them, for
an instance that the values before it and the stored ones make known. -/
theorem Rounds.mem {values out : List ItemField} {raws : List RawField}
    (h : Rounds p stored values raws out) {v : ItemField} (hv : v ∈ out) :
    v ∈ values ∨ ∃ before i S, values <+: before ∧ before <+: out ∧ v.group = some i ∧
      Governs p (ListsOver before stored) S (some i) ∧ Fits S v := by
  induction h with
  | done => exact .inl hv
  | @round values new out raws found hfound hnew _ hrest ih =>
    have hmore : values <+: values ++ new := List.prefix_append _ _
    rcases ih hv with hmem | ⟨before, i, S, hbefore, hlater⟩
    · rcases List.mem_append.mp hmem with hmem | hmem
      · exact .inl hmem
      · obtain ⟨raw, -, S, hS, hvalue⟩ := exists_of_forall₂ hnew v hmem
        obtain ⟨i, hi, hlookup⟩ := Option.bind_eq_some_iff.mp hS
        obtain ⟨hfits, hgroup⟩ := fits_of_valueOf hvalue
        exact .inr ⟨values, i, S, List.prefix_rfl, hmore.trans hrest.isPrefix,
          hgroup.trans hi, governs_of_instanceSchemas hfound hlookup, hfits⟩
    · exact .inr ⟨before, i, S, hmore.trans hbefore, hlater⟩

/-- The top level has been read before the rounds. -/
theorem Rounds.mem_of_top {values out : List ItemField} {raws : List RawField}
    (h : Rounds p stored values raws out) {v : ItemField} (hv : v ∈ out)
    (htop : v.group = none) : v ∈ values := by
  refine (h.mem hv).resolve_right fun ⟨_, i, _, _, _, hi, _⟩ => ?_
  cases htop.symm.trans hi

/-- What is read before the rounds stands at top level. -/
theorem fits_of_top {input : List RawField} {top : List ItemField}
    (h : List.Forall₂ (fun raw v => valueOf p.schema raw = .ok v)
      (input.filter fun raw => raw.group.isNone) top) :
    ∀ v ∈ top, v.group = none ∧ Fits p.schema v := by
  intro v hv
  obtain ⟨raw, hraw, hvalue⟩ := exists_of_forall₂ h v hv
  obtain ⟨hfits, hgroup⟩ := fits_of_valueOf hvalue
  have hnone : raw.group = none := by simpa using (List.mem_filter.mp hraw).2
  exact ⟨hgroup.trans hnone, hfits⟩

/-- **Values of the input stand where they belong.** -/
theorem stands_of_valuesOfRaw {input : List RawField} {values : List ItemField}
    (h : valuesOfRaw p input stored = .ok values) : ∀ v ∈ values, Stands p Fits v := by
  obtain ⟨top, htop, hrounds⟩ := valuesOfRaw_eq_ok.mp h
  intro v hv
  rcases hrounds.mem hv with hmem | ⟨before, i, S, -, -, hi, hgoverns, hfits⟩
  · obtain ⟨hnone, hfits⟩ := fits_of_top htop v hmem
    exact ⟨fun _ => hfits, fun hsome => by rw [hnone] at hsome; cases hsome⟩
  · rcases hgoverns.visitable with heq | ⟨-, g, hg, rfl⟩
    · cases (Prod.mk.inj heq).2
    · exact ⟨fun hnone => (nomatch hnone.symm.trans hi), fun _ => ⟨g, hg, hfits⟩⟩

end ContentStore.Embedding
