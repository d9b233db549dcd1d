import ContentStore.Proofs.Embedding.Assembling
import ContentStore.Proofs.Embedding.Rounds

/-!
# The loops over groups end

Schemas of groups can embed each other, instances can list each other, and defaults can
list further instances.  Still each loop over them ends, for a reason of its own: a round
of reading takes input, visits meet no owner twice, each round of cleaning up finds more
live instances, and assembling shows no instance twice (`groups_end`).  What the loops do
is said without the fuel that the definitions take.
-/

namespace ContentStore.Embedding

variable {p : Package} {stored : List ItemField}

/-- One round of reading, with the values so far and the input that is left. -/
def roundBody (p : Package) (stored : List ItemField) :
    List ItemField × List RawField →
      Except Error (List ItemField) ⊕ (List ItemField × List RawField)
  | (values, []) => .inl (.ok values)
  | (values, raw :: rest) =>
    match instanceSchemas p values stored with
    | .error e => .inl (.error e)
    | .ok found =>
      match resolveRound found (raw :: rest) with
      | .error e => .inl (.error e)
      | .ok (new, left) =>
        if left.length = (raw :: rest).length then
          .inl (.error (.misuse (.instanceNotListed ((raw.group.map Id.text).getD ""))))
        else .inr (values ++ new, left)

theorem resolveRounds_succ (fuel : Nat) (s : List ItemField × List RawField) :
    resolveRounds p stored (fuel + 1) s.1 s.2 =
      (roundBody p stored s).elim id fun s => resolveRounds p stored fuel s.1 s.2 := by
  obtain ⟨values, _ | ⟨raw, rest⟩⟩ := s
  · rfl
  · simp only [resolveRounds, roundBody]
    cases instanceSchemas p values stored with
    | error e => rfl
    | ok found =>
      dsimp only [bind, Except.bind]
      cases resolveRound found (raw :: rest) with
      | error e => rfl
      | ok r =>
        dsimp only
        split <;> rfl

/-- A round that is not the last one takes some of the input. -/
theorem length_lt_of_roundBody {s s' : List ItemField × List RawField}
    (h : roundBody p stored s = .inr s') : s'.2.length < s.2.length := by
  obtain ⟨values, _ | ⟨raw, rest⟩⟩ := s
  · cases h
  · rw [roundBody] at h
    split at h
    · cases h
    · rename_i found _
      split at h
      · cases h
      · rename_i hround
        split at h
        · cases h
        · rename_i hleft
          cases h
          obtain ⟨-, rfl⟩ := resolveRound_eq_ok.mp hround
          have hsum := length_taken_add found (raw :: rest)
          dsimp only
          omega

/-- **The rounds of reading end** with the values, or with an error. -/
theorem ends_resolveRounds (p : Package) (stored values : List ItemField)
    (raws : List RawField) :
    Ends (roundBody p stored) (values, raws)
      (resolveRounds p stored raws.length values raws) := by
  let Enough (fuel : Nat) (s : List ItemField × List RawField) : Prop := s.2.length ≤ fuel
  have hstart : Enough raws.length (values, raws) := Nat.le_refl _
  refine ends_of_fuel (fun fuel s => resolveRounds p stored fuel s.1 s.2) Enough
    resolveRounds_succ ?zero ?round hstart
  case zero =>
    rintro ⟨values, raws⟩ hfuel
    obtain rfl : raws = [] := List.eq_nil_of_length_eq_zero (Nat.le_zero.mp hfuel)
    rfl
  case round =>
    intro fuel s s' hfuel hbody
    exact Nat.le_of_lt_succ (Nat.lt_of_lt_of_le (length_lt_of_roundBody hbody) hfuel)

/-- After the top level, input is read in rounds. -/
theorem ends_valuesOfRaw {input : List RawField} {top : List ItemField}
    (htop : (input.filter fun raw => raw.group.isNone).mapM (valueOf p.schema) = .ok top) :
    Ends (roundBody p stored) (top, input.filter fun raw => raw.group.isSome)
      (valuesOfRaw p input stored) := by
  rw [valuesOfRaw, htop]
  exact ends_resolveRounds p stored top _

/-- **The loops over groups end**, whatever the package, the item and the input.  Input
is read at top level and then in rounds, each with the instances known at the time.
Completing and cleaning up end as well.  Assembling ends with blocks that show only
instances which are listed, and none of them twice at any depth, and rendering goes
through these blocks. -/
theorem groups_end (p : Package) (it : Item) (input : List RawField)
    (stored values incoming : List ItemField) :
    (∀ e, (input.filter fun raw => raw.group.isNone).mapM (valueOf p.schema) = .error e →
        valuesOfRaw p input stored = .error e) ∧
      (∀ top, (input.filter fun raw => raw.group.isNone).mapM (valueOf p.schema) = .ok top →
        Ends (roundBody p stored) (top, input.filter fun raw => raw.group.isSome)
          (valuesOfRaw p input stored)) ∧
      (∀ before, Ends (visitBody p before stored) ([], [(p.schema, none)])
        (instanceSchemas p before stored)) ∧
      Ends (completeBody p) ([], [(p.schema, none)], values) (complete p values) ∧
      (∃ live, Ends (liveBody (incoming.foldl putValue it.fields)) [] live ∧
        it.update incoming = { it with fields :=
          (incoming.foldl putValue it.fields).filter fun e => e.group.all live.contains }) ∧
      ∃ bs shown, Assembles p it.fields none p.schema.groupFields [] bs shown ∧
        assemble p it.fields = bs ∧ ((blockEntries bs).map Entry.id).Nodup ∧
        (blockEntries bs).map Entry.id ⊆ listedIn it.fields ∧
        render p it = putMembers (putMembers [("id", .string it.id.text)] (renderTop p it))
          (renderBlocks p bs) := by
  obtain ⟨shown, hassembles, -, hapart⟩ := assembles_assemble p it.fields
  refine ⟨fun e he => ?_, fun top htop => ends_valuesOfRaw htop,
    fun before => ends_instanceSchemas p before stored, ends_complete p values,
    ⟨_, ends_liveInstances _, rfl⟩,
    ⟨_, shown, hassembles, rfl, hapart.nodup, hapart.listed, rfl⟩⟩
  rw [valuesOfRaw, he]
  rfl

end ContentStore.Embedding
