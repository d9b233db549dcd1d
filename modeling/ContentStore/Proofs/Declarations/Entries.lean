import ContentStore.Store.Declaring

/-!
# What a declared catalog asks for

A declaration asks for groups, models and fields, each of which is created by a
write of its own (`Declaration.Entry`).  Which of them are still to be made is
decided by the keys that are taken: a group or a model whose key is taken is
passed over with all of its fields, and of several under one key the first one
counts (`Declaration.pending`).

A field is declared by what its outline shows, and where it goes by the key of
its owner.  A two-way reference adds a second field, to the schema of the model
it points at (`Declaration.Entry.additions`).
-/

namespace ContentStore

/-! ## Outlines -/

/-- What can be said of a field before it is made: all but its id, its place and
the limits of its kind. -/
structure Outline where
  key : String
  name : String
  description : String
  kind : Kind
  multiple : Bool
  required : Bool
  unique : Bool
  default : Option Values
  twoWay : Bool
  deriving DecidableEq

def Field.outline (f : Field) : Outline :=
  ⟨f.key, f.name, f.description, f.kind, f.multiple, f.required, f.unique, f.default, f.isTwoWay⟩

/-- The default that raw input stands for, if it is the input of one. -/
def defaultFor (kind : Kind) (raw : Option Json) : Option Values :=
  (raw.filter fun j => !j.isNull).bind fun j => (Values.coerce kind j).toOption

def Mirror.outline (m : Mirror) : Outline :=
  ⟨m.key, m.name.getD m.key, m.description, .reference, false, m.required, false, none, true⟩

namespace NewField

def outline (param : NewField) : Outline where
  key := param.key
  name := param.name.getD param.key
  description := param.description
  kind := param.type.kind
  multiple := param.multiple
  required := param.required
  unique := param.unique
  default := defaultFor param.type.kind param.default
  twoWay := param.mirror.isSome

/-- The other end of a new two-way reference, and the schema it goes to. -/
def mirrorEnd? (param : NewField) : Option (SchemaId × Outline) :=
  match param.type, param.mirror with
  | .reference _ target _, some m => some (target, m.outline)
  | _, _ => none

theorem mirrorEnd?_of_none {param : NewField} (h : param.mirror = none) :
    param.mirrorEnd? = none := by
  unfold mirrorEnd?
  rw [h]
  split
  · rename_i hsome
    cases hsome
  · rfl

end NewField

/-- What can be said of a group or a model before it is made. -/
structure Heading where
  project : ProjectId
  key : String
  name : String
  description : String
  metadata : Bool
  deriving DecidableEq

def Group.heading (g : Group) : Heading := ⟨g.project, g.key, g.name, g.description, false⟩

def Model.heading (m : Model) : Heading :=
  ⟨m.project, m.key, m.name, m.description, m.metadataSchema.isSome⟩

/-! ## Entries -/

/-- The elements whose keys are not taken, the first of each key. -/
def firsts {α : Type} (key : α → String) (taken : String → Bool) : List α → List α
  | [] => []
  | a :: as =>
    if taken (key a) then firsts key taken as
    else a :: firsts key (fun k => taken k || key a == k) as

section Firsts

variable {α : Type} {key : α → String} {taken : String → Bool} {as : List α} {a : α}

/-- None of them has a taken key. -/
theorem free_of_mem_firsts (h : a ∈ firsts key taken as) : taken (key a) = false := by
  induction as generalizing taken with
  | nil => exact (List.not_mem_nil h).elim
  | cons b bs ih =>
    unfold firsts at h
    split at h
    · exact ih h
    · rename_i hfree
      rcases List.mem_cons.mp h with rfl | h
      · exact Bool.eq_false_iff.mpr hfree
      · exact (Bool.or_eq_false_iff.mp (ih h)).1

/-- Every key is taken, or one of them has it. -/
theorem taken_or_first (key : α → String) (taken : String → Bool) (h : a ∈ as) :
    taken (key a) = true ∨ ∃ b ∈ firsts key taken as, key b = key a := by
  induction as generalizing taken with
  | nil => exact (List.not_mem_nil h).elim
  | cons b bs ih =>
    unfold firsts
    split
    · rename_i htaken
      rcases List.mem_cons.mp h with rfl | h
      · exact .inl htaken
      · exact ih taken h
    · rcases List.mem_cons.mp h with rfl | h
      · exact .inr ⟨a, List.mem_cons_self, rfl⟩
      · rcases ih (fun k => taken k || key b == k) h with htaken | ⟨c, hc, hkey⟩
        · rcases Bool.or_eq_true_iff.mp htaken with htaken | hsame
          · exact .inl htaken
          · exact .inr ⟨b, List.mem_cons_self, beq_iff_eq.mp hsame⟩
        · exact .inr ⟨c, List.mem_cons_of_mem _ hc, hkey⟩

end Firsts

namespace Declaration

/-- Where a declared field goes, by the key of the group or the model. -/
inductive Owner
  | group (key : String)
  | model (key : String)
  | metadata (key : String)

/-- What one write is to create. -/
inductive Entry
  | group (g : Group)
  | model (m : Model)
  | field (owner : Owner) (f : Field)

/-- A declared group and its fields. -/
def Group.entries (g : Group) : List Entry :=
  .group g :: g.fields.map (.field (.group g.key))

/-- The fields of a declared model. -/
def Model.entries (m : Model) : List Entry :=
  m.fields.map (.field (.model m.key)) ++ m.metadata.map (.field (.metadata m.key))

variable (d : Declaration) (t : Tables)

/-- The declared groups that are not stored. -/
def newGroups : List Group :=
  firsts Group.key (fun k => (t.groupByKey? d.projectId k).isSome) d.groups

/-- The declared models that are not stored. -/
def newModels : List Model :=
  firsts Model.key (fun k => (t.modelByKey? d.projectId k).isSome) d.models

/-- **All that is left to create**, in the order in which it is tried.  Fields of models
wait for the last of the models. -/
def pending : List Entry :=
  (d.newGroups t).flatMap Group.entries ++
    ((d.newModels t).map .model ++ (d.newModels t).flatMap Model.entries)

/-! ## What entries come to -/

/-- A declared group as input. -/
def newGroup (g : Group) : NewGroup :=
  ⟨d.projectId, d.workspaceId, g.key, g.name, g.description.getD ""⟩

/-- A declared model as input. -/
def newModel (m : Model) : NewModel :=
  ⟨d.projectId, d.workspaceId, m.key, m.name, m.description.getD "", !m.metadata.isEmpty⟩

/-- A declared field that is single, optional and named by its key. -/
def Field.ofKey (key : String) (kind : Kind) : Field where
  key := key
  name := none
  description := none
  kind := kind
  multiple := false
  required := false
  unique := false
  title := false
  default := none
  maxLength := none
  low := none
  high := none
  options := []
  tags := []
  model := none
  mirror := none
  group := none

/-- A declared field as input, when its schema and its type are known. -/
def Field.input (f : Field) (schema : SchemaId) (type : FieldType) : NewField where
  schema := schema
  key := f.key
  name := f.name
  description := f.description.getD ""
  type := type
  multiple := f.multiple
  required := f.required
  unique := f.unique
  isTitle := f.title
  default := f.default
  mirror := f.mirror.map Store.declaredMirror

def Field.outline (f : Field) : Outline where
  key := f.key
  name := f.name.getD f.key
  description := f.description.getD ""
  kind := f.kind
  multiple := f.multiple
  required := f.required
  unique := f.unique
  default := defaultFor f.kind f.default
  twoWay := f.mirror.isSome

/-- The schema of an owner that is stored. -/
def Owner.schema? : Owner → Option SchemaId
  | .group key => (t.groupByKey? d.projectId key).map ContentStore.Group.schema
  | .model key => (t.modelByKey? d.projectId key).map ContentStore.Model.schema
  | .metadata key => (t.modelByKey? d.projectId key).bind ContentStore.Model.metadataSchema

/-- The key of the owner is taken. -/
def Owner.taken : Owner → Bool
  | .group key => (t.groupByKey? d.projectId key).isSome
  | .model key => (t.modelByKey? d.projectId key).isSome
  | .metadata key => (t.modelByKey? d.projectId key).isSome

/-- The other end of a declared two-way reference and the schema it goes to, if the
model pointed at is stored. -/
def Field.mirrorEnd? (f : Field) : Option (SchemaId × Outline) := do
  let m ← f.mirror
  let M ← t.modelByKey? d.projectId (← f.model)
  return (M.schema, (Store.declaredMirror m).outline)

theorem Field.mirrorEnd?_of_none {f : Field} (h : f.mirror = none) : f.mirrorEnd? d t = none := by
  unfold mirrorEnd?
  rw [h]
  rfl

namespace Entry

/-- The schema that an entry adds a declared field to. -/
def host? : Entry → Option SchemaId
  | .field owner _ => owner.schema? d t
  | _ => none

/-- The other end that an entry adds to some schema. -/
def mirrorEnd? : Entry → Option (SchemaId × Outline)
  | .field _ f => f.mirrorEnd? d t
  | _ => none

/-- The fields that come about by an entry, each with the schema it goes to. -/
def additions : Entry → List (SchemaId × Outline)
  | .field owner f =>
    ((owner.schema? d t).map fun s => (s, f.outline)).toList ++ (f.mirrorEnd? d t).toList
  | _ => []

theorem additions_field (owner : Owner) (f : Field) : additions d t (.field owner f) =
    ((owner.schema? d t).map fun s => (s, f.outline)).toList ++ (f.mirrorEnd? d t).toList := rfl

/-- The group that an entry creates. -/
def group? : Entry → Option Heading
  | .group g => some ⟨d.projectId, g.key, g.name.getD g.key, g.description.getD "", false⟩
  | _ => none

/-- The model that an entry creates. -/
def model? : Entry → Option Heading
  | .model m =>
    some ⟨d.projectId, m.key, m.name.getD m.key, m.description.getD "", !m.metadata.isEmpty⟩
  | _ => none

/-- The entry makes the owner. -/
def opens : Owner → Entry → Bool
  | .group key, .group g => g.key == key
  | .model key, .model m => m.key == key
  | .metadata key, .model m => m.key == key
  | _, _ => false

end Entry

/-! ## What is pending -/

section Pending

variable {d : Declaration} {t : Tables}

/-- **Only what is not stored gets declared fields.** -/
theorem free_of_pending {owner : Owner} {f : Field} (h : .field owner f ∈ d.pending t) :
    owner.taken d t = false := by
  rcases List.mem_append.mp h with h | h
  · obtain ⟨g, hg, h⟩ := List.mem_flatMap.mp h
    rcases List.mem_cons.mp h with h | h
    · cases h
    · obtain ⟨f', -, heq⟩ := List.mem_map.mp h
      cases heq
      exact free_of_mem_firsts hg
  · rcases List.mem_append.mp h with h | h
    · obtain ⟨m, -, heq⟩ := List.mem_map.mp h
      cases heq
    · obtain ⟨m, hm, h⟩ := List.mem_flatMap.mp h
      rcases List.mem_append.mp h with h | h
      · obtain ⟨f', -, heq⟩ := List.mem_map.mp h
        cases heq
        exact free_of_mem_firsts hm
      · obtain ⟨f', -, heq⟩ := List.mem_map.mp h
        cases heq
        exact free_of_mem_firsts hm

/-- Every declared group is stored or pending, under its key. -/
theorem taken_or_pending_group {g : Group} (h : g ∈ d.groups) :
    (Owner.group g.key).taken d t = true ∨
      (d.pending t).any (Entry.opens (.group g.key)) = true := by
  rcases taken_or_first Group.key (fun k => (t.groupByKey? d.projectId k).isSome) h with
    htaken | ⟨b, hb, hkey⟩
  · exact .inl htaken
  · refine .inr (List.any_eq_true.mpr ⟨.group b, ?_, beq_iff_eq.mpr hkey⟩)
    exact List.mem_append_left _ (List.mem_flatMap.mpr ⟨b, hb, List.mem_cons_self⟩)

theorem taken_or_pending_model {m : Model} (h : m ∈ d.models) :
    (Owner.model m.key).taken d t = true ∨
      (d.pending t).any (Entry.opens (.model m.key)) = true := by
  rcases taken_or_first Model.key (fun k => (t.modelByKey? d.projectId k).isSome) h with
    htaken | ⟨b, hb, hkey⟩
  · exact .inl htaken
  · refine .inr (List.any_eq_true.mpr ⟨.model b, ?_, beq_iff_eq.mpr hkey⟩)
    exact List.mem_append_right _ (List.mem_append_left _ (List.mem_map_of_mem hb))

/-- What is pending begins with a group or a model. -/
theorem opens_of_pending {e : Entry} {es : List Entry} (h : d.pending t = e :: es) :
    (e.group? d).isSome = true ∨ (e.model? d).isSome = true := by
  unfold pending at h
  cases hgroups : d.newGroups t with
  | cons g gs =>
    rw [hgroups] at h
    cases h
    exact .inl rfl
  | nil =>
    rw [hgroups] at h
    cases hmodels : d.newModels t with
    | nil =>
      rw [hmodels] at h
      cases h
    | cons m ms =>
      rw [hmodels] at h
      cases h
      exact .inr rfl

end Pending

end Declaration

/-- The fields that go to one schema. -/
def landing (s : SchemaId) (adds : List (SchemaId × Outline)) : List Outline :=
  (adds.filter fun a => a.1 == s).map Prod.snd

@[simp] theorem landing_append (s : SchemaId) (as bs : List (SchemaId × Outline)) :
    landing s (as ++ bs) = landing s as ++ landing s bs := by
  rw [landing, List.filter_append, List.map_append]
  rfl

end ContentStore
