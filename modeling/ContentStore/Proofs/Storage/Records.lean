import ContentStore.Proofs.Storage.Dates
import ContentStore.Proofs.Storage.Text
import ContentStore.Proofs.Storage.VersionIds
import ContentStore.Storage.Archive
import Mathlib.Data.List.Count
import Mathlib.Data.List.Nodup

/-!
# Records are read as they are written

Every type of record has two lemmas: its reader gives back what was written
(`Schema.read`), and what was written is a plain value, so that its text can be
read too (`Schema.plain`).  Both follow the parts of the record.  What a record
has to fulfil is that its numbers fit the words they are read into and that its
instants are regular (`Schema.Fits`); most records have neither.

A member that may be missing is written as null in one record and left out in
another.  To its reader both are the same (`optional_eq`).
-/

namespace ContentStore

open Json (Plain)
open Record (Members members?)
open Time (Instant)

variable {α : Type} [Record α] {depth : Nat}

/-! ## Members -/

namespace Record

/-- Members of distinct names are all taken. -/
theorem members?_object (names : List String) {ms : List (String × Json)}
    (h : (ms.map Prod.fst).Nodup) : members? names (.object ms) = some ⟨ms⟩ := by
  have hone : ∀ name : String, (ms.filter fun m => m.1 == name).length ≤ 1 := by
    intro name
    have hnodup := List.nodup_iff_count_le_one.mp h name
    rwa [List.count_eq_countP, List.countP_map, List.countP_eq_length_filter] at hnodup
  exact if_pos (List.all_eq_true.mpr fun name _ => decide_eq_true (hone name))

/-- A member is found at its place. -/
theorem raw?_head (name : String) (j : Json) (ms : List (String × Json)) :
    (Members.mk ((name, j) :: ms)).raw? name = some j := List.lookup_cons_self

/-- A search by name passes over members of other names. -/
theorem raw?_tail {name other : String} (h : name ≠ other) (j : Json)
    (ms : List (String × Json)) :
    (Members.mk ((other, j) :: ms)).raw? name = (Members.mk ms).raw? name := by
  unfold Members.raw?
  rw [List.lookup_cons, beq_eq_false_iff_ne.mpr h]

theorem raw?_nil (name : String) : (Members.mk []).raw? name = none := rfl

/-- A member that may be missing is a member of an optional type whose own value is none. -/
theorem optional_eq (ms : Members) (name : String) :
    (ms.optional name : Option (Option α)) = ms.withDefault name none := by
  unfold Members.optional Members.withDefault
  cases ms.raw? name with
  | none => rfl
  | some j => cases j <;> rfl

/-- Tag and content are read from the two members they are written as. -/
theorem adjacent?_object {tag content : String} (hne : tag ≠ content) (t : String) (c : Json) :
    adjacent? tag content (.object [(tag, .string t), (content, c)]) = some (t, c) := by
  unfold adjacent?
  rw [members?_object _ (by simpa using hne)]
  simp [raw?_head, raw?_tail hne.symm, choice?]

/-- A tag is read from the first member, and the record from the others. -/
theorem tagged?_object {tag : String} {ms : List (String × Json)} (h : ∀ m ∈ ms, m.1 ≠ tag)
    (t : String) : tagged? tag (.object ((tag, .string t) :: ms)) = some (t, .object ms) := by
  have hnone : (ms.filter fun m => m.1 == tag) = [] := by
    rw [List.filter_eq_nil_iff]
    exact fun m hm heq => h m hm (beq_iff_eq.mp heq)
  have hall : (ms.filter fun m => m.1 != tag) = ms := by
    rw [List.filter_eq_self]
    exact fun m hm => bne_iff_ne.mpr (h m hm)
  simp [tagged?, hnone, hall]

/-- Members that may be left out are plain if those that are written are. -/
theorem plain_object {ms : List (Option (String × Json))}
    (h : ∀ o ∈ ms, ∀ m ∈ o, Plain depth m.2) : Plain (depth + 1) (object ms) := by
  refine .object fun m hm => ?_
  obtain ⟨o, ho, hmo⟩ := List.mem_filterMap.mp hm
  exact h o ho m hmo

/-- A member is plain if what is written there is. -/
theorem plain_put {name : String} {a : α} (h : Plain depth (toJson a)) :
    ∀ m ∈ put name a, Plain depth m.2 := by
  rintro m hm
  obtain rfl := Option.some.inj hm
  exact h

/-- A member that may be left out is plain if what is written there is. -/
theorem plain_putSome {name : String} {o : Option α} (h : ∀ a ∈ o, Plain depth (toJson a)) :
    ∀ m ∈ putSome name o, Plain depth m.2 := by
  rintro m hm
  obtain ⟨a, ha, rfl⟩ := Option.map_eq_some_iff.mp hm
  exact h a ha

end Record

/-! ## Parts of records -/

/-- A text is read as it was written. -/
theorem read_string (s : String) : ofJson? (toJson s) = some s := rfl

/-- So is a truth value. -/
theorem read_bool (b : Bool) : ofJson? (toJson b) = some b := rfl

/-- So is an id, whatever it stands for. -/
theorem read_id {kind : IdKind} (id : Id kind) : ofJson? (toJson id) = some id := rfl

/-- The name of a kind stands for this kind alone. -/
theorem read_kind (kind : Kind) : ofJson? (toJson kind) = some kind := Kind.ofName?_name kind

/-- The name of a ref stands for this ref alone. -/
theorem read_ref (r : Ref) : ofJson? (toJson r) = some r := by
  cases r <;> rfl

/-- An integer is read if it fits a word with sign. -/
theorem read_int {n : Int} (h : Number.isInt64 n = true) : ofJson? (toJson n) = some n := by
  have hrange : Number.leastInt64 ≤ n ∧ n ≤ Number.largestInt64 := of_decide_eq_true h
  show (if Number.leastInt64 ≤ n ∧ n ≤ Number.largestInt64 then some n else none) = _
  rw [if_pos hrange]

/-- A count is read if it fits a word. -/
theorem read_nat {n : Nat} (h : n ≤ Number.largestNat64) : ofJson? (toJson n) = some n := by
  have hrange : (0 : Int) ≤ n ∧ (n : Int) ≤ Number.largestNat64 :=
    ⟨Int.natCast_nonneg n, Int.ofNat_le.mpr h⟩
  show (if (0 : Int) ≤ n ∧ (n : Int) ≤ Number.largestNat64 then some (n : Int) else none).map
    Int.toNat = _
  rw [if_pos hrange]
  rfl

/-- Instants are read from records just if they are regular. -/
theorem read_instant_iff {t : Instant} : ofJson? (toJson t) = some t ↔ t.Regular := by
  show (some (Time.Rfc3339.write t)).bind Time.Rfc3339.readLoose? = _ ↔ _
  rw [Option.bind_some]
  exact ⟨Time.Rfc3339.regular_of_readLoose?, Time.Rfc3339.readLoose?_write⟩

/-- The id of a version is read if it fits its hexadecimal digits. -/
theorem read_versionId {v : VersionId} (h : v.Fits) : ofJson? (toJson v) = some v := by
  show (some v.toText).bind VersionId.read? = _
  rw [Option.bind_some, VersionId.read?_toText h]

/-- What is not null is read as something. -/
theorem ofJson?_option {j : Json} (h : j ≠ .null) :
    (ofJson? j : Option (Option α)) = (ofJson? j : Option α).map some := by
  cases j
  case null => contradiction
  all_goals rfl

/-- What may be missing is told from what is there, as that is never written as null. -/
theorem read_option {o : Option α} (h : ∀ a ∈ o, ofJson? (toJson a) = some a)
    (hpresent : ∀ a : α, toJson a ≠ .null) : ofJson? (toJson o) = some o := by
  cases o with
  | none => rfl
  | some a =>
    show (ofJson? (toJson a) : Option (Option α)) = some (some a)
    rw [ofJson?_option (hpresent a), h a rfl, Option.map_some]

/-- An id that may be missing is read as it was written. -/
theorem read_optionalId {kind : IdKind} (o : Option (Id kind)) : ofJson? (toJson o) = some o :=
  read_option (fun id _ => read_id id) fun _ => Json.noConfusion

/-- A list is read if its elements are. -/
theorem read_list {as : List α} (h : ∀ a ∈ as, ofJson? (toJson a) = some a) :
    ofJson? (toJson as) = some as := by
  show (as.map toJson).mapM ofJson? = some as
  induction as with
  | nil => rfl
  | cons a as ih =>
    rw [List.map_cons, List.mapM_cons, h a List.mem_cons_self,
      ih fun b hb => h b (List.mem_cons_of_mem _ hb)]
    rfl

/-- Texts are plain. -/
theorem plain_string (s : String) : Plain depth (toJson s) := .string s

/-- Truth values are plain. -/
theorem plain_bool (b : Bool) : Plain depth (toJson b) := .bool b

/-- Ids are plain, for they are texts. -/
theorem plain_id {kind : IdKind} (id : Id kind) : Plain depth (toJson id) := .string _

/-- An integer that fits a word is plain. -/
theorem plain_int {n : Int} (h : Number.isInt64 n = true) : Plain depth (toJson n) := by
  have hrange := of_decide_eq_true h
  unfold Number.leastInt64 Number.largestInt64 at hrange
  refine .whole (decide_eq_true ?_)
  unfold Number.leastInt64 Number.largestNat64
  omega

/-- So is a count that fits one. -/
theorem plain_nat {n : Nat} (h : n ≤ Number.largestNat64) : Plain depth (toJson n) := by
  unfold Number.largestNat64 at h
  refine .whole (decide_eq_true ?_)
  unfold Number.leastInt64 Number.largestNat64
  omega

/-- A value that may be missing is plain if it is whenever it is there. -/
theorem plain_option {o : Option α} (h : ∀ a ∈ o, Plain depth (toJson a)) :
    Plain depth (toJson o) := by
  cases o with
  | none => exact .null
  | some a => exact h a rfl

/-- An id that may be missing is plain. -/
theorem plain_optionalId {kind : IdKind} (o : Option (Id kind)) : Plain depth (toJson o) :=
  plain_option fun id _ => plain_id id

/-- A list is one container around its elements. -/
theorem plain_list {as : List α} (h : ∀ a ∈ as, Plain depth (toJson a)) :
    Plain (depth + 1) (toJson as) :=
  .array (List.forall_mem_map.mpr h)

/-! ## Values -/

/-- An integer of 64 bits, a regular instant, or a value of another kind. -/
structure Value.Fits (v : Value) : Prop where
  integer : ∀ n ∈ v.integer?, Number.isInt64 n = true
  dateTime : ∀ t ∈ v.dateTime?, t.Regular

instance (v : Value) : Decidable v.Fits :=
  decidable_of_iff ((∀ n ∈ v.integer?, Number.isInt64 n = true) ∧ ∀ t ∈ v.dateTime?, t.Regular)
    ⟨fun h => ⟨h.1, h.2⟩, fun h => ⟨h.1, h.2⟩⟩

/-- **A value is read** with the kind that it was written with. -/
theorem Value.Fits.read {v : Value} (h : v.Fits) : ofJson? (toJson v) = some v := by
  cases v with
  | integer n =>
    show (Record.adjacent? "kind" "value"
      (.object [("kind", .string Kind.integer.name), ("value", toJson n)])).bind _ = _
    rw [Record.adjacent?_object (by decide)]
    simp only [Option.bind_some, Kind.ofName?_name, Option.bind_eq_bind, read_int (h.integer n rfl)]
    rfl
  | dateTime t =>
    show (Record.adjacent? "kind" "value"
      (.object [("kind", .string Kind.dateTime.name), ("value", toJson t)])).bind _ = _
    rw [Record.adjacent?_object (by decide)]
    simp only [Option.bind_some, Kind.ofName?_name, Option.bind_eq_bind,
      read_instant_iff.mpr (h.dateTime t rfl)]
    rfl
  | _ => rfl

/-- A value is written as an object with its kind and its raw form. -/
theorem Value.Fits.plain {v : Value} (h : v.Fits) : Plain (depth + 1) (toJson v) := by
  refine .object (List.forall_mem_cons.mpr ⟨.string _, List.forall_mem_singleton.mpr ?_⟩)
  cases v with
  | integer n => exact plain_int (h.integer n rfl)
  | bool b => exact .bool b
  | checkbox b => exact .bool b
  | _ => exact .string _

def Values.Fits (vs : Values) : Prop := ∀ v ∈ vs.elements, v.Fits

instance (vs : Values) : Decidable vs.Fits :=
  inferInstanceAs (Decidable (∀ v ∈ vs.elements, v.Fits))

/-- Values are read with the kind that they have in common. -/
theorem Values.Fits.read {vs : Values} (h : vs.Fits) : ofJson? (toJson vs) = some vs := by
  have helements := read_list fun v hv => (h v hv).read
  show (members? _ (.object _)).bind _ = _
  rw [Record.members?_object _ (by simp)]
  simp [Members.required, Members.withDefault, Record.raw?_head, Record.raw?_tail, read_kind,
    helements]

/-- Values are an object around a list of such objects. -/
theorem Values.Fits.plain {vs : Values} (h : vs.Fits) : Plain (depth + 3) (toJson vs) := by
  have helements : Plain (depth + 2) (toJson vs.elements) := plain_list fun v hv => (h v hv).plain
  exact .object (List.forall_mem_cons.mpr ⟨.string _, List.forall_mem_singleton.mpr helements⟩)

/-! ## Items and versions -/

/-- A principal is read with its kind. -/
theorem Principal.read (p : Principal) : ofJson? (toJson p) = some p := by
  cases p with
  | user id =>
    show (Record.adjacent? "type" "id"
      (.object [("type", .string "user"), ("id", toJson id)])).bind _ = _
    rw [Record.adjacent?_object (by decide)]
    rfl
  | integration id =>
    show (Record.adjacent? "type" "id"
      (.object [("type", .string "integration"), ("id", toJson id)])).bind _ = _
    rw [Record.adjacent?_object (by decide)]
    rfl

/-- A principal is never written as nothing. -/
theorem Principal.present (p : Principal) : toJson p ≠ .null := by
  cases p <;> exact Json.noConfusion

/-- A principal is an object of two texts. -/
theorem Principal.plain (p : Principal) : Plain (depth + 1) (toJson p) := by
  cases p <;>
    exact .object (List.forall_mem_cons.mpr ⟨.string _, List.forall_mem_singleton.mpr (plain_id _)⟩)

def ItemField.Fits (f : ItemField) : Prop := f.value.Fits

instance (f : ItemField) : Decidable f.Fits := inferInstanceAs (Decidable f.value.Fits)

/-- A field of an item is read with its instance. -/
theorem ItemField.Fits.read {f : ItemField} (h : f.Fits) : ofJson? (toJson f) = some f := by
  have hvalue := Values.Fits.read h
  obtain ⟨field, key, value, group⟩ := f
  show (members? _ (.object _)).bind _ = _
  rw [Record.members?_object _ (by cases group <;> simp [Record.put, Record.putSome])]
  cases group with
  | none =>
    simp [Members.required, Record.optional_eq, Members.withDefault, Record.put, Record.putSome,
      Record.raw?_head, Record.raw?_tail, Record.raw?_nil, read_id, read_string, hvalue]
  | some group =>
    have hgroup : ofJson? (toJson group) = some (some group) := read_optionalId (some group)
    simp [Members.required, Record.optional_eq, Members.withDefault, Record.put, Record.putSome,
      Record.raw?_head, Record.raw?_tail, read_id, read_string, hvalue, hgroup]

/-- A field of an item is an object around its values. -/
theorem ItemField.Fits.plain {f : ItemField} (h : f.Fits) : Plain (depth + 4) (toJson f) := by
  have hvalue : Plain (depth + 3) (toJson f.value) := Values.Fits.plain h
  refine Record.plain_object ?_
  simp only [List.forall_mem_cons]
  exact ⟨Record.plain_put (plain_id _), Record.plain_put (plain_string _), Record.plain_put hvalue,
    Record.plain_putSome fun id _ => plain_id id, List.forall_mem_nil _⟩

structure Item.Fits (it : Item) : Prop where
  fields : ∀ f ∈ it.fields, f.Fits
  createdAt : it.createdAt.Regular

instance (it : Item) : Decidable it.Fits :=
  decidable_of_iff ((∀ f ∈ it.fields, f.Fits) ∧ it.createdAt.Regular)
    ⟨fun h => ⟨h.1, h.2⟩, fun h => ⟨h.1, h.2⟩⟩

/-- **An item is read** if its values fit. -/
theorem Item.Fits.read {it : Item} (h : it.Fits) : ofJson? (toJson it) = some it := by
  have hfields := read_list fun f hf => (h.fields f hf).read
  have hcreatedAt := read_instant_iff.mpr h.createdAt
  have hupdatedBy := read_option (o := it.updatedBy) (fun p _ => p.read) Principal.present
  show (members? _ (.object _)).bind _ = _
  rw [Record.members?_object _ (by simp)]
  simp [Members.required, Record.optional_eq, Members.withDefault, Record.raw?_head,
    Record.raw?_tail, read_id, read_optionalId, it.createdBy.read, hfields, hcreatedAt, hupdatedBy]

/-- An item is an object around a list of its fields. -/
theorem Item.Fits.plain {it : Item} (h : it.Fits) : Plain (depth + 6) (toJson it) := by
  have hfields : Plain (depth + 5) (toJson it.fields) :=
    plain_list fun f hf => (h.fields f hf).plain
  have hupdatedBy : Plain (depth + 5) (toJson it.updatedBy) := plain_option fun p _ => p.plain
  refine .object ?_
  simp only [List.forall_mem_cons]
  exact ⟨plain_id _, plain_id _, plain_id _, plain_id _, plain_id _, hfields, plain_optionalId _,
    plain_optionalId _, it.createdBy.plain, hupdatedBy, .string _, List.forall_mem_nil _⟩

structure Version.Fits (v : Version) : Prop where
  id : v.id.Fits
  parents : ∀ p ∈ v.parents, p.Fits
  timestamp : v.timestamp.Regular
  item : v.item.Fits

instance (v : Version) : Decidable v.Fits :=
  decidable_of_iff (v.id.Fits ∧ (∀ p ∈ v.parents, p.Fits) ∧ v.timestamp.Regular ∧ v.item.Fits)
    ⟨fun h => ⟨h.1, h.2.1, h.2.2.1, h.2.2.2⟩, fun h => ⟨h.1, h.2, h.3, h.4⟩⟩

/-- **A version is read** if its item and its ids fit. -/
theorem Version.Fits.read {v : Version} (h : v.Fits) : ofJson? (toJson v) = some v := by
  have hparents := read_list fun p hp => read_versionId (h.parents p hp)
  have hrefs : ofJson? (toJson v.refs) = some v.refs := read_list fun r _ => read_ref r
  show (members? _ (.object _)).bind _ = _
  rw [Record.members?_object _ (by simp)]
  simp [Members.required, Members.withDefault, Record.raw?_head, Record.raw?_tail,
    read_versionId h.id, hparents, hrefs, read_instant_iff.mpr h.timestamp, h.item.read]

/-- A version is an object around its item. -/
theorem Version.Fits.plain {v : Version} (h : v.Fits) : Plain (depth + 7) (toJson v) := by
  have hparents : Plain (depth + 6) (toJson v.parents) := plain_list fun p _ => .string _
  have hrefs : Plain (depth + 6) (toJson v.refs) := plain_list fun r _ => .string _
  refine .object ?_
  simp only [List.forall_mem_cons]
  exact ⟨.string _, hparents, hrefs, .string _, h.item.plain, List.forall_mem_nil _⟩

/-! ## Fields and schemas -/

/-- A tag is read with its id, its name and its color. -/
theorem TagOption.read (t : TagOption) : ofJson? (toJson t) = some t := by
  obtain ⟨id, name, color⟩ := t
  show (members? _ (.object _)).bind _ = _
  rw [Record.members?_object _ (by cases color <;> simp [Record.put, Record.putSome])]
  cases color with
  | none =>
    simp [Members.required, Record.optional_eq, Members.withDefault, Record.put, Record.putSome,
      Record.raw?_head, Record.raw?_tail, Record.raw?_nil, read_id, read_string]
  | some color =>
    have hcolor : ofJson? (toJson color) = some (some color) := rfl
    simp [Members.required, Record.optional_eq, Members.withDefault, Record.put, Record.putSome,
      Record.raw?_head, Record.raw?_tail, read_id, read_string, hcolor]

/-- A tag is an object of texts. -/
theorem TagOption.plain (t : TagOption) : Plain (depth + 1) (toJson t) := by
  refine Record.plain_object ?_
  simp only [List.forall_mem_cons]
  exact ⟨Record.plain_put (plain_id _), Record.plain_put (plain_string _),
    Record.plain_putSome fun color _ => plain_string color, List.forall_mem_nil _⟩

/-- The limits of lengths and of integers fit their words. -/
def FieldType.Fits : FieldType → Prop
  | .text max | .textArea max | .markdown max => ∀ n ∈ max, n ≤ Number.largestNat64
  | .integer low high =>
    (∀ n ∈ low, Number.isInt64 n = true) ∧ ∀ n ∈ high, Number.isInt64 n = true
  | _ => True

instance (t : FieldType) : Decidable t.Fits := by
  cases t <;> unfold FieldType.Fits <;> infer_instance

namespace FieldType

/-- A limit of the length is read from the one member that stands for it. -/
theorem read_limit {max : Option Nat} (h : ∀ n ∈ max, n ≤ Number.largestNat64) :
    (members? ["max_length"] (.object [("max_length", toJson max)])).bind
      (fun ms => ms.optional "max_length") = some max := by
  have hmax := read_option (fun n hn => read_nat (h n hn)) fun _ => Json.noConfusion
  rw [Record.members?_object _ (by simp), Option.bind_some, Record.optional_eq]
  exact hmax

/-- The members of a type are read into it. -/
theorem Fits.ofMembers? {t : FieldType} (h : t.Fits) :
    ofMembers? t.kind (.object t.members) = some t := by
  cases t with
  | text max => exact congrArg (Option.map FieldType.text) (read_limit h)
  | textArea max => exact congrArg (Option.map FieldType.textArea) (read_limit h)
  | markdown max => exact congrArg (Option.map FieldType.markdown) (read_limit h)
  | bool | checkbox | url | dateTime | asset => rfl
  | integer low high =>
    have hlow := read_option (fun n hn => read_int (h.1 n hn)) fun _ => Json.noConfusion
    have hhigh := read_option (fun n hn => read_int (h.2 n hn)) fun _ => Json.noConfusion
    simp [kind, members, FieldType.ofMembers?, Record.members?_object, Record.optional_eq,
      Members.withDefault, Record.raw?_head, Record.raw?_tail, hlow, hhigh]
  | select options =>
    have hoptions : ofJson? (toJson options) = some options := read_list fun s _ => read_string s
    simp [kind, members, FieldType.ofMembers?, Record.members?_object, Members.required,
      Record.raw?_head, hoptions]
  | tag tags =>
    have htags : ofJson? (toJson tags) = some tags := read_list fun t _ => t.read
    simp [kind, members, FieldType.ofMembers?, Record.members?_object, Members.required,
      Record.raw?_head, htags]
  | reference model schema corresponding =>
    simp [kind, members, FieldType.ofMembers?, Record.members?_object, Members.required,
      Record.optional_eq, Members.withDefault, Record.raw?_head, Record.raw?_tail, read_id,
      read_optionalId]
  | group g =>
    simp [kind, members, FieldType.ofMembers?, Record.members?_object, Members.required,
      Record.raw?_head, read_id]

/-- **A type of fields is read** if its bounds fit words. -/
theorem Fits.read {t : FieldType} (h : t.Fits) : ofJson? (toJson t) = some t := by
  have htag : ∀ m ∈ t.members, m.1 ≠ "type" := by
    cases t <;> simp [members]
  show (Record.tagged? "type" (.object (("type", .string t.kind.name) :: t.members))).bind _ = _
  rw [Record.tagged?_object htag]
  simp only [Option.bind_some, Kind.ofName?_name, Option.bind_eq_bind, h.ofMembers?]

/-- A type is an object around its settings, of which tags go deepest. -/
theorem Fits.plain {t : FieldType} (h : t.Fits) : Plain (depth + 3) (toJson t) := by
  refine .object (List.forall_mem_cons.mpr ⟨.string _, ?_⟩)
  cases t with
  | text max | textArea max | markdown max =>
    exact List.forall_mem_singleton.mpr (plain_option fun n hn => plain_nat (h n hn))
  | bool | checkbox | url | dateTime | asset => exact List.forall_mem_nil _
  | integer low high =>
    exact List.forall_mem_cons.mpr ⟨plain_option fun n hn => plain_int (h.1 n hn),
      List.forall_mem_singleton.mpr (plain_option fun n hn => plain_int (h.2 n hn))⟩
  | select options =>
    have hoptions : Plain (depth + 2) (toJson options) := plain_list fun s _ => plain_string s
    exact List.forall_mem_singleton.mpr hoptions
  | tag tags =>
    have htags : Plain (depth + 2) (toJson tags) := plain_list fun t _ => t.plain
    exact List.forall_mem_singleton.mpr htags
  | reference model schema corresponding =>
    exact List.forall_mem_cons.mpr ⟨plain_id _, List.forall_mem_cons.mpr ⟨plain_id _,
      List.forall_mem_singleton.mpr (plain_optionalId _)⟩⟩
  | group g => exact List.forall_mem_singleton.mpr (plain_id _)

end FieldType

structure Field.Fits (f : Field) : Prop where
  type : f.type.Fits
  default : ∀ vs ∈ f.default, vs.Fits
  order : Number.leastInt32 ≤ f.order ∧ f.order ≤ Number.largestInt32

instance (f : Field) : Decidable f.Fits :=
  decidable_of_iff (f.type.Fits ∧ (∀ vs ∈ f.default, vs.Fits) ∧
      (Number.leastInt32 ≤ f.order ∧ f.order ≤ Number.largestInt32))
    ⟨fun h => ⟨h.1, h.2.1, h.2.2⟩, fun h => ⟨h.1, h.2, h.3⟩⟩

/-- **A field is read** if its type and its default fit. -/
theorem Field.Fits.read {f : Field} (h : f.Fits) : ofJson? (toJson f) = some f := by
  have hdefault := read_option (fun vs hvs => (h.default vs hvs).read) fun _ => Json.noConfusion
  have horder : (toJson f.order).asInt32? = some f.order := if_pos h.order
  show (members? _ (.object _)).bind _ = _
  rw [Record.members?_object _ (by simp)]
  simp [Members.required, Record.optional_eq, Members.withDefault, readOrder?, Record.raw?_head,
    Record.raw?_tail, read_id, read_string, read_bool, h.type.read, hdefault, horder]

/-- A field is an object around its type and its default. -/
theorem Field.Fits.plain {f : Field} (h : f.Fits) : Plain (depth + 4) (toJson f) := by
  have htype : Plain (depth + 3) (toJson f.type) := h.type.plain
  have hdefault : Plain (depth + 3) (toJson f.default) :=
    plain_option fun vs hvs => (h.default vs hvs).plain
  have horder : Number.isInt64 f.order = true := by
    have hrange := h.order
    unfold Number.leastInt32 Number.largestInt32 at hrange
    refine decide_eq_true ?_
    unfold Number.leastInt64 Number.largestInt64
    omega
  refine .object ?_
  simp only [List.forall_mem_cons]
  exact ⟨plain_id _, plain_string _, plain_string _, plain_string _, htype, plain_bool _,
    plain_bool _, plain_bool _, hdefault, plain_int horder, List.forall_mem_nil _⟩

def Schema.Fits (s : Schema) : Prop := ∀ f ∈ s.fields, f.Fits

instance (s : Schema) : Decidable s.Fits := inferInstanceAs (Decidable (∀ f ∈ s.fields, f.Fits))

/-- **A schema is read** if its fields fit. -/
theorem Schema.Fits.read {s : Schema} (h : s.Fits) : ofJson? (toJson s) = some s := by
  have hfields := read_list fun f hf => (h f hf).read
  show (members? _ (.object _)).bind _ = _
  rw [Record.members?_object _ (by simp)]
  simp [Members.required, Record.optional_eq, Members.withDefault, Record.raw?_head,
    Record.raw?_tail, read_id, read_optionalId, hfields]

/-- A schema is an object around a list of its fields. -/
theorem Schema.Fits.plain {s : Schema} (h : s.Fits) : Plain (depth + 6) (toJson s) := by
  have hfields : Plain (depth + 5) (toJson s.fields) := plain_list fun f hf => (h f hf).plain
  refine .object ?_
  simp only [List.forall_mem_cons]
  exact ⟨plain_id _, plain_id _, plain_id _, hfields, plain_optionalId _, List.forall_mem_nil _⟩

/-! ## Models and groups -/

/-- A model is read, whatever it says. -/
theorem Model.read (m : Model) : ofJson? (toJson m) = some m := by
  show (members? _ (.object _)).bind _ = _
  rw [Record.members?_object _ (by simp)]
  simp [Members.required, Record.optional_eq, Members.withDefault, Record.raw?_head,
    Record.raw?_tail, read_id, read_string, read_optionalId]

/-- A model is an object of texts and truth values. -/
theorem Model.plain (m : Model) : Plain (depth + 1) (toJson m) := by
  refine .object ?_
  simp only [List.forall_mem_cons]
  exact ⟨plain_id _, plain_id _, plain_string _, plain_string _, plain_string _, plain_id _,
    plain_optionalId _, List.forall_mem_nil _⟩

/-- A group is read, whatever it says. -/
theorem Group.read (g : Group) : ofJson? (toJson g) = some g := by
  show (members? _ (.object _)).bind _ = _
  rw [Record.members?_object _ (by simp)]
  simp [Members.required, Members.withDefault, Record.raw?_head, Record.raw?_tail, read_id,
    read_string]

/-- A group is an object of texts. -/
theorem Group.plain (g : Group) : Plain (depth + 1) (toJson g) := by
  refine .object ?_
  simp only [List.forall_mem_cons]
  exact ⟨plain_id _, plain_id _, plain_string _, plain_string _, plain_string _, plain_id _,
    List.forall_mem_nil _⟩

/-! ## Tables -/

/-- A row of the refs is read if the version that it names is. -/
theorem RefRow.read {r : RefRow} (h : r.version.Fits) : ofJson? (toJson r) = some r := by
  show (members? _ (.array _)).bind _ = _
  simp [members?, Members.required, Record.raw?_head, Record.raw?_tail, read_id, read_ref,
    read_versionId h]

/-- A row of the refs is an object of texts. -/
theorem RefRow.plain (r : RefRow) : Plain (depth + 1) (toJson r) := by
  refine .array ?_
  simp only [List.forall_mem_cons]
  exact ⟨plain_id _, .string _, .string _, List.forall_mem_nil _⟩

structure Tables.Fits (t : Tables) : Prop where
  schemas : ∀ s ∈ t.schemas, s.Fits
  versions : ∀ v ∈ t.versions, v.Fits
  refs : ∀ r ∈ t.refs, r.version.Fits

instance (t : Tables) : Decidable t.Fits :=
  decidable_of_iff ((∀ s ∈ t.schemas, s.Fits) ∧ (∀ v ∈ t.versions, v.Fits) ∧
      ∀ r ∈ t.refs, r.version.Fits)
    ⟨fun h => ⟨h.1, h.2.1, h.2.2⟩, fun h => ⟨h.1, h.2, h.3⟩⟩

/-- **All tables are read** if their records fit. -/
theorem Tables.Fits.read {t : Tables} (h : t.Fits) : ofJson? (toJson t) = some t := by
  have hschemas := read_list fun s hs => (h.schemas s hs).read
  have hmodels : ofJson? (toJson t.models) = some t.models := read_list fun m _ => m.read
  have hgroups : ofJson? (toJson t.groups) = some t.groups := read_list fun g _ => g.read
  have hversions := read_list fun v hv => (h.versions v hv).read
  have hrefs := read_list fun r hr => RefRow.read (h.refs r hr)
  show (members? _ (.object _)).bind _ = _
  rw [Record.members?_object _ (by simp)]
  simp [Members.required, Record.raw?_head, Record.raw?_tail, hschemas, hmodels, hgroups, hversions,
    hrefs]

/-- The tables are an object of lists, in which versions go deepest. -/
theorem Tables.Fits.plain {t : Tables} (h : t.Fits) : Plain (depth + 9) (toJson t) := by
  have hschemas : Plain (depth + 8) (toJson t.schemas) :=
    plain_list fun s hs => (h.schemas s hs).plain
  have hmodels : Plain (depth + 8) (toJson t.models) := plain_list fun m _ => m.plain
  have hgroups : Plain (depth + 8) (toJson t.groups) := plain_list fun g _ => g.plain
  have hversions : Plain (depth + 8) (toJson t.versions) :=
    plain_list fun v hv => (h.versions v hv).plain
  have hrefs : Plain (depth + 8) (toJson t.refs) := plain_list fun r _ => r.plain
  refine .object ?_
  simp only [List.forall_mem_cons]
  exact ⟨hschemas, hmodels, hgroups, hversions, hrefs, List.forall_mem_nil _⟩

end ContentStore
