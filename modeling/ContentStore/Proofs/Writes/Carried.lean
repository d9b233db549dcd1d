import ContentStore.Proofs.Catalog.WellFormed
import ContentStore.Proofs.Storage.Records
import ContentStore.Proofs.Writes.Batches

/-!
# Changes that are sent

A change of a field may be written, sent and read before it is made.  What is read is the
change that was written, but for a default of null, which is read as none
(`FieldEdit.Fits.read`, `FieldEdit.carried`).  To the store these are different: null takes
the default of the field away, and none leaves it.

So the change that is read does what the change that was written does, unless that takes a
default away (`FieldEdit.delivered_of_fits`); then the field keeps its default.
-/

namespace ContentStore

open Json (Plain Reads)
open Record (Members members?)
open Tables

/-! ## Reading -/

/-- The description of a mirror is read as it was written. -/
theorem Mirror.read (m : Mirror) : ofJson? (toJson m) = some m := by
  have hname := read_option (o := m.name) (fun s _ => read_string s) fun _ => Json.noConfusion
  show (members? _ (.object _)).bind _ = _
  rw [Record.members?_object _ (by simp)]
  simp [Members.required, Record.optional_eq, Members.withDefault, Record.raw?_head,
    Record.raw?_tail, read_string, read_bool, hname]

/-- It is an object of texts and truth values. -/
theorem Mirror.plain {depth : Nat} (m : Mirror) : Plain (depth + 1) (toJson m) := by
  have hname : Plain depth (toJson m.name) := plain_option fun s _ => plain_string s
  refine .object ?_
  simp only [List.forall_mem_cons]
  exact ⟨plain_string _, hname, plain_string _, plain_bool _, List.forall_mem_nil _⟩

/-- Of a raw value that may be missing, null is read as missing. -/
theorem read_optionalRaw (o : Option Json) :
    ofJson? (toJson o) = some (o.filter fun raw => !raw.isNull) := by
  cases o with
  | none => rfl
  | some raw => cases raw <;> rfl

namespace FieldEdit

variable {e : FieldEdit}

/-- The numbers of the change fit the words they are read into. -/
structure Fits (e : FieldEdit) : Prop where
  type : ∀ t ∈ e.type, t.Fits
  order : ∀ n ∈ e.order, Number.leastInt32 ≤ n ∧ n ≤ Number.largestInt32

/-- The change as a reader takes it: a default of null is none. -/
def carried (e : FieldEdit) : FieldEdit :=
  { e with default := e.default.filter fun raw => !raw.isNull }

/-- **A written change is read**, but for a default of null. -/
theorem Fits.read (h : e.Fits) : ofJson? (toJson e) = some e.carried := by
  have htext : ∀ o : Option String, ofJson? (toJson o) = some o := fun o =>
    read_option (fun s _ => read_string s) fun _ => Json.noConfusion
  have hbool : ∀ o : Option Bool, ofJson? (toJson o) = some o := fun o =>
    read_option (fun b _ => read_bool b) fun _ => Json.noConfusion
  have htype := read_option (fun t ht => (h.type t ht).read) fun _ => Json.noConfusion
  have hmirror := read_option (o := e.mirror) (fun m _ => m.read) fun _ => Json.noConfusion
  have horder : ∀ ms : Members, ms.raw? "order" = some (toJson e.order) →
      readNewOrder? ms = some e.order := by
    intro ms hraw
    unfold readNewOrder?
    rw [hraw]
    cases hn : e.order with
    | none => rfl
    | some n =>
      have hfits : (toJson n).asInt32? = some n := if_pos (h.order n hn)
      show (toJson n).asInt32?.map some = _
      rw [hfits, Option.map_some]
  show (members? _ (.object _)).bind _ = _
  rw [Record.members?_object _ (by simp), Option.bind_some, horder _ (by
    simp [Record.raw?_head, Record.raw?_tail])]
  simp [Members.required, Record.optional_eq, Members.withDefault, Record.raw?_head,
    Record.raw?_tail, read_id, htext, hbool, htype, hmirror, read_optionalRaw, carried]

/-- The text of a change is read if that of its default is. -/
theorem Fits.reads {depth : Nat} (h : e.Fits)
    (hdefault : ∀ raw ∈ e.default, Reads (depth + 3) raw) : Reads (depth + 4) (toJson e) := by
  have htext : ∀ o : Option String, Reads (depth + 3) (toJson o) := fun o =>
    (plain_option fun s _ => plain_string s).reads
  have hbool : ∀ o : Option Bool, Reads (depth + 3) (toJson o) := fun o =>
    (plain_option fun b _ => plain_bool b).reads
  have htype : Reads (depth + 3) (toJson e.type) :=
    (plain_option fun t ht => (h.type t ht).plain).reads
  have horder : Reads (depth + 3) (toJson e.order) := by
    refine (plain_option fun n hn => plain_int (decide_eq_true ?_)).reads
    have hrange := h.order n hn
    unfold Number.leastInt32 Number.largestInt32 at hrange
    unfold Number.leastInt64 Number.largestInt64
    omega
  have hmirror : Reads (depth + 3) (toJson e.mirror) := (plain_option fun m _ => m.plain).reads
  have hraw : Reads (depth + 3) (toJson e.default) := by
    cases hd : e.default with
    | none => exact Json.reads_null
    | some raw => exact hdefault raw hd
  refine Json.reads_object ?_
  simp only [List.forall_mem_cons]
  exact ⟨(plain_id _).reads, htext _, htext _, htext _, htype, hbool _, hbool _, hbool _, hbool _,
    hraw, horder, hmirror, List.forall_mem_nil _⟩

/-! ## Changes of defaults -/

/-- The change takes the default of a stored field away. -/
def Clears (e : FieldEdit) (t : Tables) (id : SchemaId) (vs : Values) : Prop :=
  e.default = some .null ∧
    ∃ S f, t.schema id = .ok S ∧ S.field? e.field = some f ∧ f.default = some vs

/-- A change that does not set the default to null is read as it is. -/
theorem carried_of_ne_null (h : e.default ≠ some .null) : e.carried = e := by
  have hdefault : e.default.filter (fun raw => !raw.isNull) = e.default := by
    cases hd : e.default with
    | none => rfl
    | some raw =>
      cases raw with
      | null => exact (h hd).elim
      | _ => rfl
  rw [carried, hdefault]

/-- A change that does is read as one that leaves the default. -/
theorem carried_of_null (h : e.default = some .null) :
    e.carried = { e with default := none } := by
  rw [carried, h]
  rfl

end FieldEdit

namespace Tables

variable {t t' : Tables} {s s' : Schema} {e : FieldEdit} {id : SchemaId}

/-- A field without a default has none to lose. -/
theorem editField_carried {current : Field} (h : e.default = some .null → current.default = none) :
    t.editField s current e.carried = t.editField s current e := by
  by_cases hnull : e.default = some .null
  · rw [FieldEdit.carried_of_null hnull]
    unfold editField
    dsimp only
    refine bind_congr_ok fun type _ => ?_
    split
    · rfl
    · refine bind_congr_ok fun multiple _ => ?_
      rw [hnull]
      unfold newDefault defaultOf
      dsimp only
      rw [h hnull]
      rfl
  · rw [FieldEdit.carried_of_ne_null hnull]

/-- The tables are changed alike unless a default is taken away. -/
theorem updateFields_carried (h : ∀ vs, ¬ e.Clears t id vs) :
    t.updateFields id [e.carried] = t.updateFields id [e] := by
  unfold updateFields
  refine bind_congr_ok fun S hS => ?_
  have happly : t.applyEdit S e.carried = t.applyEdit S e := by
    have hfield : S.field? e.carried.field = S.field? e.field := rfl
    unfold applyEdit
    rw [hfield]
    cases hf : S.field? e.field with
    | none => rfl
    | some current =>
      have hedit : t.editField S current e.carried = t.editField S current e := by
        refine editField_carried fun hnull => Option.eq_none_iff_forall_ne_some.mpr ?_
        exact fun vs hvs => h vs ⟨hnull, S, current, hS, hf, hvs⟩
      dsimp only
      rw [hedit]
      rfl
  unfold applyEdits
  rw [happly]
  rfl

/-- What becomes of the default of a field. -/
theorem default_of_editField {current f : Field} (h : t.editField s current e = .ok f) :
    (e.default = none → f.default = current.default) ∧
      (e.default = some .null → f.default = none) := by
  unfold editField at h
  obtain ⟨type, -, h⟩ := bind_eq_ok.mp h
  split at h
  · cases h
  · obtain ⟨multiple, -, h⟩ := bind_eq_ok.mp h
    obtain ⟨default, hdefault, h⟩ := bind_eq_ok.mp h
    obtain ⟨_, -, h⟩ := bind_eq_ok.mp h
    cases h
    constructor
    · intro hnone
      rw [hnone] at hdefault
      exact (Except.ok.inj hdefault).symm
    · intro hnull
      rw [hnull] at hdefault
      exact (Except.ok.inj hdefault).symm

/-- The schema has a field of this id with this default. -/
def Defaults (S : Schema) (field : FieldId) (d : Option Values) : Prop :=
  ∃ f ∈ S.fields, f.id = field ∧ f.default = d

/-- A new description of a mirror leaves all defaults. -/
theorem Defaults.describeMirror {field mirror : FieldId} {d : Option Values} {m : Mirror}
    (h : Defaults s field d) (hdescribe : describeMirror s mirror m = .ok s') :
    Defaults s' field d := by
  obtain ⟨current, hcurrent, -, rfl⟩ := describeMirror_eq_ok hdescribe
  obtain ⟨before, after, hfields, hset⟩ := Schema.setField_split hcurrent
  obtain ⟨f, hf, hid, hd⟩ := h
  rw [hfields, List.mem_append, List.mem_cons] at hf
  rcases hf with hf | rfl | hf
  · exact ⟨f, hset _ ▸ List.mem_append_left _ hf, hid, hd⟩
  · exact ⟨m.applied f, hset _ ▸ List.mem_append_right _ List.mem_cons_self, hid, hd⟩
  · exact ⟨f, hset _ ▸ List.mem_append_right _ (List.mem_cons_of_mem _ hf), hid, hd⟩

/-- So does renumbering the fields. -/
theorem Defaults.normalizeOrder {field : FieldId} {d : Option Values} (h : Defaults s field d) :
    Defaults s.normalizeOrder field d := by
  obtain ⟨f, hf, hid, hd⟩ := h
  obtain ⟨n, hn⟩ := (Schema.mem_normalizeOrder f).mpr ⟨f.order, hf⟩
  exact ⟨_, hn, hid, hd⟩

/-- One change of a well-formed schema leaves it so, with the default of the changed field. -/
theorem defaults_of_applyEdit (hs : s.WellFormed) (h : t.applyEdit s e = .ok (t', s')) :
    s'.WellFormed ∧ ∃ current g, s.field? e.field = some current ∧
      t.editField s current e = .ok g ∧ Defaults s' e.field g.default := by
  obtain ⟨g, s₁, hedited, hmirror⟩ := applyEdit_steps h
  have hs₁ := wellFormed_edited hs hedited
  have hgid := hedited.id_eq
  obtain @⟨current, f, g, s₁, hcurrent, hf, hkey, htitle⟩ := hedited
  have hdefault : g.default = f.default := by
    rcases hkey with rfl | ⟨key, -, -, rfl⟩
    · rfl
    · rfl
  have hg : Defaults s₁ e.field f.default := by
    obtain ⟨title, rfl⟩ := editTitle_eq htitle
    obtain ⟨before, after, -, hset⟩ := Schema.setField_split hcurrent
    refine ⟨g, ?_, hgid, hdefault⟩
    show g ∈ (s.setField g.id g).fields
    rw [hgid, hset]
    exact List.mem_append_right _ List.mem_cons_self
  have hboth : s'.WellFormed ∧ Defaults s' e.field f.default := by
    rcases editMirror_steps hmirror with ⟨-, rfl | ⟨id, m, hdescribe⟩⟩ | ⟨rfl, -⟩
    · exact ⟨hs₁, hg⟩
    · exact ⟨wellFormed_describeMirror hs₁ hdescribe, hg.describeMirror hdescribe⟩
    · exact ⟨hs₁, hg⟩
  exact ⟨hboth.1, current, f, hcurrent, hf, hboth.2⟩

/-- A field of a stored schema. -/
def Stores (t : Tables) (id : SchemaId) (f : Field) : Prop :=
  ∃ S, t.schema id = .ok S ∧ S.field? f.id = some f

/-- **A changed field is stored**, with the default that the change gives it. -/
theorem stores_of_updateFields {fields : List Field} (hall : ∀ S ∈ t.schemas, S.WellFormed)
    (h : t.updateFields id [e] = .ok (t', fields)) :
    ∃ S current g f, t.schema id = .ok S ∧ S.field? e.field = some current ∧
      t.editField S current e = .ok g ∧ fields = [f] ∧ t'.Stores id f ∧ f.default = g.default := by
  unfold updateFields at h
  obtain ⟨S, hS, h⟩ := bind_eq_ok.mp h
  obtain ⟨⟨t₁, s₁⟩, hedits, h⟩ := bind_eq_ok.mp h
  obtain ⟨⟨t₂, s₂⟩, hedit, hnone⟩ := bind_eq_ok.mp hedits
  cases hnone
  obtain ⟨hmem, hid⟩ := mem_of_schema hS
  obtain ⟨hs₁, current, g, hcurrent, hg, hdefaults⟩ := defaults_of_applyEdit (hall S hmem) hedit
  have hid₁ : s₁.id = S.id := (continues_of_applyEdit hedit).1.id
  dsimp only at h
  -- the schema that is saved in the end
  obtain ⟨s', hs', hid', hdefaults', hsaved⟩ : ∃ s' : Schema, s'.WellFormed ∧ s'.id = S.id ∧
      Defaults s' e.field g.default ∧
      (if [e].any fun e => e.order.isSome then s₁.normalizeOrder else s₁) = s' := by
    split
    · exact ⟨_, Schema.wellFormed_normalizeOrder hs₁, hid₁, hdefaults.normalizeOrder, rfl⟩
    · exact ⟨_, hs₁, hid₁, hdefaults, rfl⟩
  rw [hsaved] at h
  obtain ⟨fields', hfields, h⟩ := bind_eq_ok.mp h
  cases h
  obtain ⟨f, hf, hfid, hd⟩ := hdefaults'
  have hfound : s'.field? e.field = some f := hfid ▸ find?_of_nodup hs'.ids_distinct hf
  have hone : fieldsOf s' [e.field] = .ok [f] := by
    rw [fieldsOf, List.mapM_cons, hfound]
    rfl
  obtain rfl : [f] = fields := Except.ok.inj (hone.symm.trans hfields)
  refine ⟨S, current, g, f, hS, hcurrent, hg, rfl, ⟨s', ?_, hfid ▸ hfound⟩, hd⟩
  rw [← hid, ← hid']
  exact t₁.schema_saveSchema_self s'

end Tables

namespace Store

variable {ctx : Context} {id : SchemaId} {s s₁ : Store} {e e' : FieldEdit} {f : Field}

/-- Changes that do the same to the tables of a store are the same calls in it. -/
theorem maintaining_congr {α : Type} {g g' : Tables → Except Error (Tables × α)}
    (h : g' s.tables = g s.tables) :
    maintaining ctx id (Write.step g') s = maintaining ctx id (Write.step g) s := by
  have htransact : transact ctx (Write.step g') s = transact ctx (Write.step g) s := by
    have htables : s.polled.opened.tables = s.tables := rfl
    rw [transact_eq (Write.quiet_step g').grows, transact_eq (Write.quiet_step g).grows,
      Write.run_step, Write.run_step, htables, h]
  unfold maintaining
  rw [run_bind, run_bind]
  change (liftM (s.tables.schema id) >>= _ : Operation α) s =
    (liftM (s.tables.schema id) >>= _ : Operation α) s
  cases s.tables.schema id with
  | error x => rfl
  | ok S =>
    change (liftM (ctx.operator.checkMaintain S.workspace) >>= _ : Operation α) s =
      (liftM (ctx.operator.checkMaintain S.workspace) >>= _ : Operation α) s
    cases ctx.operator.checkMaintain S.workspace with
    | error x => rfl
    | ok _ => exact htransact

/-- A change of one field that does the same to the tables is the same call. -/
theorem updateField_congr (h : s.tables.updateFields id [e'] = s.tables.updateFields id [e]) :
    updateField ctx id e' s = updateField ctx id e s := by
  have hall : updateFields ctx id [e'] s = updateFields ctx id [e] s := maintaining_congr h
  unfold updateField
  rw [run_bind, run_bind, hall]

/-- A field that a call has changed is stored so. -/
theorem updateFields_of_updateField (h : updateField ctx id e s = (.ok f, s₁)) :
    s.tables.updateFields id [e] = .ok (s₁.tables, [f]) := by
  unfold updateField at h
  obtain ⟨fields, u, hrun, h⟩ := gives_bind.mp h
  obtain ⟨-, -, -, hupdate, -⟩ := (reaches_changedFields id [e]).of_ok (congrArg Prod.fst hrun)
  obtain ⟨g, rfl⟩ := List.length_eq_one_iff.mp (length_of_updateFields hupdate)
  cases h
  rw [hrun] at hupdate
  exact hupdate

/-- What becomes of the default of a field that a call has changed. -/
theorem default_of_updateField {S : Schema} {current : Field} (hs : s.Reachable)
    (hS : s.tables.schema id = .ok S) (hcurrent : S.field? e.field = some current)
    (h : updateField ctx id e s = (.ok f, s₁)) :
    ((e.default = none → f.default = current.default) ∧
      (e.default = some .null → f.default = none)) ∧ s₁.tables.Stores id f := by
  obtain ⟨S', current', g, f', hS', hcurrent', hg, hf', hstores, hdefault⟩ :=
    stores_of_updateFields (Tables.lasting_wellFormed.reachable hs) (updateFields_of_updateField h)
  obtain rfl : S = S' := Except.ok.inj (hS.symm.trans hS')
  obtain rfl : current = current' := Option.some.inj (hcurrent.symm.trans hcurrent')
  obtain rfl : f = f' := List.singleton_inj.mp hf'
  rw [hdefault]
  exact ⟨default_of_editField hg, hstores⟩

end Store

namespace FieldEdit

open Store

variable {e : FieldEdit}

/-- What becomes of a change that is sent.  It is read, and made as it was meant, but a
default that it was to take away is left. -/
structure Delivered (e : FieldEdit) : Prop where
  read : ofJson? (toJson e) = some e.carried
  /-- The text is read as well, if the default is plain: it holds null, truth values, texts,
  whole numbers of a word, and at most 126 containers of these inside one another. -/
  readPlain : (∀ raw ∈ e.default, Plain 126 raw) →
    (Json.read? (toJson e).compact).bind ofJson? = some e.carried
  /-- A default may also hold binary numbers.  The text is then read if that of the default
  is, which is not so for all of them (`default_not_read`). -/
  readText : (∀ raw ∈ e.default, Reads 126 raw) →
    (Json.read? (toJson e).compact).bind ofJson? = some e.carried
  same : ∀ ctx id s, (∀ vs, ¬ e.Clears s.tables id vs) →
    updateField ctx id e.carried s = updateField ctx id e s
  taken : ∀ ctx id s vs, s.Reachable → e.Clears s.tables id vs → ∀ f s₁,
    updateField ctx id e s = (.ok f, s₁) → f.default = none ∧ s₁.tables.Stores id f
  left : ∀ ctx id s vs, s.Reachable → e.Clears s.tables id vs → ∀ f s₁,
    updateField ctx id e.carried s = (.ok f, s₁) → f.default = some vs ∧ s₁.tables.Stores id f
  exact : ∀ ctx id s, s.Reachable → ∀ f s₁, updateField ctx id e s = (.ok f, s₁) →
    (updateField ctx id e.carried s = (.ok f, s₁) ↔ ∀ vs, ¬ e.Clears s.tables id vs)

/-- **A change is delivered**: sending it changes nothing, unless it takes a default away. -/
theorem delivered_of_fits (h : e.Fits) : e.Delivered := by
  have hsame : ∀ ctx id s, (∀ vs, ¬ e.Clears s.tables id vs) →
      updateField ctx id e.carried s = updateField ctx id e s :=
    fun ctx id s hkeeps => updateField_congr (updateFields_carried hkeeps)
  have htaken : ∀ ctx id s vs, s.Reachable → e.Clears s.tables id vs → ∀ f s₁,
      updateField ctx id e s = (.ok f, s₁) → f.default = none ∧ s₁.tables.Stores id f := by
    intro ctx id s vs hs ⟨hnull, S, current, hS, hcurrent, _⟩ f s₁ hupdate
    obtain ⟨⟨-, hgone⟩, hstores⟩ := default_of_updateField hs hS hcurrent hupdate
    exact ⟨hgone hnull, hstores⟩
  have hleft : ∀ ctx id s vs, s.Reachable → e.Clears s.tables id vs → ∀ f s₁,
      updateField ctx id e.carried s = (.ok f, s₁) →
        f.default = some vs ∧ s₁.tables.Stores id f := by
    intro ctx id s vs hs ⟨hnull, S, current, hS, hcurrent, hvs⟩ f s₁ hupdate
    have hnone : e.carried.default = none := by rw [carried_of_null hnull]
    obtain ⟨⟨hstays, -⟩, hstores⟩ :=
      default_of_updateField (e := e.carried) hs hS hcurrent hupdate
    exact ⟨(hstays hnone).trans hvs, hstores⟩
  have hread : (∀ raw ∈ e.default, Reads 126 raw) →
      (Json.read? (toJson e).compact).bind ofJson? = some e.carried := fun hdefault => by
    rw [Json.read?_of_reads (h.reads hdefault), Option.bind_some, h.read]
  refine ⟨h.read, fun hplain => hread fun raw hraw => (hplain raw hraw).reads, hread, hsame,
    htaken, hleft, fun ctx id s hs f s₁ hupdate => ?_⟩
  · constructor
    · intro hcarried vs hclears
      have hnone := (htaken ctx id s vs hs hclears f s₁ hupdate).1
      have hsome := (hleft ctx id s vs hs hclears f s₁ hcarried).1
      rw [hnone] at hsome
      cases hsome
    · intro hkeeps
      rw [hsame ctx id s hkeeps, hupdate]

/-- Books get no title any more unless one is given, and titles have a limit. -/
def untitle : FieldEdit :=
  { ofField (.ofSerial 2) with type := some (.text (some 40)), default := some .null }

/-- The store of books. -/
def books : Store :=
  Call.afterAll (.maintainer ⟨"library"⟩) shelf (blank .standard ⟨⟨0, 0⟩, 1⟩ ⟨0⟩ .silent)

/-- The store of books is made by calls. -/
theorem reachable_books : books.Reachable :=
  (reachable_blank _ _ _ _).evolves (evolves_afterAll _ _ _)

/-- A change of a title is read from its text. -/
theorem delivered_untitle : untitle.Fits ∧ untitle.Delivered ∧
    (Json.read? (toJson untitle).compact).bind ofJson? = some untitle.carried := by
  have hfits : untitle.Fits := ⟨by decide, by decide⟩
  have hdelivered := delivered_of_fits hfits
  refine ⟨hfits, hdelivered, hdelivered.readPlain fun raw hraw => ?_⟩
  obtain rfl : _ = raw := Option.some.inj hraw
  exact .null

/-- **A default that is taken away comes back on the way**: the change that is read leaves
the books with the title that they had. -/
theorem default_not_taken : books.Reachable ∧
    ofJson? (toJson untitle) = some untitle.carried ∧
    (updateField (.maintainer ⟨"library"⟩) (.ofSerial 0) untitle books).1.toOption.map
      Field.default = some none ∧
    (updateField (.maintainer ⟨"library"⟩) (.ofSerial 0) untitle.carried books).1.toOption.map
      Field.default = some (some ⟨.text, [.text "untitled"]⟩) :=
  ⟨reachable_books, rfl, by decide +kernel, by decide +kernel⟩

/-- The mass of an electron in kilograms: what `9.109e-31` is read as. -/
def electronMass : Number.Binary64 := ⟨false, 0x1279a9c8073d8c, -152⟩

/-- Books without a title get the mass of an electron for one. -/
def weigh : FieldEdit :=
  { ofField (.ofSerial 2) with default := some (.number (.real electronMass)) }

/-- **A default may be read as another number**: from its text the mass of an electron is
read as a lighter one, and books that would get the one as their title get the other. -/
theorem default_not_read : books.Reachable ∧ weigh.Fits ∧
    ¬ Reads 126 (.number (.real electronMass)) ∧
    (updateField (.maintainer ⟨"library"⟩) (.ofSerial 0) weigh books).1.toOption.map
      Field.default = some (some ⟨.text, [.text "9.109000000000001e-31"]⟩) ∧
    (((Json.read? (toJson weigh).compact).bind ofJson?).bind fun read =>
      (updateField (.maintainer ⟨"library"⟩) (.ofSerial 0) read books).1.toOption.map
        Field.default) = some (some ⟨.text, [.text "9.109e-31"]⟩) := by
  have hfits : weigh.Fits := ⟨by decide, by decide⟩
  have hwritten : (updateField (.maintainer ⟨"library"⟩) (.ofSerial 0) weigh
      books).1.toOption.map Field.default =
        some (some ⟨.text, [.text "9.109000000000001e-31"]⟩) := by decide +kernel
  have hread : (((Json.read? (toJson weigh).compact).bind ofJson?).bind fun read =>
      (updateField (.maintainer ⟨"library"⟩) (.ofSerial 0) read books).1.toOption.map
        Field.default) = some (some ⟨.text, [.text "9.109e-31"]⟩) := by decide +kernel
  refine ⟨reachable_books, hfits, fun hreads => ?_, hwritten, hread⟩
  -- otherwise the change that is read would be the one that was written
  have hsame := (delivered_of_fits hfits).readText fun raw hraw => by
    obtain rfl : _ = raw := Option.some.inj hraw
    exact hreads
  rw [hsame] at hread
  have hdefault := hwritten.symm.trans hread
  revert hdefault
  decide

end FieldEdit

end ContentStore
