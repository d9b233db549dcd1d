import ContentStore.Proofs.Values.Order
import ContentStore.Query.Basic
import Mathlib.Data.List.Nodup

/-!
# What a query selects

A query asks for the candidates that pass all its tests (`Query.Asks`), and wants them in
an order (`Query.Precedes`): by the value it sorts by, a missing one being the smallest,
and where these are the same by item id, whichever way the sort goes.  If the values are
of one kind, as those of one field are, the order is total, since ids are distinct.  Then
there is but one list of these candidates in this order (`eq_sortBy_iff`), and it is what
the query selects; the order in which the candidates came in leaves no trace.
-/

namespace ContentStore

open Time (Instant)

/-- One text stands somewhere in the other. -/
theorem Text.listContains_iff {needle cs : List Char} :
    listContains needle cs = true ↔ needle <:+: cs := by
  induction cs with
  | nil => rw [listContains, List.isEmpty_iff, List.infix_nil]
  | cons c cs ih =>
    rw [listContains, Bool.or_eq_true, List.isPrefixOf_iff_prefix, ih, List.infix_cons_iff]

/-- Options are in order with their values, after the missing one. -/
instance strictOrderOption {α : Type} [LT α] [IsStrictOrder α (· < ·)] :
    IsStrictOrder (Option α) (· < ·) where
  irrefl x h := by
    cases x with
    | none => exact Option.not_lt_none h
    | some a => exact irrefl a (Option.some_lt_some.mp h)
  trans x y z hxy hyz := by
    cases x with
    | none =>
      cases z with
      | none => exact (Option.not_lt_none hyz).elim
      | some c => exact Option.none_lt_some
    | some a =>
      cases y with
      | none => exact (Option.not_lt_none hxy).elim
      | some b =>
        cases z with
        | none => exact (Option.not_lt_none hyz).elim
        | some c =>
          rw [Option.some_lt_some] at hxy hyz ⊢
          exact trans_of (· < ·) hxy hyz

namespace Query

/-- The query asks for the candidate. -/
structure Asks (q : Query) (now : Instant) (c : Candidate) : Prop where
  model : c.version.item.model = q.model
  schema : ∀ s, q.schema = some s → c.version.item.schema = s
  /-- Unless the keyword is blank, it stands in a value outside of groups, in whatever case. -/
  keyword : ∀ k, q.keyword = some k → Text.trim k ≠ "" →
    ∃ f ∈ c.version.item.fields, f.group = none ∧ ∃ v ∈ f.value.elements,
      (Text.lowerCase (Text.trim k)).toList <:+: (Text.lowerCase v.toText).toList
  filter : ∀ f, q.filter = some f → f.holds now c = true

/-- The one value comes first in that direction. -/
def Direction.Before : Direction → Option Value → Option Value → Prop
  | ascending, x, y => x < y
  | descending, x, y => y < x

/-- The one candidate is to stand before the other. -/
def Precedes (sort : Option SortKey) (a b : Candidate) : Prop :=
  match sort with
  | none => a.id.text < b.id.text
  | some s =>
    let x := sortValue? s.field a
    let y := sortValue? s.field b
    s.direction.Before x y ∨ x = y ∧ a.id.text < b.id.text

/-- All values that the query sorts by are of one kind. -/
def SortsOneKind (q : Query) (cs : List Candidate) : Prop :=
  ∀ s, q.sort = some s → ∃ k : Kind, ∀ c ∈ cs, ∀ v, sortValue? s.field c = some v → v.kind = k

/-! ## The tests -/

/-- A keyword is held by a value at top level whose text, in lower case, contains it. -/
theorem holdsKeyword_iff {k : String} {c : Candidate} :
    holdsKeyword k c = true ↔ ∃ f ∈ c.version.item.fields, f.group = none ∧
      ∃ v ∈ f.value.elements, k.toList <:+: (Text.lowerCase v.toText).toList := by
  simp only [holdsKeyword, List.any_eq_true, List.mem_filter, Option.isNone_iff_eq_none, and_assoc,
    Text.contains, Text.listContains_iff]

theorem searchedKeyword?_eq_some {q : Query} {l : String} :
    q.searchedKeyword? = some l ↔
      ∃ k, q.keyword = some k ∧ Text.trim k ≠ "" ∧ Text.lowerCase (Text.trim k) = l := by
  simp only [searchedKeyword?, Option.map_eq_some_iff, Option.filter_eq_some_iff, bne_iff_ne]
  constructor
  · rintro ⟨t, ⟨⟨k, hk, rfl⟩, hne⟩, rfl⟩
    exact ⟨k, hk, hne, rfl⟩
  · rintro ⟨k, hk, hne, rfl⟩
    exact ⟨_, ⟨⟨k, hk, rfl⟩, hne⟩, rfl⟩

/-- **A query selects what it asks for.** -/
theorem selects_iff {q : Query} {now : Instant} {c : Candidate} :
    q.selects now c = true ↔ q.Asks now c := by
  have hall : ∀ {α : Type} {o : Option α} {p : α → Bool},
      o.all p = true ↔ ∀ a, o = some a → p a = true := by
    intro α o p
    cases o <;> simp
  rw [selects, Bool.and_eq_true, Bool.and_eq_true, Bool.and_eq_true, hall, hall, hall]
  simp only [beq_iff_eq, holdsKeyword_iff, searchedKeyword?_eq_some]
  constructor
  · rintro ⟨⟨⟨hmodel, hschema⟩, hkeyword⟩, hfilter⟩
    exact ⟨hmodel, hschema, fun k hk hne => hkeyword _ ⟨k, hk, hne, rfl⟩, hfilter⟩
  · rintro ⟨hmodel, hschema, hkeyword, hfilter⟩
    refine ⟨⟨⟨hmodel, hschema⟩, ?_⟩, hfilter⟩
    rintro _ ⟨k, hk, hne, rfl⟩
    exact hkeyword k hk hne

/-! ## The order -/

section Order

variable {sort : Option SortKey} {a b c : Candidate} {x y : Option Value}

instance (d : Direction) : IsStrictOrder (Option Value) d.Before where
  irrefl x := by cases d <;> exact irrefl_of (· < ·) x
  trans x y z hxy hyz := by
    cases d with
    | ascending => exact trans_of (· < ·) hxy hyz
    | descending => exact trans_of (· < ·) hyz hxy

/-- Nothing precedes itself. -/
theorem Precedes.irrefl (sort : Option SortKey) (a : Candidate) : ¬Precedes sort a a := by
  cases sort with
  | none => exact String.lt_irrefl _
  | some s =>
    rintro (h | ⟨-, h⟩)
    · exact irrefl_of s.direction.Before _ h
    · exact String.lt_irrefl _ h

/-- What precedes something precedes what that precedes. -/
theorem Precedes.trans (hab : Precedes sort a b) (hbc : Precedes sort b c) :
    Precedes sort a c := by
  cases sort with
  | none => exact String.lt_trans hab hbc
  | some s =>
    rcases hab with hab | ⟨hxy, hab⟩
    · rcases hbc with hbc | ⟨hyz, -⟩
      · exact .inl (trans_of s.direction.Before hab hbc)
      · exact .inl (hyz ▸ hab)
    · rcases hbc with hbc | ⟨hyz, hbc⟩
      · exact .inl (hxy ▸ hbc)
      · exact .inr ⟨hxy.trans hyz, String.lt_trans hab hbc⟩

/-- Two values of one kind, or a missing one, are compared in their order. -/
theorem compareValues_compares (h : ∀ v w, x = some v → y = some w → v.kind = w.kind) :
    (compareValues x y).Compares x y := by
  cases x with
  | none =>
    cases y with
    | none => exact rfl
    | some w => exact Option.none_lt_some
  | some v =>
    cases y with
    | none => exact Option.none_lt_some
    | some w =>
      obtain ⟨o, ho, hcompares⟩ := Value.compares (h v w rfl rfl)
      rw [compareValues, ho, Option.getD_some]
      exact compares_map (fun _ _ => Option.some_lt_some.mpr) hcompares

theorem Direction.before_total (d : Direction)
    (h : ∀ v w, x = some v → y = some w → v.kind = w.kind) :
    d.Before x y ∨ x = y ∨ d.Before y x := by
  have hcompares := compareValues_compares h
  cases d <;> cases ho : compareValues x y <;> rw [ho] at hcompares
  · exact .inl hcompares
  · exact .inr (.inl hcompares)
  · exact .inr (.inr hcompares)
  · exact .inr (.inr hcompares)
  · exact .inr (.inl hcompares)
  · exact .inl hcompares

theorem id_compare_eq_lt_iff {kind : IdKind} {a b : Id kind} :
    a.compare b = .lt ↔ a.text < b.text :=
  (Text.compares a.text b.text).eq_lt

/-- Candidates are compared in their order. -/
theorem compare_eq_lt_iff (h : ∀ s, sort = some s → ∀ v w,
      sortValue? s.field a = some v → sortValue? s.field b = some w → v.kind = w.kind) :
    compare sort a b = .lt ↔ Precedes sort a b := by
  cases sort with
  | none => exact id_compare_eq_lt_iff
  | some s =>
    let _ := partialOrderOfSO ((· < ·) : Option Value → Option Value → Prop)
    have hvalues := compareValues_compares (h s rfl)
    obtain ⟨field, direction⟩ := s
    cases direction with
    | ascending =>
      rw [compare, Ordering.then_eq_lt, id_compare_eq_lt_iff]
      exact or_congr hvalues.eq_lt (and_congr_left' hvalues.eq_eq)
    | descending =>
      rw [compare, Ordering.then_eq_lt, id_compare_eq_lt_iff]
      rw [Ordering.swap_eq_lt, Ordering.swap_eq_eq]
      exact or_congr hvalues.eq_gt (and_congr_left' hvalues.eq_eq)

/-- Of two candidates with ids of their own one precedes the other. -/
theorem Precedes.total (hid : a.id = b.id → a = b) (h : ∀ s, sort = some s → ∀ v w,
      sortValue? s.field a = some v → sortValue? s.field b = some w → v.kind = w.kind) :
    Precedes sort a b ∨ a = b ∨ Precedes sort b a := by
  have htext : a.id.text < b.id.text ∨ a = b ∨ b.id.text < a.id.text := by
    refine (lt_trichotomy a.id.text b.id.text).imp_right (Or.imp_left fun heq => hid ?_)
    exact congrArg Id.mk heq
  cases sort with
  | none => exact htext
  | some s =>
    rcases s.direction.before_total (h s rfl) with hlt | heq | hgt
    · exact .inl (.inl hlt)
    · refine htext.imp (fun hlt => .inr ⟨heq, hlt⟩) (Or.imp_right fun hgt => .inr ⟨heq.symm, hgt⟩)
    · exact .inr (.inr (.inl hgt))

end Order

section Select

variable {q : Query} {now : Instant} {cs : List Candidate}

/-- What a query selects is the only list of what it asks for, in its order. -/
theorem eq_select_iff (hids : (cs.map Candidate.id).Nodup) (hkind : q.SortsOneKind cs)
    (out : List Candidate) :
    out = q.select now cs ↔
      (∀ c, c ∈ out ↔ c ∈ cs ∧ q.Asks now c) ∧ out.Nodup ∧ out.Pairwise (Precedes q.sort) := by
  have hsame : ∀ a ∈ cs, ∀ b ∈ cs, ∀ s, q.sort = some s → ∀ v w,
      sortValue? s.field a = some v → sortValue? s.field b = some w → v.kind = w.kind := by
    intro a ha b hb s hs v w hv hw
    obtain ⟨k, hk⟩ := hkind s hs
    exact (hk a ha v hv).trans (hk b hb w hw).symm
  have hasked : ∀ {c}, c ∈ cs.filter (q.selects now) ↔ c ∈ cs ∧ q.Asks now c := by
    intro c
    rw [List.mem_filter, selects_iff]
  have hdistinct : (cs.filter (q.selects now)).Nodup := (List.Nodup.of_map _ hids).filter _
  have htotal : ∀ a ∈ cs.filter (q.selects now), ∀ b ∈ cs.filter (q.selects now),
      Precedes q.sort a b ∨ a = b ∨ Precedes q.sort b a := by
    intro a ha b hb
    obtain ⟨ha, -⟩ := hasked.mp ha
    obtain ⟨hb, -⟩ := hasked.mp hb
    exact Precedes.total (List.inj_on_of_nodup_map hids ha hb) (hsame a ha b hb)
  have hbefore : ∀ a ∈ cs.filter (q.selects now), ∀ b ∈ cs.filter (q.selects now),
      ((compare q.sort a b == .lt) = true ↔ Precedes q.sort a b) := by
    intro a ha b hb
    rw [beq_iff_eq]
    exact compare_eq_lt_iff (hsame a (hasked.mp ha).1 b (hasked.mp hb).1)
  have hsort := eq_sortBy_iff (Precedes.irrefl q.sort) Precedes.trans htotal hbefore hdistinct out
  simp only [hasked] at hsort
  exact hsort

/-- **A query selects the one right list**: what it asks for, each candidate once, in the
order it wants them.  So it does not matter how the candidates came in. -/
theorem select_correct (hids : (cs.map Candidate.id).Nodup) (hkind : q.SortsOneKind cs) :
    (∀ out, out = q.select now cs ↔
      (∀ c, c ∈ out ↔ c ∈ cs ∧ q.Asks now c) ∧ out.Nodup ∧ out.Pairwise (Precedes q.sort)) ∧
    ∀ cs' : List Candidate, cs'.Perm cs → q.select now cs' = q.select now cs := by
  refine ⟨eq_select_iff hids hkind, fun cs' hperm => ?_⟩
  have hids' : (cs'.map Candidate.id).Nodup := (hperm.map _).nodup_iff.mpr hids
  have hkind' : q.SortsOneKind cs' := by
    intro s hs
    obtain ⟨k, hk⟩ := hkind s hs
    exact ⟨k, fun c hc => hk c (hperm.subset hc)⟩
  obtain ⟨hmem, hnodup, hordered⟩ := (eq_select_iff hids' hkind' (q.select now cs')).mp rfl
  refine (eq_select_iff hids hkind _).mpr ⟨fun c => ?_, hnodup, hordered⟩
  rw [hmem, hperm.mem_iff]

end Select

section Books

/-- A book with its title and, if known, the year in which it came out. -/
def book (id title : String) (year : Option Int) : Candidate where
  version := ⟨⟨0⟩, [], [], ⟨0, 0⟩,
    ⟨⟨id⟩, ⟨"library"⟩, ⟨"books"⟩, ⟨"books"⟩, ⟨id⟩,
      [⟨⟨"title"⟩, "title", ⟨.text, [.text title]⟩, none⟩,
        ⟨⟨"year"⟩, "year", ⟨.integer, (year.map Value.integer).toList⟩, none⟩],
      none, none, .user ⟨"librarian"⟩, none, ⟨0, 0⟩⟩⟩
  status := .published
  metadata := none

def books : List Candidate := [
  book "a" "The Old Man and the Sea" (some 1952), book "b" "Songs of the Sea" none,
  book "d" "The Sea, the Sea" (some 1978), book "e" "Moby-Dick" (some 1851),
  book "c" "By the Seashore" (some 1978)]

/-- The books about the sea, the last first. -/
def aboutSea : Query := { ofModel ⟨"library"⟩ ⟨"books"⟩ with
  keyword := some " SEA "
  sort := some ⟨.ofField ⟨"year"⟩, .descending⟩ }

/-- Of the same year, the ids are in order all the same; what has no year comes last. -/
theorem select_books : (books.map Candidate.id).Nodup ∧ aboutSea.SortsOneKind books ∧
    ((∀ out, out = aboutSea.select ⟨0, 0⟩ books ↔
      (∀ c, c ∈ out ↔ c ∈ books ∧ aboutSea.Asks ⟨0, 0⟩ c) ∧ out.Nodup ∧
        out.Pairwise (Precedes aboutSea.sort)) ∧
      ∀ cs : List Candidate, cs.Perm books →
        aboutSea.select ⟨0, 0⟩ cs = aboutSea.select ⟨0, 0⟩ books) ∧
    (aboutSea.select ⟨0, 0⟩ books).map Candidate.id = [⟨"c"⟩, ⟨"d"⟩, ⟨"a"⟩, ⟨"b"⟩] := by
  have hids : (books.map Candidate.id).Nodup := by decide
  have hkind : aboutSea.SortsOneKind books := by
    rintro _ ⟨⟩
    refine ⟨.integer, ?_⟩
    simp only [books, List.forall_mem_cons]
    refine ⟨?_, ?_, ?_, ?_, ?_, fun _ h => (List.not_mem_nil h).elim⟩ <;> rintro _ ⟨⟩ <;> rfl
  exact ⟨hids, hkind, select_correct hids hkind, by decide +kernel⟩

end Books

end Query

end ContentStore
