import ContentStore.Query.Page

/-!
# Walking the pages of a result

A caller who wants all of a result asks for a first page without a cursor, and then
for the page after the last item received, as long as there is a next one (`Walk`).
The cursor is the id of an item and not its place, so the walk relies on the ids being
distinct: then the cursor after `seen` items leads to the page at that offset
(`paginate_cursorAfter`), and the last item of that page is the cursor after all items
seen by then (`endCursor_cut`).  A page of a size that is not zero moves on, so the
walk ends (`exists_walk`), and its pages tile the result (`Walk.tiles`).
-/

namespace ContentStore.Query

/-- The page of at most `limit` items that begins after the first `seen`. -/
def cut (maxSize : Nat) (items : List Candidate) (seen limit : Nat) : Page :=
  let page := (items.drop seen).take (min limit maxSize)
  ⟨page, {
    total := items.length
    startCursor := page.head?.map Candidate.id
    endCursor := page.getLast?.map Candidate.id
    hasNext := decide (seen + page.length < items.length)
    hasPrevious := decide (0 < seen) }⟩

/-- The cursor of a caller who has seen so many items: the last of them. -/
def cursorAfter (items : List Candidate) (seen : Nat) : Option ItemId :=
  (items.take seen).getLast?.map Candidate.id

/-- Asking for one page after the other, from a cursor on: each time for what comes after
the last item of the page before, and until there is no next page. -/
inductive Walk (maxSize first : Nat) (items : List Candidate) :
    Option ItemId → List Page → Prop
  | last {after : Option ItemId} {p : Page}
      (hpage : paginate maxSize items (.cursor first after) = .ok p)
      (hlast : p.info.hasNext = false) : Walk maxSize first items after [p]
  | next {after : Option ItemId} {p : Page} {ps : List Page}
      (hpage : paginate maxSize items (.cursor first after) = .ok p)
      (hnext : p.info.hasNext = true) (hrest : Walk maxSize first items p.info.endCursor ps) :
      Walk maxSize first items after (p :: ps)

variable {maxSize first seen : Nat} {items : List Candidate}

theorem paginate_offset (maxSize : Nat) (items : List Candidate) (seen limit : Nat) :
    paginate maxSize items (.offset seen limit) = .ok (cut maxSize items seen limit) := rfl

/-- **The cursor stands for its place**, since no other item has its id. -/
theorem paginate_cursorAfter (hids : (items.map Candidate.id).Nodup) (hseen : seen ≤ items.length)
    (maxSize first : Nat) :
    paginate maxSize items (.cursor first (cursorAfter items seen)) =
      .ok (cut maxSize items seen first) := by
  cases seen with
  | zero => rfl
  | succ n =>
    have hn : n < items.length := hseen
    have hlast : cursorAfter items (n + 1) = some items[n].id := by
      have hget : items[n]? = some items[n] := List.getElem?_eq_getElem hn
      rw [cursorAfter, List.getLast?_take, if_neg (Nat.succ_ne_zero n), Nat.add_sub_cancel, hget]
      rfl
    have hfind : items.findIdx? (fun c => c.id == items[n].id) = some n := by
      refine List.findIdx?_eq_some_iff_getElem.mpr ⟨hn, beq_self_eq_true _, fun j hj hsame => ?_⟩
      have hne := List.pairwise_iff_getElem.mp (List.pairwise_map.mp hids) j n (by omega) hn hj
      exact hne (beq_iff_eq.mp hsame)
    have hrange : Pagination.range items (.cursor first (some items[n].id)) =
        .ok (n + 1, first) := by
      rw [Pagination.range, hfind]
    rw [hlast, paginate, hrange]
    rfl

/-- The size of a page, which only the end of the result cuts short. -/
theorem length_cut (maxSize : Nat) (items : List Candidate) (seen limit : Nat) :
    (cut maxSize items seen limit).items.length =
      min (min limit maxSize) (items.length - seen) := by
  rw [cut, List.length_take, List.length_drop]

theorem isPrefix_cut (maxSize : Nat) (items : List Candidate) (seen limit : Nat) :
    (cut maxSize items seen limit).items <+: items.drop seen :=
  List.take_prefix _ _

theorem hasNext_cut : (cut maxSize items seen first).info.hasNext = true ↔
    seen + (cut maxSize items seen first).items.length < items.length :=
  decide_eq_true_iff

/-- What has been seen after a page is what was seen before and the page. -/
theorem take_add_cut (maxSize : Nat) (items : List Candidate) (seen limit : Nat) :
    items.take (seen + (cut maxSize items seen limit).items.length) =
      items.take seen ++ (cut maxSize items seen limit).items := by
  rw [List.take_add, ← List.prefix_iff_eq_take.mp (isPrefix_cut maxSize items seen limit)]

/-- What is left before a page is the page and what is left after it. -/
theorem cut_append_drop (maxSize : Nat) (items : List Candidate) (seen limit : Nat) :
    (cut maxSize items seen limit).items ++
      items.drop (seen + (cut maxSize items seen limit).items.length) = items.drop seen := by
  rw [← List.drop_drop]
  exact List.prefix_iff_eq_append.mp (isPrefix_cut maxSize items seen limit)

/-- **The last item of a page is the cursor after it.** -/
theorem endCursor_cut (h : (cut maxSize items seen first).items ≠ []) :
    (cut maxSize items seen first).info.endCursor =
      cursorAfter items (seen + (cut maxSize items seen first).items.length) := by
  obtain ⟨c, hc⟩ := Option.isSome_iff_exists.mp (List.getLast?_isSome.mpr h)
  rw [cursorAfter, take_add_cut, List.getLast?_append, hc]
  exact congrArg (Option.map Candidate.id) hc

/-- A page of a size that is not zero holds an item, if there is one left. -/
theorem cut_items_ne_nil (hmax : 1 ≤ maxSize) (hfirst : 1 ≤ first) (hseen : seen < items.length) :
    (cut maxSize items seen first).items ≠ [] := by
  apply List.ne_nil_of_length_pos
  rw [length_cut]
  omega

/-! ## The walk -/

section Walk

variable (hids : (items.map Candidate.id).Nodup) (hmax : 1 ≤ maxSize) (hfirst : 1 ≤ first)
include hids hmax hfirst

/-- **The walk ends**: every page but the last takes an item from what is left. -/
theorem exists_walk (hseen : seen ≤ items.length) :
    ∃ pages, Walk maxSize first items (cursorAfter items seen) pages := by
  have hpage := paginate_cursorAfter hids hseen maxSize first
  induction hleft : items.length - seen using Nat.strongRecOn generalizing seen with
  | ind left ih =>
    by_cases hnext : seen + (cut maxSize items seen first).items.length < items.length
    · have hne := cut_items_ne_nil hmax hfirst (show seen < items.length by omega)
      have hpos := List.length_pos_iff.mpr hne
      obtain ⟨pages, hrest⟩ := ih _ (by omega) (Nat.le_of_lt hnext)
        (paginate_cursorAfter hids (Nat.le_of_lt hnext) maxSize first) rfl
      rw [← endCursor_cut hne] at hrest
      exact ⟨_, .next hpage (hasNext_cut.mpr hnext) hrest⟩
    · exact ⟨_, .last hpage (Bool.eq_false_iff.mpr (mt hasNext_cut.mp hnext))⟩

/-- The pages of a walk tile what is left of the result.  Each of them is the page at the
offset that has been reached, and unless it is the first there is something left for it. -/
theorem Walk.tiles {after : Option ItemId} {pages : List Page}
    (h : Walk maxSize first items after pages) (hafter : after = cursorAfter items seen)
    (hseen : seen = 0 ∨ seen < items.length) :
    pages.flatMap Page.items = items.drop seen ∧
      ∀ before p rest, pages = before ++ p :: rest →
        ∃ place, place = seen + (before.flatMap Page.items).length ∧
          p = cut maxSize items place first ∧ (place = 0 ∨ place < items.length) ∧
          (p.info.hasNext = true ↔ rest ≠ []) := by
  have hat : ∀ {after p seen}, paginate maxSize items (.cursor first after) = .ok p →
      after = cursorAfter items seen → (seen = 0 ∨ seen < items.length) →
      p = cut maxSize items seen first := by
    rintro after p seen hpage rfl hseen
    have hle : seen ≤ items.length := by omega
    exact Except.ok.inj (hpage.symm.trans (paginate_cursorAfter hids hle maxSize first))
  induction h generalizing seen with
  | last hpage hlast =>
    obtain rfl := hat hpage hafter hseen
    have hend : items.length ≤ seen + (cut maxSize items seen first).items.length :=
      Nat.le_of_not_lt (mt hasNext_cut.mpr (Bool.eq_false_iff.mp hlast))
    have hall := cut_append_drop maxSize items seen first
    rw [List.drop_of_length_le hend, List.append_nil] at hall
    refine ⟨by rw [List.flatMap_singleton, hall], fun before p rest hsplit => ?_⟩
    obtain ⟨rfl, hp⟩ | ⟨before, -, hnil⟩ := List.cons_eq_append_iff.mp hsplit
    · obtain ⟨rfl, rfl⟩ := List.cons.inj hp
      exact ⟨seen, rfl, rfl, hseen, by rw [hlast]; simp⟩
    · simp at hnil
  | @next after p ps hpage hnext hrest ih =>
    obtain rfl := hat hpage hafter hseen
    have hlt := hasNext_cut.mp hnext
    have hne := cut_items_ne_nil hmax hfirst (show seen < items.length by omega)
    obtain ⟨hall, hsplits⟩ := ih (endCursor_cut hne) (.inr hlt)
    refine ⟨by rw [List.flatMap_cons, hall, cut_append_drop], fun before p rest hsplit => ?_⟩
    obtain ⟨rfl, hp⟩ | ⟨before, rfl, hps⟩ := List.cons_eq_append_iff.mp hsplit
    · obtain ⟨rfl, rfl⟩ := List.cons.inj hp
      have hmore : rest ≠ [] := by
        cases hrest <;> exact List.cons_ne_nil _ _
      exact ⟨seen, rfl, rfl, hseen, iff_of_true hnext hmore⟩
    · obtain ⟨place, hplace, hp, hleft, hiff⟩ := hsplits before p rest hps
      refine ⟨place, ?_, hp, hleft, hiff⟩
      rw [hplace, List.flatMap_cons, List.length_append, Nat.add_assoc]

section Whole

variable {pages before rest : List Page} {p : Page}

/-- Every page of a whole walk is the page at the offset of what has been seen before it. -/
theorem Walk.whole (h : Walk maxSize first items none pages)
    (hpages : pages = before ++ p :: rest) : ∃ place,
      place = (before.flatMap Page.items).length ∧ p = cut maxSize items place first ∧
        (place = 0 ∨ place < items.length) ∧ (p.info.hasNext = true ↔ rest ≠ []) := by
  have hstart : none = cursorAfter items 0 := rfl
  obtain ⟨place, hplace, hrest⟩ :=
    (h.tiles hids hmax hfirst hstart (.inl rfl)).2 before p rest hpages
  exact ⟨place, hplace.trans (Nat.zero_add _), hrest⟩

/-- If there are items, every page has some. -/
theorem Walk.filled (h : Walk maxSize first items none pages) (hitems : items ≠ []) :
    ∀ p ∈ pages, p.items ≠ [] := by
  intro p hp
  obtain ⟨before, rest, hpages⟩ := List.mem_iff_append.mp hp
  obtain ⟨place, -, rfl, hleft, -⟩ := h.whole hids hmax hfirst hpages
  have hpos := List.length_pos_iff.mpr hitems
  apply cut_items_ne_nil hmax hfirst
  omega

/-- Pages with another one after them have items. -/
theorem Walk.length_before (h : Walk maxSize first items none pages)
    (hpages : pages = before ++ p :: rest) (hne : before ≠ []) :
    0 < (before.flatMap Page.items).length := by
  obtain ⟨q, before, rfl⟩ := List.exists_cons_of_ne_nil hne
  have hsplit : pages = [] ++ q :: (before ++ p :: rest) := hpages
  obtain ⟨place, -, hq, -, hnext⟩ := h.whole hids hmax hfirst hsplit
  have hlt : place + q.items.length < items.length := by
    rw [hq, hasNext_cut, ← hq] at hnext
    apply hnext.mpr
    simp
  have hitems : items ≠ [] := List.ne_nil_of_length_pos (by omega)
  have hfilled := h.filled hids hmax hfirst hitems q (hpages ▸ List.mem_cons_self)
  have hpos := List.length_pos_iff.mpr hfilled
  rw [List.flatMap_cons, List.length_append]
  omega

/-- Only the first page has none before it, and it says so. -/
theorem Walk.hasPrevious_iff (h : Walk maxSize first items none pages)
    (hpages : pages = before ++ p :: rest) : p.info.hasPrevious = false ↔ before = [] := by
  obtain ⟨place, hplace, rfl, -⟩ := h.whole hids hmax hfirst hpages
  have hshown : (cut maxSize items place first).info.hasPrevious = false ↔ ¬0 < place :=
    decide_eq_false_iff_not
  rw [hshown, hplace]
  constructor
  · intro hzero
    by_cases hempty : before = []
    · exact hempty
    · exact (hzero (h.length_before hids hmax hfirst hpages hempty)).elim
  · rintro rfl
    exact Nat.lt_irrefl 0

end Whole

end Walk

/-- Where there is nothing there is a single page, without cursors. -/
theorem Walk.blank {pages : List Page} (h : Walk maxSize first items none pages)
    (hitems : items = []) :
    ∃ p, pages = [p] ∧ p.info.startCursor = none ∧ p.info.endCursor = none := by
  subst hitems
  cases h with
  | last hpage =>
    cases hpage
    exact ⟨_, rfl, by simp, by simp⟩
  | next hpage hnext =>
    cases hpage
    simp at hnext

/-- What the pages of a whole walk are to be, for a result of these items. -/
structure Complete (maxSize first : Nat) (items : List Candidate) (pages : List Page) : Prop where
  /-- Together they are the result, in its order. -/
  all : pages.flatMap Page.items = items
  /-- A page tells the size of the result, whether it is the first or the last, and its own
  first and last item; and it is the page at the offset that has been reached. -/
  each : ∀ before p rest, pages = before ++ p :: rest →
    p.info.total = items.length ∧ (p.info.hasPrevious = false ↔ before = []) ∧
    (p.info.hasNext = false ↔ rest = []) ∧
    p.info.startCursor = p.items.head?.map Candidate.id ∧
    p.info.endCursor = p.items.getLast?.map Candidate.id ∧
    paginate maxSize items (.offset (before.flatMap Page.items).length first) = .ok p
  /-- There are no pages without items, but for the single page of an empty result. -/
  filled : items ≠ [] → ∀ p ∈ pages, p.items ≠ []
  blank : items = [] → ∃ p, pages = [p] ∧ p.info.startCursor = none ∧ p.info.endCursor = none

/-- **Walking the pages visits everything once.**  From the first page on the walk comes to
an end, and whatever pages it has gone through are complete. -/
theorem walk_complete (hids : (items.map Candidate.id).Nodup) (hmax : 1 ≤ maxSize)
    (hfirst : 1 ≤ first) :
    (∃ pages, Walk maxSize first items none pages) ∧
      ∀ pages, Walk maxSize first items none pages → Complete maxSize first items pages := by
  have hstart : none = cursorAfter items 0 := rfl
  refine ⟨hstart ▸ exists_walk hids hmax hfirst (Nat.zero_le _), fun pages hwalk => ?_⟩
  constructor
  case all => exact (hwalk.tiles hids hmax hfirst hstart (.inl rfl)).1
  case each =>
    intro before p rest hpages
    have hprevious := hwalk.hasPrevious_iff hids hmax hfirst hpages
    obtain ⟨place, hplace, rfl, -, hnext⟩ := hwalk.whole hids hmax hfirst hpages
    refine ⟨rfl, hprevious, ?_, rfl, rfl, ?_⟩
    · rw [← Bool.not_eq_true, hnext, Decidable.not_not]
    · rw [paginate_offset, hplace]
  case filled => exact hwalk.filled hids hmax hfirst
  case blank => exact hwalk.blank

/-- A card without fields. -/
def card (id : ItemId) : Candidate where
  version := ⟨⟨0⟩, [], [], ⟨0, 0⟩,
    ⟨id, ⟨"box"⟩, ⟨"cards"⟩, ⟨"cards"⟩, ⟨"cards"⟩, [], none, none, .user ⟨"clerk"⟩, none, ⟨0, 0⟩⟩⟩
  status := .draft
  metadata := none

def cards : List Candidate := [card ⟨"c"⟩, card ⟨"a"⟩, card ⟨"d"⟩, card ⟨"b"⟩, card ⟨"e"⟩]

/-- Five cards in pages of two, asked for in threes: there are three pages. -/
theorem walk_cards : (cards.map Candidate.id).Nodup ∧ 1 ≤ 2 ∧ 1 ≤ 3 ∧
    ((∃ pages, Walk 2 3 cards none pages) ∧
      ∀ pages, Walk 2 3 cards none pages → Complete 2 3 cards pages) ∧
    Walk 2 3 cards none [cut 2 cards 0 3, cut 2 cards 2 3, cut 2 cards 4 3] := by
  have hids : (cards.map Candidate.id).Nodup := by decide
  refine ⟨hids, by decide, by decide, walk_complete hids (by decide) (by decide), ?_⟩
  exact .next rfl rfl (.next rfl rfl (.last rfl rfl))

end ContentStore.Query
