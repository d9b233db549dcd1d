import ContentStore.Proofs.Pairing.Fields
import ContentStore.Proofs.Pairing.Touched
import ContentStore.Proofs.Writes.Latest

/-!
# What writes of items leave alone

A write alters the history of the item that is written, of the metadata item that
is linked with it, and of items that have to do with one of its paired fields; a
removal alters that of the item, its metadata item and its partners.  Nothing
else changes.
-/

namespace ContentStore

namespace Tables

/-- The two are linked by a paired field of the schema that the first one
follows: it held the second one before, or it does so afterwards, or what it
holds afterwards was held by the second one. -/
def Meets (t u : Tables) (S : Schema) (x y : ItemId) : Prop :=
  ∃ F ∈ S.fields, ∃ g, F.corresponding? = some g ∧
    (Pairing.edges (Write.latestItem t) x F.id = some y ∨
      Pairing.edges (Write.latestItem u) x F.id = some y ∨
      ∃ b, Pairing.edges (Write.latestItem u) x F.id = some b ∧
        Pairing.edges (Write.latestItem t) b g = some y)

end Tables

namespace Write

open Tables Pairing

variable {o : Operator} {p : Package} {old : Option Item} {it : Item} {n m : Nat} {t u : Tables}

/-- **Who is altered by a write.** -/
theorem Puts.alters (h : Puts o p old it n t m u) (hs : Sound n t)
    (hold : ∀ f, held old f = edges (latestItem t) it.id f) {x : ItemId} (hx : t.Alters u x) :
    x = it.id ∨ (∃ l, Links t p it l ∧ l.id = x) ∨ t.Meets u p.schema it.id x := by
  obtain ⟨L, edits, hL, hrepairs, -, halters⟩ := h.overlay hs
  have hself := (h.back hs).1
  rcases halters x hx with hx | hx | hx
  · exact .inl hx
  · exact .inr (.inl hx)
  · obtain ⟨F, hF, g, hg, hcases⟩ := keys_of_repairs hrepairs hx
    refine .inr (.inr ⟨F, (Schema.mem_referenceFields.mp hF).1, g, hg, ?_⟩)
    rw [hold] at hcases
    rw [edges_of_some hself]
    rcases hcases with hx | hx | ⟨b, hb, hheld, hx⟩
    · exact .inl hx
    · exact .inr (.inl hx)
    · rw [hL.edges_eq hb] at hx
      exact .inr (.inr ⟨b, hheld, hx⟩)

/-- Taking out an item and its metadata item leaves the others as they are. -/
theorem alters_of_deleted {v : Tables} {x : ItemId} (hself : x ≠ it.id)
    (hmeta : it.metadataItem ≠ some x)
    (hx : t.Alters ((it.metadataItem.elim v v.deleteItem).deleteItem it.id) x) : t.Alters v x := by
  unfold Alters at hx ⊢
  simp only [versionsOf_deleteItem, rowsOf_deleteItem, if_neg hself] at hx
  cases hm : it.metadataItem with
  | none =>
    rw [hm] at hx
    exact hx
  | some y =>
    have hxy : x ≠ y := fun hxy => hmeta (hm.trans (congrArg some hxy.symm))
    rw [hm] at hx
    simp only [Option.elim_some, versionsOf_deleteItem, rowsOf_deleteItem, if_neg hxy] at hx
    exact hx

/-- **Who is altered by a removal.** -/
theorem Removes.alters (h : Removes o p it n t m u) (hs : Sound n t) {x : ItemId}
    (hx : t.Alters u x) :
    x = it.id ∨ it.metadataItem = some x ∨ t.Meets u p.schema it.id x := by
  cases h with
  | @intro v hstored hfollow =>
    by_cases hself : x = it.id
    · exact .inl hself
    · by_cases hmeta : it.metadataItem = some x
      · exact .inr (.inl hmeta)
      · have htidy : Edits.Tidy (fun _ _ => True) (latestItem t) it.id
            (p.schema.referenceFields.foldl (detachField (latestItem t) it) []) :=
          Edits.Tidy.nil.detachments _
        obtain ⟨a, ha, rfl⟩ := hfollow.alters (alters_of_deleted hself hmeta hx)
        have hkeys := mem_keys_of_tidy htidy (keyed_latestItem hs) ha
        rcases keys_of_detachments hkeys with hnil | ⟨F, hF, g, hg, hheld⟩
        · exact (List.not_mem_nil hnil).elim
        · refine .inr (.inr ⟨F, (Schema.mem_referenceFields.mp hF).1, g, hg, .inl ?_⟩)
          rw [edges_of_some hstored, hheld]

end Write

end ContentStore
