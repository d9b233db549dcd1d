import ContentStore.Proofs.Embedding.Rounds

/-!
# Input in another order

Input names the slots of its values, so it can come in any order: what belongs to
an instance may stand before what lists the instance, at any depth.  A round takes
the same input in whatever order it comes, because what is known to it depends on
the values so far and not on their order, as long as there is one for each slot
(`Rounds.perm`).
-/

namespace ContentStore.Embedding

variable {p : Package} {stored : List ItemField}

/-- Results that belong to elements one by one are reordered with them. -/
theorem exists_perm_of_forall₂ {α β : Type} {R : α → β → Prop} {xs xs' : List α} {ys : List β}
    (hperm : xs.Perm xs') (h : List.Forall₂ R xs ys) :
    ∃ ys', List.Forall₂ R xs' ys' ∧ ys.Perm ys' := by
  obtain ⟨ys', hys', hperm'⟩ := List.perm_comp_forall₂ hperm.symm h
  exact ⟨ys', hys', hperm'.symm⟩

/-- **Rounds in another order** lead to the same values, in another order. -/
theorem Rounds.perm {values values' out : List ItemField} {raws raws' : List RawField}
    (h : Rounds p stored values raws out) (hslots : (out.map ItemField.slot).Nodup)
    (hvalues : values.Perm values') (hraws : raws.Perm raws') :
    ∃ out', Rounds p stored values' raws' out' ∧ out.Perm out' := by
  induction h generalizing values' raws' with
  | done =>
    obtain rfl := hraws.nil_eq
    exact ⟨values', .done, hvalues⟩
  | @round values new out raws found hfound hnew hsome hrest ih =>
    -- what the values make known does not depend on their order, as no slot has two of them
    have hinitial : values <+: out := (List.prefix_append _ _).trans hrest.isPrefix
    have hdistinct : (values.map ItemField.slot).Nodup :=
      hslots.sublist (hinitial.map ItemField.slot).sublist
    have hfound' : instanceSchemas p values' stored = .ok found := by
      rw [← instanceSchemas_perm hvalues hdistinct, hfound]
    obtain ⟨new', hnew', hperm⟩ := exists_perm_of_forall₂ (hraws.filter _) hnew
    have hsome' : new' ≠ [] := by
      rintro rfl
      exact hsome hperm.eq_nil
    obtain ⟨out', hout', hperm'⟩ := ih hslots (hvalues.append hperm) (hraws.filter _)
    exact ⟨out', .round hfound' hnew' hsome' hout', hperm'⟩

/-- **The order of input does not matter.**  Input that is accepted with one value for
each slot is accepted in any order, with the same values. -/
theorem valuesOfRaw_perm {input input' : List RawField} {values : List ItemField}
    (hperm : input.Perm input') (h : valuesOfRaw p input stored = .ok values)
    (hslots : (values.map ItemField.slot).Nodup) :
    ∃ values', valuesOfRaw p input' stored = .ok values' ∧ values.Perm values' := by
  obtain ⟨top, htop, hrounds⟩ := valuesOfRaw_eq_ok.mp h
  obtain ⟨top', htop', hperm'⟩ := exists_perm_of_forall₂ (hperm.filter _) htop
  obtain ⟨values', hrounds', hvalues⟩ := hrounds.perm hslots hperm' (hperm.filter _)
  exact ⟨values', valuesOfRaw_eq_ok.mpr ⟨top', htop', hrounds'⟩, hvalues⟩

/-- A book may be written from the inside out. -/
theorem perm_of_chapterAndSection : ∃ values values',
    valuesOfRaw books chapterAndSection [] = .ok values ∧ values.length = 3 ∧
      valuesOfRaw books chapterAndSection.reverse [] = .ok values' ∧ values.Perm values' := by
  have hread : ∃ values ∈ (valuesOfRaw books chapterAndSection []).toOption,
      values.length = 3 ∧ (values.map ItemField.slot).Nodup := by
    decide +kernel
  obtain ⟨values, hvalues, hlength, hslots⟩ := hread
  have hvalues := ok_of_mem_toOption hvalues
  obtain ⟨values', hvalues', hperm⟩ :=
    valuesOfRaw_perm (List.reverse_perm chapterAndSection).symm hvalues hslots
  exact ⟨values, values', hvalues, hlength, hvalues', hperm⟩

end ContentStore.Embedding
