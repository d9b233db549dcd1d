import ContentStore.Proofs.Reachable
import ContentStore.Proofs.Reads
import ContentStore.Proofs.Storage.Records

/-!
# What is stored is read back

A row is stored as the text of its record and read from that text.  For every
type of record both ways of reading give back what was written, as long as its
numbers fit their words and its instants are regular; an instant is read back
just if it is regular (`records_readBack`).  So are all tables together, as
they rest between two runs.

A version is stored without its refs.  They are read from the table of refs,
where the version just written stands under `latest` and under nothing else.
-/

namespace ContentStore

open Time (Instant)

/-- An archive whose tables fit and whose next serial number is a word. -/
structure Archive.Fits (a : Archive) : Prop where
  tables : a.tables.Fits
  next : a.supply.next ≤ Number.largestNat64

theorem Archive.Fits.read {a : Archive} (h : a.Fits) : Archive.read? a.write = some a := by
  have hnext : ofJson? (Json.ofNat a.supply.next) = some a.supply.next := read_nat h.next
  have htables := h.tables.read
  have hplain : Json.Plain 127
      (.object [("next", .ofNat a.supply.next), ("tables", toJson a.tables)]) :=
    .object (List.forall_mem_cons.mpr
      ⟨plain_nat h.next, List.forall_mem_singleton.mpr h.tables.plain⟩)
  unfold Archive.read? Archive.write
  rw [Json.read?_compact hplain, Option.bind_eq_bind, Option.bind_some,
    Record.members?_object _ (by simp)]
  simp [Record.Members.required, Record.raw?_head, Record.raw?_tail, hnext, htables]

namespace Tables

variable {t u : Tables}

end Tables

end ContentStore
