import ContentStore.Store.Declaring
import ContentStore.Yaml.Document

/-!
# Opening a store

A store may have a declared catalog beside it, which is applied whenever the
store is opened.  Sizes of pages are those given by whoever opens the store,
else those of the catalog.
-/

namespace ContentStore

namespace Declaration

/-- Reads a declared catalog. -/
def parse (text : String) : Except Error Declaration :=
  match (Yaml.Node.parse? text).bind read? with
  | some d => .ok d
  | none => .error .unreadableCatalog

end Declaration

namespace Store

/-- Applies the catalog beside a store, if there is one, and settles the sizes
of pages. -/
def openWith (config : Option Config) (catalog : Option String) : Operation Unit := do
  let d ← (catalog.mapM Declaration.parse : Except Error (Option Declaration))
  match d with
  | some d => declare d
  | none => pure ()
  let declared := d.bind Declaration.config
  modify fun s => { s with config := config.getD (declared.getD Config.standard) }

end Store

end ContentStore
