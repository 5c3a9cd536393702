import TablePipeline.Execution.Sources
import TablePipeline.Warehouse.Memory

/-!
# Services with a warehouse in memory

Any sources together with a warehouse in memory are services over both states.
-/

set_option autoImplicit false

namespace TablePipeline

namespace MemoryWarehouse

variable {τ : Type}

/-- The services of a warehouse in memory and some sources. -/
def services (sources : Sources τ) : Services (MemoryWarehouse × τ) MemoryWriter where
  toSources := sources.withSheets fun f w => (w.query f.sql, w)
  openWriter target s :=
    match s.1.openWriter target with
    | .ok (writer, w) => (.ok writer, w, s.2)
    | .error e => (.error e, s)
  writeBatch writer rows s :=
    match s.1.writeBatch writer rows with
    | .ok (writer, w) => (.ok rows.length, writer, w, s.2)
    | .error e => (.error e, writer, s)
  finish _ s := (.ok (), s)

end MemoryWarehouse

end TablePipeline
