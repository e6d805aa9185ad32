import AccessControl.Error
import AccessControl.Faults
import AccessControl.Store.Method

/-!
A store that keeps its tables itself, and whose calls may fail.
-/

namespace AccessControl.Store

structure Ledger where
  tables : Tables
  faults : Faults Method Error

def Ledger.empty : Ledger := ⟨.empty, .none⟩

/-- A call that fails has no effect on the tables. -/
def Ledger.call (m : Ledger) (c : Call) : Except Error c.Reply × Ledger :=
  match m.faults.take c.methods with
  | (some e, faults) => (.error e, { m with faults })
  | (none, faults) => (.ok (m.tables.reply c), ⟨m.tables.after c, faults⟩)

end AccessControl.Store
