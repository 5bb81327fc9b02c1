import Schemata.Store.Basic

/-!
# Schemata — Store — Volume

A store as it is kept. What is written to a volume that keeps a log goes to the log first and is
settled, that is put into the file itself, when the last of those who have it open closes it;
without a log what is written is settled at once.
-/

namespace Schemata

/-- A store as it is kept: its table as it was last written, its table as far as it is settled, and
whether it keeps a log. -/
structure Volume where
  table : Option Table := none
  settled : Option Table := none
  keepsLog : Bool := false
deriving Repr

namespace Volume

/-- Whether two tables hold the same rows, or are both missing. -/
def isSame (t u : Option Table) : Bool := t.map Table.rows = u.map Table.rows

/-- The volume with another table written to it. -/
def write (v : Volume) (table : Option Table) : Volume :=
  if v.keepsLog then { v with table } else { v with table, settled := table }

/-- The volume, which keeps a log from now on if so it is said. -/
def logged (v : Volume) (log : Bool) : Volume := { v with keepsLog := v.keepsLog || log }

/-- What is left of the volume when its file is overwritten: all of it or nothing, as all of it is
in the log or not. -/
def overwritten (v : Volume) : Volume :=
  if v.keepsLog && v.settled.isNone && v.table.isSome then v else {}

/-- The volume with all that was written settled. -/
def settle (v : Volume) : Volume := { v with settled := v.table }

end Volume

end Schemata
