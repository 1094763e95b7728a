/-
  FirmwareMap.Tables.Basic
  ────────────────────────
  **THE TABLES OF A STAGE.**

  Tables are packed one after the other from the base of a region, in the
  order in which they were allocated; the root comes first.  Entries are kept
  by address: an address without an entry holds zero.

      used = Σ bytes of the tables        next table = base + used

  What the tables tell is not kept beside them.  A running count of the bytes
  in use would start at zero and grow by the bytes of each new table, which is
  the sum over the list.  An index from the level and the first source address
  to the table would gain one key with each table, and a table is allocated
  only for a key that none has, so the index holds what a search of the list
  finds first.  The budget does not change while tables are filled, and is an
  argument of what allocates.
-/
import FirmwareMap.Address.Extent
import FirmwareMap.Paging.Entry
import FirmwareMap.Paging.Stage
import FirmwareMap.Report.Run
import FirmwareMap.Requirement
import Std.Data.TreeMap

namespace FirmwareMap

/-! ## §1. One table. -/

/-- A table of some level. -/
structure Table where
  /-- The level at which a walk reads the table. -/
  level : Level
  /-- Where the table starts. -/
  address : Word
  /-- The first source address that the table covers. -/
  start : Word
  deriving DecidableEq, Repr

namespace Table

/-- The number of bytes. -/
def bytes (t : Table) : Nat :=
  t.level.tableBytes

/-- The range of addresses that the table occupies. -/
def extent (t : Table) : Extent :=
  ⟨t.address.toNat, t.bytes⟩

/-- The range of source addresses that the table covers. -/
def coverage (t : Table) : Extent :=
  ⟨t.start.toNat, t.level.span⟩

/-- The address of the entry that a table of some level at `address` has for a source address. -/
def slotAt (l : Level) (address source : Word) : Except Fault Word :=
  demand (Word.ofNat? (address.toNat + (l.index.extract source).toNat * entryBytes)) .overflow

/-- The address of the entry for a source address, which lies within the table. -/
def slot (t : Table) (source : Word) : Except Fault Word := do
  let slot ← slotAt t.level t.address source
  require (slot.toNat + entryBytes ≤ t.extent.stop) (.slotOutsideTable slot)
  return slot

end Table

/-! ## §2. The tables of a stage. -/

/-- The tables of one stage. -/
structure StageTables where
  /-- The stage that the tables are for. -/
  stage : Stage
  /-- The mode in which the stage runs. -/
  mode : Mode
  /-- Where the region starts. -/
  base : Word
  /-- The tables, in the order of their allocation. -/
  tables : List Table
  /-- The entries, by address. -/
  entries : Std.TreeMap Word Word

namespace StageTables

/-- No tables yet. -/
def start (stage : Stage) (mode : Mode) (base : Word) : StageTables :=
  ⟨stage, mode, base, [], ∅⟩

/-- The number of bytes of all tables. -/
def used (t : StageTables) : Nat :=
  t.tables.foldr (fun u n => u.bytes + n) 0

/-- The value that switches the stage on. -/
def token (t : StageTables) : Word :=
  Token.encode t.mode t.base

/-- The table of a level that covers a source address. -/
def tableAt? (t : StageTables) (l : Level) (source : Word) : Option Table :=
  let start := l.tableStart source
  t.tables.find? fun u => u.start = start ∧ u.level = l

end StageTables

end FirmwareMap
