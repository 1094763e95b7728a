/-
  FirmwareMap.Tables.Fill
  ───────────────────────
  **MAPPING PAGES.**

  A page needs one table at each level from the root to its leaf.  Tables that
  are missing are allocated first, from the root down; then each table gets
  its entry for the page: a pointer to the next table, or the leaf.  An entry
  that is already there has to be the same.
-/
import FirmwareMap.Mapping.Basic
import FirmwareMap.Paging.Canonical
import FirmwareMap.Tables.Region

namespace FirmwareMap

/-! ## §1. The pages of a mapping. -/

/-- One page to be mapped. -/
structure Page where
  /-- The source address at which the page starts. -/
  source : Word
  /-- The size of the page. -/
  size : PageSize
  /-- What the entry for the page says. -/
  leaf : Leaf
  deriving DecidableEq, Repr

namespace Mapping

/-- The page of a view that has so many pages before it. -/
def pageAt (v : View) (b : Block) (i : Nat) : Except Fault Page := do
  let frame ← demand (Word.ofNat? (b.dest.toNat + i * b.page.bytes)) .overflow
  return {
    -- cannot wrap: a source range that was checked ends within the address space
    source := .ofNat (v.source.toNat + i * b.page.bytes)
    size := b.page
    leaf := .mapped frame v.permissions v.user v.pbmt v.valid }

/-- The pages that a stage sees, in ascending order. -/
def pages (m : Mapping) : Except Fault (List Page) :=
  match m.view? with
  | none => .ok []
  | some v => (List.range m.block.count.toNat).mapM (pageAt v m.block)

end Mapping

namespace StageTables

/-! ## §2. Tables for a source address. -/

/-- One more table, at the end of those there are, within a budget of so many pages. -/
def allocate (budget : Nat) (l : Level) (source : Word) (t : StageTables) :
    Run (StageTables × Table) := do
  -- the budget is asked before the address is made, so that running out of it is no overflow
  require (t.used + l.tableBytes ≤ budget * budgetPageBytes)
    (Refusal.budgetExhausted t.stage budget)
  let address ← demand (Word.ofNat? (t.base.toNat + t.used)) Fault.overflow
  require (address.toNat % l.tableBytes = 0) (Fault.misalignedTable address)
  let table : Table := ⟨l, address, l.tableStart source⟩
  Run.report (.tableAllocated t.stage l.depth address table.start table.coverage.stop)
  return ({ t with tables := t.tables ++ [table] }, table)

/-- The table of a level for a source address, allocated if it is not there yet. -/
def tableFor (budget : Nat) (l : Level) (source : Word) (t : StageTables) :
    Run (StageTables × Table) :=
  match t.tableAt? l source with
  | some table => return (t, table)
  | none => t.allocate budget l source

/-- The tables of some levels for a source address. -/
def reach (budget : Nat) (source : Word) :
    List Level → StageTables → Run (StageTables × List Table)
  | [], t => return (t, [])
  | l :: rest, t => do
    let (t, table) ← t.tableFor budget l source
    let (t, path) ← reach budget source rest t
    return (t, table :: path)

/-! ## §3. Entries. -/

/-- The tables with an entry written; an entry that is there already has to be the same. -/
def write (address value : Word) (t : StageTables) : Run StageTables :=
  match t.entries[address]? with
  | none => do
    Run.report (.entryWritten address value)
    return { t with entries := t.entries.insert address value }
  | some existing =>
    if existing = value then do
      Run.report (.entryRepeated address value)
      return t
    else
      Run.refuse (.conflictingEntry address existing value)

/-- The tables with the entries that lead along a path of tables to a leaf. -/
def link (source leaf : Word) : List Table → StageTables → Run StageTables
  | [], t => return t
  | [table], t => do
    t.write (← table.slot source) leaf
  | table :: next :: rest, t => do
    let t ← t.write (← table.slot source) (Entry.pointer t.mode next.address)
    link source leaf (next :: rest) t

/-! ## §4. Pages. -/

/-- The level of the page's leaf and the translated bits of its source address. -/
def locate (t : StageTables) (q : Page) : Except RecordFault (Level × Word) := do
  let level ← demand (t.mode.leafLevel? q.size) (.unsupportedPage q.size t.mode)
  let source ← demand (t.mode.canonical? q.source) (.sourceOutside t.stage.source t.mode)
  return (level, source)

/-- The tables with one more page mapped. -/
def mapPage (budget : Nat) (t : StageTables) (q : Page) : Run StageTables := do
  let (level, source) ← (t.locate q).mapError (Refusal.malformed q.source.hex)
  let (t, path) ← reach budget source (t.mode.levels.take (level.depth + 1)) t
  link source (q.leaf.encode t.mode) path t

/-- The tables with all pages of a mapping mapped. -/
def mapPages (budget : Nat) (t : StageTables) (m : Mapping) : Run StageTables := do
  let pages ← m.pages
  pages.foldlM (mapPage budget) t

end StageTables

end FirmwareMap
