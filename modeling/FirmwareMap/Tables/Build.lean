/-
  FirmwareMap.Tables.Build
  ────────────────────────
  **BUILDING THE TABLES OF A STAGE WITHIN A BUDGET.**

  A budget is a number of pages, or a range of numbers that are tried one
  after the other while the tables do not fit.  Every mapping declared for the
  stage is mapped in the order of declaration; at the end the first and the
  last slot hold an entry, so that the entries tell the bounds of the image.
-/
import FirmwareMap.Tables.Fill

namespace FirmwareMap

/-- How many pages tables may take. -/
inductive Budget where
  /-- So many pages. -/
  | fixed (pages : Nat)
  /-- At first `initial` pages, and then one more after the other, up to `limit`. -/
  | growing (initial limit : Nat)
  deriving DecidableEq, Repr

namespace StageTables

/-! ## §1. One attempt. -/

/-- The tables with zero at an address that has no entry. -/
def pin (address : Word) (t : StageTables) : StageTables :=
  { t with entries := t.entries.insertIfNew address 0 }

/-- The tables with an entry in the first slot of the first table and in the last slot of the last
one. -/
def pinEnds (t : StageTables) : Except Fault StageTables :=
  match t.tables.head?, t.tables.getLast? with
  | some first, some last => do
    -- tables come in ascending order, so these two slots are the ends of the image
    let stop ← demand (Word.ofNat? last.extent.stop) .overflow
    return (t.pin first.address).pin (stop - .ofNat entryBytes)
  | _, _ => .ok t

/-- The tables of a stage, within a budget of so many pages. -/
def ofMap (a : AddressMap) (p : Platform) (stage : Stage) (pages : Nat) : Run StageTables := do
  let t ← a.startTables p stage pages
  let t ← (a.entries stage).foldlM (mapPages pages) t
  let t ← t.pinEnds
  Run.report (.tablesBuilt stage t.mode t.tables.length t.entries.size t.base)
  return t

/-! ## §2. Growing budgets. -/

/-- The tables of a stage, within a budget of so many pages or up to `retries` more. -/
def grow (a : AddressMap) (p : Platform) (stage : Stage) :
    (retries pages : Nat) → Run StageTables
  | 0, pages => ofMap a p stage pages
  | retries + 1, pages =>
    (ofMap a p stage pages).recover fun
      | .budgetExhausted .. => some do
        Run.report (.budgetGrown stage (pages + 1))
        grow a p stage retries (pages + 1)
      -- more pages would not help with any other refusal
      | _ => none

/-- The tables of a stage, within a budget. -/
def build (a : AddressMap) (p : Platform) (stage : Stage) : Budget → Run StageTables
  | .fixed pages => ofMap a p stage pages
  | .growing initial limit => grow a p stage (limit - initial) initial

end StageTables

end FirmwareMap
