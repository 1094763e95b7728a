/-
  FirmwareMap.Tables.Region
  ─────────────────────────
  **WHERE THE TABLES OF A STAGE GO.**

  The region of a stage is the one mapping that has a section reserved for it:
  a section named by the stage's token, or with a dot and the token somewhere
  in its name.  The region holds the whole budget and starts where a root
  table can start.
-/
import FirmwareMap.AddressMap.Basic
import FirmwareMap.Tables.Basic

namespace FirmwareMap

/-- The bytes in which budgets are counted. -/
def budgetPageBytes : Nat := PageSize.size4K.bytes

namespace Stage

/-- Whether a section of the given name is reserved for the tables of the stage. -/
def Reserves (t : Stage) (name : String) : Prop :=
  name = t.token ∨ '.' :: t.token.toList <:+: name.toList

instance (t : Stage) (name : String) : Decidable (t.Reserves name) :=
  inferInstanceAs (Decidable (_ ∨ _))

end Stage

namespace AddressMap

/-- The mappings with a section reserved for the tables of the stage. -/
def regions (a : AddressMap) (p : Platform) (t : Stage) : List Mapping :=
  (a.enabled p).filter fun m => ∃ name ∈ m.sections, t.Reserves name

/-- The one mapping with a section reserved for the tables of the stage. -/
def region (a : AddressMap) (p : Platform) (t : Stage) : Except RegionFault Mapping :=
  match a.regions p t with
  | [] => .error (.unreserved t)
  | [m] => .ok m
  | m :: n :: _ => .error (.reservedTwice t m.text n.text)

theorem mem_regions {a : AddressMap} {p : Platform} {t : Stage} {m : Mapping} :
    m ∈ a.regions p t ↔ m ∈ a.enabled p ∧ ∃ name ∈ m.sections, t.Reserves name := by
  unfold regions
  rw [List.mem_filter, decide_eq_true_iff]

/-- The region is the one mapping with a reserved name. -/
theorem region_eq_ok_iff {a : AddressMap} {p : Platform} {t : Stage} {m : Mapping} :
    a.region p t = .ok m ↔ a.regions p t = [m] := by
  unfold region
  split
  next h => simp [h]
  next n h => rw [h, Except.ok.injEq, List.cons.injEq, and_iff_left rfl]
  next n k rest h => simp [h]

/-- The address at which tables of so many pages can start. -/
def tableBase (a : AddressMap) (p : Platform) (t : Stage) (pages : Nat) :
    Except RegionFault Word := do
  let mode := p.mode t
  require mode.isPaged (.noTables t mode)
  let m ← a.region p t
  require (pages * budgetPageBytes ≤ m.block.bytes) (.overBudget t pages m.block.bytes)
  require (m.block.dest.toNat % mode.tableBytes 0 = 0)
    (.misalignedRoot t m.block.dest (mode.tableBytes 0))
  return m.block.dest

/-- No tables yet, at the place where tables of so many pages can start. -/
def startTables (a : AddressMap) (p : Platform) (t : Stage) (pages : Nat) :
    Except Refusal StageTables := do
  require (p.enables t) (.misplaced t.token (.stageNotEnabled t))
  let base ← (a.tableBase p t pages).mapError .unusableRegion
  return .start t (p.mode t) base

end AddressMap

end FirmwareMap
