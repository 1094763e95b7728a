/-
  FirmwareMap.Report.Event
  ────────────────────────
  **WHAT IS REPORTED ALONG THE WAY.**

  Every event has a severity and a wording of one line.
-/
import FirmwareMap.Paging.Stage
import FirmwareMap.Text.Numeral

namespace FirmwareMap

/-- How much an event matters. -/
inductive Severity where
  /-- A result. -/
  | info
  /-- A decision on the way to one. -/
  | debug
  /-- A single step. -/
  | trace
  deriving DecidableEq, Repr

def Severity.name : Severity → String
  | .info => "INFO"
  | .debug => "DEBUG"
  | .trace => "TRACE"

/-- Something that happened while a map, its tables or its layout were made. -/
inductive Event where
  /-- A map of so many mappings was accepted. -/
  | mapAccepted (mappings : Nat)
  /-- A table was allocated for the source addresses from `start` up to `stop`. -/
  | tableAllocated (stage : Stage) (depth : Nat) (address start : Word) (stop : Nat)
  /-- An entry was written. -/
  | entryWritten (address value : Word)
  /-- An entry was to be written that was already there. -/
  | entryRepeated (address value : Word)
  /-- The tables of a stage are complete. -/
  | tablesBuilt (stage : Stage) (mode : Mode) (tables entries : Nat) (base : Word)
  /-- The tables of a stage are tried again with more pages. -/
  | budgetGrown (stage : Stage) (pages : Nat)
  /-- A section took in another. -/
  | sectionMerged (merged : String)
  /-- A layout is complete. -/
  | layoutDone (source : String) (sections headers : Nat)
  deriving DecidableEq, Repr

namespace Event

/-- How much the event matters. -/
def severity : Event → Severity
  | .tablesBuilt .. | .layoutDone .. => .info
  | .mapAccepted .. | .tableAllocated .. | .budgetGrown .. | .sectionMerged .. => .debug
  | .entryWritten .. | .entryRepeated .. => .trace

/-- The wording of the event. -/
def text : Event → String
  | .mapAccepted mappings =>
    "memory map valid: " ++ Numeral.decimal mappings ++ " mappings"
  | .tableAllocated stage depth address start stop =>
    stage.name ++ " stage: level " ++ Numeral.decimal depth ++ " table at " ++ address.hex
      ++ " for " ++ start.hex ++ ".." ++ Numeral.hex stop
  | .entryWritten address value => "PTE " ++ address.hex ++ " = " ++ value.hex
  | .entryRepeated address value => "PTE " ++ address.hex ++ " already holds " ++ value.hex
  | .tablesBuilt stage mode tables entries base =>
    stage.name ++ " stage " ++ mode.name ++ " page tables: " ++ Numeral.decimal tables
      ++ " pages, " ++ Numeral.decimal entries ++ " entries at " ++ base.hex
  | .budgetGrown stage pages =>
    stage.name ++ " stage page tables: growing budget to " ++ Numeral.decimal pages ++ " pages"
  | .sectionMerged merged => "merged section " ++ merged
  | .layoutDone source sections headers =>
    "linker layout for " ++ source ++ ": " ++ Numeral.decimal sections ++ " sections, "
      ++ Numeral.decimal headers ++ " program headers"

end Event

end FirmwareMap
