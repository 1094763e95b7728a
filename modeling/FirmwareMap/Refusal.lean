/-
  FirmwareMap.Refusal
  ───────────────────
  **WHY A DESCRIPTION OF MEMORY IS REFUSED.**

  A refusal is its cause, with the data that its message names.  Records are
  refused for a `RecordFault`, mappings in the wrong place for a
  `Misplacement`, the region of a stage's tables for a `RegionFault`.  The
  wording is in `message` alone; a reason that none of the causes covers is
  carried as text.
-/
import FirmwareMap.Paging.Stage
import FirmwareMap.Record.Value

namespace FirmwareMap

/-! ## §1. Records. -/

/-- What is wrong with a record, or with the mapping that it describes. -/
inductive RecordFault where
  /-- The text in a field of numbers is no numeral. -/
  | notNumeral (field text : String)
  | wantsNumber (field : String)
  | wantsFlag (field : String)
  | wantsText (field : String)
  | wantsList (field : String)
  /-- The list holds no name, or an empty one. -/
  | emptyName (field : String)
  | unknownPageSize (value : Value)
  /-- There is no such memory type of a region. -/
  | unknownMemoryType (name : String)
  /-- There is no such memory type of a leaf. -/
  | unknownPbmt (name : String)
  | unknownStage (name : String)
  | unknownField (name : String)
  | missingField (name : String)
  /-- A mapping has at least one page. -/
  | noPages
  /-- The declared stage does not exist on this platform. -/
  | stageNotEnabled (stage : Stage)
  /-- A mapping of the stage has an address of this kind. -/
  | missingAddress (stage : Stage) (kind : AddressKind)
  /-- A mapping of the stage has no address of this kind. -/
  | foreignAddress (stage : Stage) (kind : AddressKind)
  /-- A translated mapping has entries. -/
  | entriesForbidden (stage : Stage)
  /-- A leaf cannot have these permissions. -/
  | badPermissions (xwr : Word)
  /-- A page cannot start at this address. -/
  | misaligned (kind : AddressKind) (address : Word) (page : PageSize)
  /-- An alias places no sections. -/
  | aliasWithSections
  /-- An alias does not say how its region is cached. -/
  | aliasWithMemoryType
  /-- There is a virtual address, but no stage translates it to an address given. -/
  | sourceWithoutDest
  /-- The field says something about entries, and a direct mapping has none. -/
  | fieldOnDirect (field : String)
  /-- Entries are asked for where nothing is translated. -/
  | entriesWithoutSource
  | missingDest
  /-- There are two destination addresses. -/
  | twoDests (first second : AddressKind)
  /-- The bytes of the mapping are too many for a word. -/
  | sizeOverflow
  /-- The destination range leaves the address space. -/
  | destOverflow (kind : AddressKind)
  /-- The source range leaves the address space. -/
  | sourceOverflow
  /-- The mode has no leaf for pages of this size. -/
  | unsupportedPage (page : PageSize) (mode : Mode)
  /-- The mode cannot translate every address from `first` to `last`. -/
  | sourceRangeOutside (kind : AddressKind) (first last : Word) (mode : Mode)
  /-- The mode cannot translate the address of a page. -/
  | sourceOutside (kind : AddressKind) (mode : Mode)
  | other (text : String)
  deriving DecidableEq, Repr

/-- The wording of the fault. -/
def RecordFault.message : RecordFault → String
  | .notNumeral field text => field ++ " " ++ Text.quoted text ++ " is not a number"
  | .wantsNumber field => field ++ " must be a number"
  | .wantsFlag field => field ++ " must be a boolean"
  | .wantsText field => field ++ " must be a string"
  | .wantsList field => field ++ " must be a list"
  | .emptyName field => field ++ " has an empty name"
  | .unknownPageSize value => "unsupported page_size " ++ value.quoted
  | .unknownMemoryType name => "unknown PMA memory type " ++ name
  | .unknownPbmt name => "unknown PBMT mode " ++ name
  | .unknownStage name => "unknown translation stage " ++ name
  | .unknownField name => "unknown field " ++ name
  | .missingField name => "missing required field " ++ name
  | .noPages => "num_pages must be at least 1"
  | .stageNotEnabled stage => s!"translation stage {stage.name} is not enabled"
  | .missingAddress stage kind => s!"{stage.name} stage mapping requires {kind.name}"
  | .foreignAddress stage kind => s!"{kind.name} is not valid for {stage.name} stage"
  | .entriesForbidden stage =>
    s!"no_pte_allocation set on a mapping translated by {stage.name} stage"
  | .badPermissions xwr =>
    "xwr " ++ Numeral.binary xwr.toNat ++ " is not a valid leaf permission"
  | .misaligned kind address page =>
    s!"{kind.name} {address.hex} is not aligned to page size {page.name}"
  | .aliasWithSections => "alias mappings cannot place linker sections"
  | .aliasWithMemoryType => "alias mappings cannot set pma_memory_type"
  | .sourceWithoutDest => "va given without the destination address of an enabled stage"
  | .fieldOnDirect field => field ++ " is not allowed on a direct mapping"
  | .entriesWithoutSource => "mapping has no source address but no_pte_allocation is false"
  | .missingDest => "missing destination address"
  | .twoDests first second => s!"direct mapping has both {first.name} and {second.name}"
  | .sizeOverflow => "size overflows 64 bits"
  | .destOverflow kind => s!"{kind.name} range overflows 64 bits"
  | .sourceOverflow => "source range overflows 64 bits"
  | .unsupportedPage page mode => s!"{page.name} pages are not supported by {mode.name}"
  | .sourceRangeOutside kind first last mode =>
    s!"{kind.name} range {first.hex}..={last.hex} is outside the {mode.name} input address space"
  | .sourceOutside kind mode => s!"{kind.name} is outside the {mode.name} input address space"
  | .other text => text

/-! ## §2. Mappings in the wrong place, regions of tables. -/

/-- Why a mapping cannot stand where it was declared. -/
inductive Misplacement where
  /-- It was declared for this stage, but another one translates it. -/
  | foreignPartition (stage : Stage)
  | stageNotEnabled (stage : Stage)
  | other (text : String)
  deriving DecidableEq, Repr

def Misplacement.message : Misplacement → String
  | .foreignPartition stage => s!"declared in the {stage.name} stage partition"
  | .stageNotEnabled stage => s!"{stage.name} stage is not enabled"
  | .other text => text

/-- Why the tables of a stage have no place. -/
inductive RegionFault where
  /-- The mode of the stage has no tables. -/
  | noTables (stage : Stage) (mode : Mode)
  /-- No mapping reserves a region. -/
  | unreserved (stage : Stage)
  /-- Two mappings do. -/
  | reservedTwice (stage : Stage) (first second : String)
  /-- The region is smaller than the budget. -/
  | overBudget (stage : Stage) (pages bytes : Nat)
  /-- The root table cannot start where the region does. -/
  | misalignedRoot (stage : Stage) (base : Word) (rootBytes : Nat)
  | other (text : String)
  deriving DecidableEq, Repr

/-- The wording of the fault. -/
def RegionFault.message : RegionFault → String
  | .noTables stage mode => s!"{stage.name} stage runs in {mode.name} mode and has no page tables"
  | .unreserved stage => s!"no mapping reserves a {stage.token} section"
  | .reservedTwice stage first second => s!"both {first} and {second} reserve {stage.token}"
  | .overBudget stage pages bytes =>
    "budget of " ++ Numeral.decimal pages ++ " pages exceeds the " ++ Numeral.hex bytes ++ " byte "
      ++ stage.token ++ " region"
  | .misalignedRoot stage base rootBytes =>
    s!"{stage.name} region at {base.hex} is not aligned to its " ++ Numeral.hex rootBytes
      ++ " byte root table"
  | .other text => text

/-! ## §3. Refusals. -/

/-- Why a description is refused. -/
inductive Refusal where
  /-- The record or mapping is faulty in itself. -/
  | malformed (subject : String) (fault : RecordFault)
  /-- The mapping cannot stand where it was declared. -/
  | misplaced (subject : String) (fault : Misplacement)
  /-- Two ranges collide. -/
  | overlap (first second : String)
  /-- No mapping places what the alias shows. -/
  | danglingAlias (mapping : String)
  /-- No mapping places the section of the entry point. -/
  | noEntrySection
  /-- The tables of a stage have no place. -/
  | unusableRegion (fault : RegionFault)
  /-- The tables of a stage need more pages than these. -/
  | budgetExhausted (stage : Stage) (pages : Nat)
  /-- One slot would have to hold two values. -/
  | conflictingEntry (address existing new : Word)
  /-- A section shares names with several others. -/
  | ambiguousSection (sections : String)
  /-- The stage cannot run in this mode. -/
  | unsupportedMode (stage : Stage) (mode : Mode)
  deriving DecidableEq, Repr

/-- The wording of the refusal. -/
def Refusal.message : Refusal → String
  | .malformed subject fault => "invalid mapping " ++ subject ++ ": " ++ fault.message
  | .misplaced subject fault => "inconsistent mapping " ++ subject ++ ": " ++ fault.message
  | .overlap first second => first ++ " overlaps with " ++ second
  | .danglingAlias mapping =>
    "alias " ++ mapping ++ " is not contained in any non-alias mapping"
  | .noEntrySection => "no non-alias mapping declares a .text section"
  | .unusableRegion fault => "page table layout: " ++ fault.message
  | .budgetExhausted stage pages =>
    stage.name ++ " stage page tables need more than " ++ Numeral.decimal pages ++ " pages"
  | .conflictingEntry address existing new =>
    s!"PTE at {address.hex} already holds {existing.hex}, refusing to write {new.hex}"
  | .ambiguousSection sections => "section names claimed by multiple sections: " ++ sections
  | .unsupportedMode stage mode => s!"{stage.name} stage does not support {mode.name} mode"

end FirmwareMap
