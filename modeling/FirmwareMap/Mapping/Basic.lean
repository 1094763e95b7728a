/-
  FirmwareMap.Mapping.Basic
  ─────────────────────────
  **MAPPINGS: REGIONS OF MEMORY AND HOW THEY ARE SEEN.**

  A `Block` is a run of pages at a destination.  A `View` is how one stage
  sees a block: from which source address, and with which permissions.  A
  mapping places a block without translation, places it and shows it to a
  stage, or shows a stage what another mapping places:

      direct      = block
      translated  = block + view
      aliased     = view of a block placed elsewhere
-/
import FirmwareMap.Address.Extent
import FirmwareMap.Paging.Attributes
import FirmwareMap.Paging.Stage
import FirmwareMap.Text.Numeral

namespace FirmwareMap

/-! ## §1. Blocks and views. -/

/-- A run of pages. -/
structure Block where
  /-- The destination address of the first page. -/
  dest : Word
  /-- The size of each page. -/
  page : PageSize
  /-- The number of pages. -/
  count : Word
  deriving DecidableEq, Repr

namespace Block

/-- The number of bytes, whether or not a word can hold it. -/
def bytes (b : Block) : Nat :=
  b.count.toNat * b.page.bytes

/-- The range of destination addresses. -/
def extent (b : Block) : Extent :=
  ⟨b.dest.toNat, b.bytes⟩

end Block

/-- How a stage sees a run of pages. -/
structure View where
  /-- The stage that translates. -/
  stage : Stage
  /-- The source address of the first page. -/
  source : Word
  /-- What the pages allow. -/
  permissions : Permissions
  /-- Whether user programs may use the pages. -/
  user : Bool
  /-- Whether the translation is in force. -/
  valid : Bool
  /-- The memory type that the entries ask for. -/
  pbmt : Option Pbmt
  deriving DecidableEq, Repr

/-! ## §2. Mappings. -/

/-- One entry of the description of memory. -/
inductive Mapping where
  /-- A block that no stage translates. -/
  | direct (kind : AddressKind) (block : Block) (memoryType : Option MemoryType)
      (sections : List String)
  /-- A block with the view of the stage that translates to it. -/
  | translated (view : View) (block : Block) (memoryType : Option MemoryType)
      (sections : List String)
  /-- A further view of memory that other mappings place. -/
  | aliased (view : View) (block : Block)
  deriving DecidableEq, Repr

namespace Mapping

/-- The run of pages. -/
def block : Mapping → Block
  | .direct _ b _ _ | .translated _ b _ _ | .aliased _ b => b

/-- How a stage sees the pages, if one does. -/
def view? : Mapping → Option View
  | .direct .. => none
  | .translated v _ _ _ | .aliased v _ => some v

/-- The stage that translates the mapping, if one does. -/
def stage? (m : Mapping) : Option Stage :=
  m.view?.map (·.stage)

/-- The kind of the destination addresses. -/
def destKind : Mapping → AddressKind
  | .direct kind _ _ _ => kind
  | .translated v _ _ _ | .aliased v _ => v.stage.dest

/-- How the region is to be cached, if the mapping says so. -/
def memoryType? : Mapping → Option MemoryType
  | .direct _ _ t _ | .translated _ _ t _ => t
  | .aliased .. => none

/-- The names of the sections placed in the region. -/
def sections : Mapping → List String
  | .direct _ _ _ names | .translated _ _ _ names => names
  | .aliased .. => []

/-- Whether the mapping only shows what another one places. -/
def isAlias : Mapping → Bool
  | .aliased .. => true
  | .direct .. | .translated .. => false

/-- Whether no stage translates the mapping. -/
def isDirect : Mapping → Bool
  | .direct .. => true
  | .translated .. | .aliased .. => false

/-- The range of destination addresses. -/
def destExtent (m : Mapping) : Extent :=
  m.block.extent

/-- The range of source addresses of a view of the mapping. -/
def extentFrom (m : Mapping) (v : View) : Extent :=
  ⟨v.source.toNat, m.block.bytes⟩

/-- The range of source addresses, if a stage translates the mapping. -/
def sourceExtent? (m : Mapping) : Option Extent :=
  m.view?.map m.extentFrom

/-! ## §3. Text. -/

/-- The two sides of a view onto a block. -/
def viewText (v : View) (b : Block) : String :=
  v.stage.source.name ++ "=" ++ v.source.hex ++ " -> " ++ v.stage.dest.name ++ "=" ++ b.dest.hex
    ++ " " ++ v.permissions.text

/-- The mapping without its pages and sections. -/
def headText : Mapping → String
  | .direct kind b _ _ => "direct " ++ kind.name ++ "=" ++ b.dest.hex
  | .translated v b _ _ => v.stage.name ++ " " ++ viewText v b
  | .aliased v b => v.stage.name ++ " alias " ++ viewText v b

/-- The mapping on one line. -/
def text (m : Mapping) : String :=
  let pages := Numeral.decimal m.block.count.toNat ++ "x" ++ m.block.page.name
  let sections := if m.sections = [] then "" else " " ++ ",".intercalate m.sections
  "[" ++ m.headText ++ " " ++ pages ++ sections ++ "]"

end Mapping

end FirmwareMap
