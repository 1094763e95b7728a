/-
  FirmwareMap.Mapping.Check
  ─────────────────────────
  **WHETHER A MAPPING FITS A PLATFORM.**

  The range of a mapping is not empty, starts at a page, and ends within the
  address space; where a paged stage translates it, the mode has leaves for
  its pages and can translate every source address.

  The last requirement is decided at the two ends of the range: both are
  canonical, and their translated bits lie as far apart as the ends do.
-/
import FirmwareMap.Mapping.Basic
import FirmwareMap.Paging.Canonical
import FirmwareMap.Paging.Platform
import FirmwareMap.Requirement

namespace FirmwareMap.Mapping

/-- A page can start at the address. -/
def requireAligned (kind : AddressKind) (a : Word) (page : PageSize) : Except RecordFault Unit :=
  require (page.Aligned a) (.misaligned kind a page)

/-- The block is not empty, starts at a page, and ends within the address space. -/
def checkBlock (kind : AddressKind) (b : Block) : Except RecordFault Unit := do
  require (b.count ≠ 0) .noPages
  requireAligned kind b.dest b.page
  require (b.bytes < Word.count) .sizeOverflow
  require (b.extent.stop < Word.count) (.destOverflow kind)

/-- Whether the translated bits of the ends of a range lie as far apart as the ends do. -/
def endsContiguous (m : Mode) (first last : Word) : Bool :=
  match m.canonical? first, m.canonical? last with
  | some s, some t => s.toNat + (last.toNat - first.toNat) = t.toNat
  | _, _ => false

/-- The mode can translate the source addresses of the pages. -/
def checkMode (m : Mode) (kind : AddressKind) (first last : Word) (page : PageSize) :
    Except RecordFault Unit := do
  require (m.leafLevel? page ≠ none) (.unsupportedPage page m)
  require (endsContiguous m first last) (.sourceRangeOutside kind first last m)

/-- The pages can be seen from the source address, under the mode of the stage. -/
def checkView (p : Platform) (v : View) (b : Block) : Except RecordFault Unit := do
  requireAligned v.stage.source v.source b.page
  require (v.source.toNat + b.bytes ≤ Word.count) .sourceOverflow
  let mode := p.mode v.stage
  -- the last address, not the one after it: a range may end where the address space does
  if mode.isPaged then
    checkMode mode v.stage.source v.source (.ofNat (v.source.toNat + (b.bytes - 1))) b.page

/-- The mapping fits the platform. -/
def check (p : Platform) (m : Mapping) : Except RecordFault Unit := do
  checkBlock m.destKind m.block
  match m.view? with
  | some v => checkView p v m.block
  | none => .ok ()

end FirmwareMap.Mapping
