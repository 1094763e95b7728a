/-
  FirmwareMap.Layout.Basic
  ────────────────────────
  **THE LAYOUT OF AN IMAGE.**

  The sections of all mappings are ordered by address, a guard page is put at
  the start of every gap between neighbours, and nothing may reach into what
  follows it.  Each section name has one load segment.
-/
import FirmwareMap.AddressMap.Basic
import FirmwareMap.Layout.OutputSection

namespace FirmwareMap

/-! ## §1. What is placed. -/

/-- The bytes of a guard. -/
def guardBytes : Nat := PageSize.size4K.bytes

/-- Something that has a place in the image. -/
inductive Placed where
  /-- An output section. -/
  | content (s : OutputSection)
  /-- A page that stays empty, so that running off the end of a section is noticed. -/
  | guard (index start : Nat)
  deriving DecidableEq, Repr

namespace Placed

/-- The name of the section in the image. -/
def name : Placed → String
  | .content s => s.name
  | .guard index _ => ".linker_guard_section_" ++ Numeral.decimal index

/-- The range of addresses. -/
def extent : Placed → Extent
  | .content s => s.extent
  | .guard _ start => ⟨start, guardBytes⟩

/-- The input sections, in the order of their placement. -/
def inputs : Placed → List String
  | .content s => s.inputs
  | .guard .. => []

/-- Whether zeros are written out. -/
def isZeroPadded : Placed → Bool
  | .content s => s.isZeroPadded
  | .guard .. => false

/-- Whether this is a guard. -/
def isGuard : Placed → Bool
  | .content _ => false
  | .guard .. => true

/-- The output section, if this is one. -/
def content? : Placed → Option OutputSection
  | .content s => some s
  | .guard .. => none

/-- The section or guard on one line. -/
def text (q : Placed) : String :=
  rangeText q.name q.extent

/-- Whether `q` comes no later than `r`: by start, then by name. -/
def precedes (q r : Placed) : Bool :=
  q.extent.start < r.extent.start ∨ (q.extent.start = r.extent.start ∧ q.name ≤ r.name)

/-- The list in ascending order of starts and names. -/
def sort (l : List Placed) : List Placed :=
  l.mergeSort precedes

/-- A guard at the start of every gap between neighbours, numbered in their order. -/
def guards (l : List Placed) : List Placed :=
  ((Extent.neighbours l).filter fun (q, r) => q.extent.stop < r.extent.start).mapIdx
    fun index (q, _) => .guard index q.extent.stop

end Placed

/-! ## §2. Layouts. -/

/-- The layout of an image. -/
structure ImageLayout where
  /-- The label at which the image is entered. -/
  entry : String
  /-- Where the description of the image came from. -/
  source : String
  /-- What is placed, in ascending order. -/
  placed : List Placed
  /-- The names of the load segments, in ascending order of addresses. -/
  headers : List String
  deriving DecidableEq, Repr

namespace ImageLayout

/-- The input sections that no image keeps. -/
def discarded : List String := [".note", ".comment", ".eh_frame", ".eh_frame_hdr"]

/-- The sections in order, with guards in the gaps between them. -/
def arrange (sections : List OutputSection) : List Placed :=
  -- gaps are those between contents; guards go in afterwards, and make none themselves
  let contents := Placed.sort (sections.map .content)
  Placed.sort (contents ++ Placed.guards contents)

/-- Nothing reaches into what follows it. -/
def checkDisjoint (placed : List Placed) : Except Refusal Unit :=
  match Extent.firstCollision? Placed.extent placed with
  | some (q, r) => .error (.overlap q.text r.text)
  | none => .ok ()

/-- The output sections, in ascending order. -/
def sections (l : ImageLayout) : List OutputSection :=
  l.placed.filterMap Placed.content?

/-- The layout of the mappings of every stage that exists. -/
def ofMap (a : AddressMap) (p : Platform) (entry source : String) : Run ImageLayout := do
  let sections ← OutputSection.ofMappings (a.enabled p)
  let placed := arrange sections
  checkDisjoint placed
  let headers := appendNew [] ((placed.filterMap Placed.content?).map (·.name))
  Run.report (.layoutDone source placed.length headers.length)
  return ⟨entry, source, placed, headers⟩

end ImageLayout

end FirmwareMap
