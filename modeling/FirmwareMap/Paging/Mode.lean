/-
  FirmwareMap.Paging.Mode
  ───────────────────────
  **PAGING MODES AND THEIR LEVELS.**

  A mode is a list of levels, root first.  Each level has the bits of the
  source address that pick an entry of its table, the bits of the destination
  that a leaf of this level fixes, the bits where an entry keeps those, and the
  size of the page that it maps:

      span l   = 2 ^ (top bit of the index + 1)     source addresses per table
      bytes l  = 8 · 2 ^ (width of the index)       bytes of one table

  The mode without levels translates nothing.
-/
import FirmwareMap.Address.PageSize
import FirmwareMap.Word.BitField

namespace FirmwareMap

/-- The bytes of one table entry. -/
def entryBytes : Nat := 8

/-! ## §1. One level of a walk. -/

/-- One level of the tables of a mode. -/
structure Level where
  /-- The number of levels above. -/
  depth : Nat
  /-- The page that a leaf of this level maps. -/
  page : PageSize
  /-- The bits of a source address that pick the entry. -/
  index : BitField
  /-- The bits of a destination address that only a leaf of this level or a deeper one has. -/
  frame : BitField
  /-- Where an entry keeps the frame bits. -/
  stored : BitField
  deriving DecidableEq, Repr

namespace Level

/-- The number of entries of a table. -/
def entries (l : Level) : Nat :=
  twoPow l.index.width

/-- The bytes of a table. -/
def tableBytes (l : Level) : Nat :=
  entryBytes * l.entries

/-- The number of source addresses that a table covers. -/
def span (l : Level) : Nat :=
  twoPow (l.index.msb + 1)

/-- The first of the source addresses that the table for `source` covers. -/
def tableStart (l : Level) (source : Word) : Word :=
  .ofNat (source.toNat / l.span * l.span)

theorem span_pos (l : Level) : 0 < l.span :=
  twoPow_pos _

@[simp] theorem toNat_tableStart (l : Level) (source : Word) :
    (l.tableStart source).toNat = source.toNat / l.span * l.span := by
  have h := Nat.div_mul_le_self source.toNat l.span
  exact Word.toNat_ofNat_of_lt (Nat.lt_of_le_of_lt h source.toNat_lt_size)

/-- The table that covers a source address starts at or before it. -/
theorem tableStart_le (l : Level) (source : Word) :
    (l.tableStart source).toNat ≤ source.toNat := by
  rw [toNat_tableStart]
  exact Nat.div_mul_le_self _ _

/-- The table that covers a source address ends after it. -/
theorem lt_tableStart_add_span (l : Level) (source : Word) :
    source.toNat < (l.tableStart source).toNat + l.span := by
  rw [toNat_tableStart]
  have := Nat.lt_div_mul_add (a := source.toNat) l.span_pos
  omega

end Level

/-! ## §2. The modes. -/

/-- A scheme of address translation. -/
inductive Mode where
  /-- No translation. -/
  | bare
  /-- Three levels, 39 bits, the upper bits a copy of the sign. -/
  | sv39
  /-- Four levels, 48 bits, the upper bits a copy of the sign. -/
  | sv48
  /-- Three levels under a root of four pages, 41 bits, the upper bits zero. -/
  | sv39x4
  /-- Four levels under a root of four pages, 50 bits, the upper bits zero. -/
  | sv48x4
  deriving DecidableEq, Repr

namespace Mode

def all : List Mode := [.bare, .sv39, .sv48, .sv39x4, .sv48x4]

def name : Mode → String
  | .bare => "bare"
  | .sv39 => "sv39"
  | .sv48 => "sv48"
  | .sv39x4 => "sv39x4"
  | .sv48x4 => "sv48x4"

def ofName? (name : String) : Option Mode :=
  all.find? fun m => m.name = name

/-- The number that selects the mode in a stage's control register. -/
def encoding : Mode → Nat
  | .bare => 0
  | .sv39 | .sv39x4 => 8
  | .sv48 | .sv48x4 => 9

/-- Whether the root table is four pages wide. -/
def isWidened : Mode → Bool
  | .bare | .sv39 | .sv48 => false
  | .sv39x4 | .sv48x4 => true

/-- The levels, root first. -/
def levels : Mode → List Level
  | .bare => []
  | .sv39 =>
    [⟨0, .size1G, .bits 38 30, .bits 55 30, .bits 53 28⟩,
     ⟨1, .size2M, .bits 29 21, .bits 29 21, .bits 27 19⟩,
     ⟨2, .size4K, .bits 20 12, .bits 20 12, .bits 18 10⟩]
  | .sv48 =>
    [⟨0, .size512G, .bits 47 39, .bits 55 39, .bits 53 37⟩,
     ⟨1, .size1G, .bits 38 30, .bits 38 30, .bits 36 28⟩,
     ⟨2, .size2M, .bits 29 21, .bits 29 21, .bits 27 19⟩,
     ⟨3, .size4K, .bits 20 12, .bits 20 12, .bits 18 10⟩]
  | .sv39x4 =>
    [⟨0, .size1G, .bits 40 30, .bits 55 30, .bits 53 28⟩,
     ⟨1, .size2M, .bits 29 21, .bits 29 21, .bits 27 19⟩,
     ⟨2, .size4K, .bits 20 12, .bits 20 12, .bits 18 10⟩]
  | .sv48x4 =>
    [⟨0, .size512G, .bits 49 39, .bits 55 39, .bits 53 37⟩,
     ⟨1, .size1G, .bits 38 30, .bits 38 30, .bits 36 28⟩,
     ⟨2, .size2M, .bits 29 21, .bits 29 21, .bits 27 19⟩,
     ⟨3, .size4K, .bits 20 12, .bits 20 12, .bits 18 10⟩]

/-- Whether the mode has tables. -/
def isPaged (m : Mode) : Bool :=
  m ≠ .bare

/-- The sizes of page that the mode can map, largest first. -/
def pageSizes (m : Mode) : List PageSize :=
  m.levels.map (·.page)

/-- The level whose leaves map pages of the given size. -/
def leafLevel? (m : Mode) (size : PageSize) : Option Level :=
  m.levels.find? fun l => l.page = size

/-- The number of source address bits that are translated. -/
def sourceBits (m : Mode) : Nat :=
  match m.levels with
  | [] => 64
  | root :: _ => root.index.msb + 1

/-- The bytes of a table at a depth; where no walk arrives, those of a plain table. -/
def tableBytes (m : Mode) (depth : Nat) : Nat :=
  match m.levels[depth]? with
  | some l => l.tableBytes
  | none => PageSize.size4K.bytes

/-! ## §3. Facts that hold of every level of every mode. -/

theorem isPaged_iff {m : Mode} : m.isPaged ↔ m.levels ≠ [] := by
  cases m <;> decide

/-- A level stands at the place in the list that its depth tells. -/
theorem levels_getElem?_depth {m : Mode} {l : Level} (h : l ∈ m.levels) :
    m.levels[l.depth]? = some l := by
  revert l
  cases m <;> decide

/-- The lowest bit of the index is the first bit above the page. -/
theorem index_lsb {m : Mode} {l : Level} (h : l ∈ m.levels) : l.index.lsb = l.page.bits := by
  revert l
  cases m <;> decide

end Mode

end FirmwareMap
