/-
  FirmwareMap.Paging.Attributes
  ─────────────────────────────
  **WHAT A MAPPED PAGE ALLOWS AND HOW IT IS CACHED.**

  Permissions are the five combinations that a leaf may have: writing without
  reading is reserved, and no permission at all marks a pointer.  As a number,
  bit 0 is reading, bit 1 writing and bit 2 execution.
-/
import FirmwareMap.Requirement
import FirmwareMap.Word.Basic

namespace FirmwareMap

/-! ## §1. Permissions. -/

/-- What a leaf allows. -/
inductive Permissions where
  | r
  | rw
  | x
  | rx
  | rwx
  deriving DecidableEq, Repr

namespace Permissions

def all : List Permissions := [.r, .rw, .x, .rx, .rwx]

/-- Whether the page can be read. -/
def readable : Permissions → Bool
  | .r | .rw | .rx | .rwx => true
  | .x => false

/-- Whether the page can be written. -/
def writable : Permissions → Bool
  | .rw | .rwx => true
  | .r | .x | .rx => false

/-- Whether the page can be executed. -/
def executable : Permissions → Bool
  | .x | .rx | .rwx => true
  | .r | .rw => false

/-- The combination as a number. -/
def bits (p : Permissions) : Nat :=
  p.readable.toNat + 2 * p.writable.toNat + 4 * p.executable.toNat

/-- The combination of the given number. -/
def ofBits? (n : Word) : Option Permissions :=
  all.find? fun p => p.bits = n.toNat

/-- The three letters of the combination, a dash for each that is missing. -/
def text (p : Permissions) : String :=
  .ofList [if p.readable then 'r' else '-', if p.writable then 'w' else '-',
    if p.executable then 'x' else '-']

theorem readable_of_writable {p : Permissions} (h : p.writable) : p.readable := by
  cases p <;> simp_all [writable, readable]

theorem bits_pos (p : Permissions) : 0 < p.bits := by
  cases p <;> decide

theorem bits_lt (p : Permissions) : p.bits < 8 := by
  cases p <;> decide

theorem ofBits?_eq_some_iff {n : Word} {p : Permissions} :
    ofBits? n = some p ↔ p.bits = n.toNat :=
  find?_key_eq_some_iff fun p => by cases p <;> rfl

end Permissions

/-! ## §2. Caching. -/

/-- The memory type that a leaf asks for. -/
inductive Pbmt where
  /-- What the region says. -/
  | pma
  /-- Main memory that is not cached. -/
  | nc
  /-- Devices. -/
  | io
  deriving DecidableEq, Repr

namespace Pbmt

def all : List Pbmt := [.pma, .nc, .io]

def name : Pbmt → String
  | .pma => "pma"
  | .nc => "nc"
  | .io => "io"

def ofName? (name : String) : Option Pbmt :=
  all.find? fun t => t.name = name

/-- The type as a number. -/
def bits : Pbmt → Nat
  | .pma => 0
  | .nc => 1
  | .io => 2

/-- The type of the given number. -/
def ofBits? (n : Word) : Option Pbmt :=
  all.find? fun t => t.bits = n.toNat

theorem bits_lt (t : Pbmt) : t.bits < 4 := by
  cases t <;> decide

/-- A memory type is known by its name alone. -/
theorem ofName?_eq_some_iff {name : String} {t : Pbmt} :
    ofName? name = some t ↔ t.name = name :=
  find?_key_eq_some_iff fun t => by cases t <;> rfl

theorem ofBits?_eq_some_iff {n : Word} {t : Pbmt} :
    ofBits? n = some t ↔ t.bits = n.toNat :=
  find?_key_eq_some_iff fun t => by cases t <;> rfl

end Pbmt

/-- How a region of memory is to be cached. -/
inductive MemoryType where
  /-- Not cached. -/
  | uc
  /-- Not cached, with writes combined. -/
  | wc
  /-- Cached, written back. -/
  | wb
  deriving DecidableEq, Repr

namespace MemoryType

def all : List MemoryType := [.uc, .wc, .wb]

def name : MemoryType → String
  | .uc => "uc"
  | .wc => "wc"
  | .wb => "wb"

def ofName? (name : String) : Option MemoryType :=
  all.find? fun t => t.name = name

/-- A way of caching is known by its name alone. -/
theorem ofName?_eq_some_iff {name : String} {t : MemoryType} :
    ofName? name = some t ↔ t.name = name :=
  find?_key_eq_some_iff fun t => by cases t <;> rfl

end MemoryType

end FirmwareMap
