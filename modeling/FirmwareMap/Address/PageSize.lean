/-
  FirmwareMap.Address.PageSize
  ────────────────────────────
  **THE FOUR SIZES OF A PAGE.**

  Each size is a power of two, nine bits above the one before:

      size.bytes.toNat = 2 ^ size.bits      bits ∈ {12, 21, 30, 39}

  A size is recognised by its count of bytes or by its name in either case.
-/
import FirmwareMap.Requirement
import FirmwareMap.Word.Basic

namespace FirmwareMap

/-- The size of a page that a single leaf entry maps. -/
inductive PageSize where
  | size4K
  | size2M
  | size1G
  | size512G
  deriving DecidableEq, Repr

namespace PageSize

/-- Every size, smallest first. -/
def all : List PageSize := [.size4K, .size2M, .size1G, .size512G]

/-- The number of address bits that stay within one page. -/
def bits : PageSize → Nat
  | .size4K => 12
  | .size2M => 21
  | .size1G => 30
  | .size512G => 39

/-- The number of bytes in a page. -/
def bytes (size : PageSize) : Nat :=
  twoPow size.bits

def name : PageSize → String
  | .size4K => "4K"
  | .size2M => "2M"
  | .size1G => "1G"
  | .size512G => "512G"

/-- The name of the size in lower case. -/
def lowerName : PageSize → String
  | .size4K => "4k"
  | .size2M => "2m"
  | .size1G => "1g"
  | .size512G => "512g"

/-- The size of a page of `n` bytes. -/
def ofBytes? (n : Word) : Option PageSize :=
  all.find? fun size => size.bytes = n.toNat

/-- The size of the given name, in either case. -/
def ofName? (name : String) : Option PageSize :=
  all.find? fun size => size.name = name ∨ size.lowerName = name

/-- Whether a page of this size can start at `a`. -/
def Aligned (size : PageSize) (a : Word) : Prop :=
  a.toNat % size.bytes = 0

instance (size : PageSize) (a : Word) : Decidable (size.Aligned a) :=
  inferInstanceAs (Decidable (_ = _))

theorem bytes_pos (size : PageSize) : 0 < size.bytes :=
  twoPow_pos _

theorem ofBytes?_eq_some_iff {n : Word} {size : PageSize} :
    ofBytes? n = some size ↔ size.bytes = n.toNat :=
  find?_key_eq_some_iff fun size => by cases size <;> rfl

/-- A size is known by its two names alone. -/
theorem ofName?_eq_some_iff {name : String} {size : PageSize} :
    ofName? name = some size ↔ name = size.name ∨ name = size.lowerName := by
  constructor
  · intro h
    have hname := List.find?_some h
    rw [decide_eq_true_iff] at hname
    exact hname.imp Eq.symm Eq.symm
  · intro h
    rcases h with rfl | rfl <;> cases size <;> decide

end PageSize

end FirmwareMap
