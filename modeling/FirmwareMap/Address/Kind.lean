/-
  FirmwareMap.Address.Kind
  ────────────────────────
  **THE FOUR KINDS OF ADDRESS.**

  A translation stage turns addresses of one kind into addresses of another.
  The order of the kinds is the order in which they are named in reports.
-/
namespace FirmwareMap

/-- What an address is an address of. -/
inductive AddressKind where
  /-- A virtual address. -/
  | va
  /-- A physical address. -/
  | pa
  /-- A guest physical address. -/
  | gpa
  /-- A supervisor physical address. -/
  | spa
  deriving DecidableEq, Repr

namespace AddressKind

/-- Every kind, in the order of reports. -/
def all : List AddressKind := [.va, .pa, .gpa, .spa]

def name : AddressKind → String
  | .va => "va"
  | .pa => "pa"
  | .gpa => "gpa"
  | .spa => "spa"

theorem mem_all (k : AddressKind) : k ∈ all := by
  cases k <;> decide

end AddressKind

end FirmwareMap
