/-
  FirmwareMap.Paging.Stage
  ────────────────────────
  **TRANSLATION STAGES.**

  Without virtualization one stage turns virtual into physical addresses.
  With it, the hypervisor's own stage does that, and a guest's addresses pass
  two stages, the first of which hands its results to the second:

      s, hs : va → pa        vs : va → gpa        g : gpa → spa

  The tables of a stage live in the section whose name holds the stage's
  token.
-/
import FirmwareMap.Address.Kind
import FirmwareMap.Paging.Mode

namespace FirmwareMap

/-- One stage of address translation. -/
inductive Stage where
  /-- The supervisor's stage. -/
  | s
  /-- The hypervisor's own stage. -/
  | hs
  /-- The first stage of a guest. -/
  | vs
  /-- The second stage of a guest. -/
  | g
  deriving DecidableEq, Repr

namespace Stage

/-- Every stage, in the order in which they are searched and reported. -/
def all : List Stage := [.s, .hs, .vs, .g]

def name : Stage → String
  | .s => "s"
  | .hs => "hs"
  | .vs => "vs"
  | .g => "g"

def ofName? (name : String) : Option Stage :=
  all.find? fun t => t.name = name

/-- The kind of address that the stage takes. -/
def source : Stage → AddressKind
  | .s | .hs | .vs => .va
  | .g => .gpa

/-- The kind of address that the stage gives. -/
def dest : Stage → AddressKind
  | .s | .hs => .pa
  | .vs => .gpa
  | .g => .spa

/-- The modes in which the stage can run. -/
def modes : Stage → List Mode
  | .s | .hs | .vs => [.bare, .sv39, .sv48]
  | .g => [.bare, .sv39x4, .sv48x4]

/-- Whether the stage exists only with virtualization. -/
def isVirtual : Stage → Bool
  | .s => false
  | .hs | .vs | .g => true

/-- The stage that translates what this stage gives. -/
def next? : Stage → Option Stage
  | .vs => some .g
  | .s | .hs | .g => none

/-- The control register that switches the stage on. -/
def register : Stage → String
  | .s | .hs => "satp"
  | .vs => "vsatp"
  | .g => "hgatp"

/-- The token in the name of the section that holds the stage's tables. -/
def token (t : Stage) : String :=
  t.name ++ "_stage.pagetables"

theorem mem_all (t : Stage) : t ∈ all := by
  cases t <;> decide

/-- A stage is known by its name alone. -/
theorem ofName?_eq_some_iff {name : String} {t : Stage} :
    ofName? name = some t ↔ t.name = name :=
  find?_key_eq_some_iff fun t => by cases t <;> rfl

theorem bare_mem_modes (t : Stage) : .bare ∈ t.modes := by
  cases t <;> decide

end Stage

end FirmwareMap
