/-
  FirmwareMap.Paging.Platform
  ───────────────────────────
  **WHICH STAGES EXIST, AND IN WHICH MODES THEY RUN.**

  Without virtualization only the supervisor's stage exists; with it the other
  three do.  Every stage runs in a mode that it supports, and translates
  nothing until a mode is selected for it.
-/
import FirmwareMap.Refusal

namespace FirmwareMap

/-- The translation settings of an image. -/
structure Platform where
  /-- Whether virtualization is on. -/
  virtualization : Bool
  /-- The mode of each stage. -/
  mode : Stage → Mode
  /-- Every stage supports its mode. -/
  supported : ∀ t, mode t ∈ t.modes

namespace Platform

/-- The platform on which no stage translates anything. -/
def bare (virtualization : Bool) : Platform where
  virtualization
  mode _ := .bare
  supported := Stage.bare_mem_modes

/-- The platform with another mode for one stage. -/
def select (p : Platform) (stage : Stage) (mode : Mode) : Except Refusal Platform :=
  if h : mode ∈ stage.modes then
    .ok { p with
      mode := fun t => if t = stage then mode else p.mode t
      supported := fun t => by
        split
        next ht => exact ht ▸ h
        next => exact p.supported t }
  else
    .error (.unsupportedMode stage mode)

/-- The platform with the given modes, selected in this order. -/
def configure (virtualization : Bool) (modes : List (Stage × Mode)) : Except Refusal Platform :=
  modes.foldlM (fun p (stage, mode) => p.select stage mode) (bare virtualization)

/-- Whether a stage exists. -/
def enables (p : Platform) (stage : Stage) : Bool :=
  stage.isVirtual = p.virtualization

/-- The stages that exist, in the order in which they are searched. -/
def stages (p : Platform) : List Stage :=
  Stage.all.filter p.enables

theorem mem_stages {p : Platform} {stage : Stage} : stage ∈ p.stages ↔ p.enables stage := by
  simp [stages, Stage.mem_all]

end Platform

end FirmwareMap
