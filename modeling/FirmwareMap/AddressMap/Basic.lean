/-
  FirmwareMap.AddressMap.Basic
  ────────────────────────────
  **THE MAPPINGS OF AN IMAGE, STAGE BY STAGE.**

  An address map holds the mappings declared for each stage, in the order of
  their declaration.  Partitions for one stage are put one after the other.
-/
import FirmwareMap.Mapping.Basic
import FirmwareMap.Paging.Platform

namespace FirmwareMap

/-- The mappings declared for each stage. -/
structure AddressMap where
  /-- The mappings of a stage, in the order of their declaration. -/
  entries : Stage → List Mapping

namespace AddressMap

/-- The map without mappings. -/
def empty : AddressMap :=
  ⟨fun _ => []⟩

/-- The map of the given partitions. -/
def collect (partitions : List (Stage × List Mapping)) : AddressMap :=
  ⟨fun t => partitions.flatMap fun (stage, mappings) => if stage = t then mappings else []⟩

/-- The mappings of every stage that exists, stage by stage. -/
def enabled (a : AddressMap) (p : Platform) : List Mapping :=
  p.stages.flatMap a.entries

theorem mem_collect {partitions : List (Stage × List Mapping)} {t : Stage} {m : Mapping} :
    m ∈ (collect partitions).entries t ↔ ∃ mappings, (t, mappings) ∈ partitions ∧ m ∈ mappings := by
  simp only [collect, List.mem_flatMap]
  constructor
  · intro hgiven
    obtain ⟨⟨stage, mappings⟩, hp, hm⟩ := hgiven
    split at hm
    next h => exact ⟨mappings, h ▸ hp, hm⟩
    next => cases hm
  · intro hgiven
    obtain ⟨mappings, hp, hm⟩ := hgiven
    exact ⟨(t, mappings), hp, by simpa using hm⟩

theorem mem_enabled {a : AddressMap} {p : Platform} {m : Mapping} :
    m ∈ a.enabled p ↔ ∃ t, p.enables t ∧ m ∈ a.entries t := by
  simp [enabled, Platform.mem_stages]

end AddressMap

end FirmwareMap
