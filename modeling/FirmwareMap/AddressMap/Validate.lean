/-
  FirmwareMap.AddressMap.Validate
  ───────────────────────────────
  **WHICH MAPS ARE ACCEPTED.**

  Each mapping fits the platform; mappings stand only where their stage
  exists; within a stage no two source ranges and no two placed destination
  ranges meet, and every alias shows memory that one mapping places; and some
  mapping places the section of the entry point.

  Ranges are compared with their neighbours in ascending order of starts.
-/
import FirmwareMap.AddressMap.Basic
import FirmwareMap.Mapping.Shape
import FirmwareMap.Report.Run

namespace FirmwareMap

/-- The section that holds the entry point. -/
def entrySection : String := ".text"

namespace AddressMap

/-! ## §1. The mappings of one stage. -/

/-- No mapping is translated by another stage than the one that it was declared for. -/
def checkMembership (t : Stage) (mappings : List Mapping) : Except Refusal Unit :=
  mappings.forM fun m =>
    require (∀ u ∈ m.stage?, u = t) (.misplaced m.text (.foreignPartition t))

/-- The source ranges, each with its mapping. -/
def sources (mappings : List Mapping) : List (Extent × Mapping) :=
  mappings.filterMap fun m => m.sourceExtent?.map (·, m)

/-- The destination ranges that are placed, each with its mapping. -/
def placements (mappings : List Mapping) : List (Extent × Mapping) :=
  (mappings.filter fun m => ! m.isAlias).map fun m => (m.destExtent, m)

/-- In ascending order of starts, each range ends before the next one starts. -/
def checkDisjoint (ranges : List (Extent × Mapping)) : Except Refusal Unit :=
  match Extent.firstCollision? Prod.fst (Extent.sortByStart Prod.fst ranges) with
  | some ((_, a), (_, b)) => .error (.overlap a.text b.text)
  | none => .ok ()

/-- Every alias shows memory that a single mapping places. -/
def checkAliases (mappings : List Mapping) : Except Refusal Unit :=
  (mappings.filter Mapping.isAlias).forM fun m =>
    require (∃ r ∈ placements mappings, m.destExtent.Within r.1) (.danglingAlias m.text)

/-- The mappings of one stage agree with each other. -/
def checkStage (t : Stage) (mappings : List Mapping) : Except Refusal Unit := do
  checkMembership t mappings
  checkDisjoint (sources mappings)
  checkDisjoint (placements mappings)
  checkAliases mappings

/-! ## §2. The whole map. -/

/-- Each mapping fits the platform. -/
def checkEach (p : Platform) (partitions : List (Stage × List Mapping)) : Except Refusal Unit :=
  partitions.forM fun (_, mappings) =>
    mappings.forM fun m => (m.check p).mapError (.malformed m.text)

/-- Only stages that exist have mappings. -/
def checkEnabled (p : Platform) (a : AddressMap) : Except Refusal Unit :=
  Stage.all.forM fun t =>
    match a.entries t with
    | [] => .ok ()
    -- the first mapping stands for all of them in the report
    | m :: _ => require (p.enables t) (.misplaced m.text (.stageNotEnabled t))

/-- Some mapping places the section of the entry point. -/
def checkEntry (p : Platform) (a : AddressMap) : Except Refusal Unit :=
  require (∃ m ∈ a.enabled p, entrySection ∈ m.sections) .noEntrySection

/-- The mappings of the map agree with the platform's stages and with each other. -/
def validate (p : Platform) (a : AddressMap) : Except Refusal Unit := do
  checkEnabled p a
  p.stages.forM fun t => checkStage t (a.entries t)
  checkEntry p a

/-! ## §3. Accepted maps. -/

/-- The map of the given partitions, if it is accepted. -/
def ofPartitions (p : Platform) (partitions : List (Stage × List Mapping)) : Run AddressMap := do
  checkEach p partitions
  let a := collect partitions
  validate p a
  Run.report (.mapAccepted (a.enabled p).length)
  return a

/-- The mappings that the records of each partition describe. -/
def describe (p : Platform) (partitions : List (Stage × List Record)) :
    Except Refusal (List (Stage × List Mapping)) :=
  partitions.mapM fun (stage, records) => do
    return (stage, ← records.mapM (Mapping.ofRecord p))

/-- The map of the given partitions of records, if every record describes a mapping and the map
is accepted. -/
def ofRecords (p : Platform) (partitions : List (Stage × List Record)) : Run AddressMap := do
  ofPartitions p (← describe p partitions)

end AddressMap

end FirmwareMap
