/-
  FirmwareMap.Mapping.Shape
  ─────────────────────────
  **WHICH MAPPING A RECORD DESCRIBES.**

  The stage of a record is the one that it declares, or else the first that
  exists on the platform and whose two kinds of address the record gives.  A
  record with a stage is a view, and an alias if it says so; one without is a
  direct mapping, which has one destination address and says nothing about
  entries.
-/
import FirmwareMap.Mapping.Check
import FirmwareMap.Record.Field

namespace FirmwareMap.Record

/-! ## §1. The stage. -/

/-- The first stage of the platform whose two kinds of address the record gives. -/
def inferredStage? (p : Platform) (r : Record) : Option Stage :=
  p.stages.find? fun t => (r.address? t.source).isSome && (r.address? t.dest).isSome

/-- The stage of the record: the declared one, which has to exist, or the inferred one. -/
def stage? (p : Platform) (r : Record) : Except RecordFault (Option Stage) :=
  match r.field? .stage with
  | some t => do
    require (p.enables t) (.stageNotEnabled t)
    return some t
  | none => return r.inferredStage? p

/-! ## §2. Views. -/

/-- The first kind of address that the record gives and the stage does not use. -/
def foreignAddress? (r : Record) (t : Stage) : Option AddressKind :=
  AddressKind.all.find? fun kind => (r.address? kind).isSome && kind ≠ t.source && kind ≠ t.dest

/-- The permissions of the entries. -/
def permissions (r : Record) : Except RecordFault Permissions := do
  let xwr ← demand (r.field? .permissions) (.missingField Field.permissions.name)
  demand (Permissions.ofBits? xwr) (.badPermissions xwr)

/-- The mapping that the record describes, seen by a stage. -/
def viewed (r : Record) (t : Stage) (page : PageSize) (count : Word) :
    Except RecordFault Mapping := do
  let source ← demand (r.address? t.source) (.missingAddress t t.source)
  let dest ← demand (r.address? t.dest) (.missingAddress t t.dest)
  -- the two addresses of the stage are asked for before any other address is refused
  if let some kind := r.foreignAddress? t then
    throw (.foreignAddress t kind)
  require (r.field? .noEntries ≠ some true) (.entriesForbidden t)
  let permissions ← r.permissions
  Mapping.requireAligned t.dest dest page
  Mapping.requireAligned t.source source page
  let view : View := {
    stage := t
    source
    permissions
    user := (r.field? .user).getD false
    valid := (r.field? .valid).getD true
    pbmt := r.field? .pbmt }
  let block : Block := ⟨dest, page, count⟩
  if (r.field? .isAlias).getD false then
    -- an alias has neither, not even one that is empty
    require (r.field? .sections = none) .aliasWithSections
    require (r.field? .memoryType = none) .aliasWithMemoryType
    return .aliased view block
  else
    return .translated view block (r.field? .memoryType) ((r.field? .sections).getD [])

/-! ## §3. Direct mappings. -/

/-- The fields that say something about entries, in the order in which they are refused. -/
def entryFields : List Field := [.permissions, .user, .isAlias, .pbmt, .valid]

/-- The destination address, which is the only address. -/
def onlyDest (r : Record) : Except RecordFault (AddressKind × Word) :=
  match AddressKind.all.filterMap fun kind => (r.address? kind).map (kind, ·) with
  | [] => throw .missingDest
  | [dest] => return dest
  | (first, _) :: (second, _) :: _ => throw (.twoDests first second)

/-- The mapping that the record describes, seen by no stage. -/
def untranslated (r : Record) (page : PageSize) (count : Word) : Except RecordFault Mapping := do
  require (r.address? .va = none) .sourceWithoutDest
  if let some f := entryFields.find? fun f => (r.field? f).isSome then
    throw (.fieldOnDirect f.name)
  require (r.field? .noEntries ≠ some false) .entriesWithoutSource
  let (kind, dest) ← r.onlyDest
  Mapping.requireAligned kind dest page
  return .direct kind ⟨dest, page, count⟩ (r.field? .memoryType) ((r.field? .sections).getD [])

/-! ## §4. Both. -/

/-- The mapping that a well-spelled record describes, before it is checked against the modes. -/
def shape (p : Platform) (r : Record) : Except RecordFault Mapping := do
  let page ← demand (r.field? .pageSize) (.missingField Field.pageSize.name)
  let count ← demand (r.field? .pageCount) (.missingField Field.pageCount.name)
  require (count ≠ 0) .noPages
  match ← r.stage? p with
  | some t => r.viewed t page count
  | none => r.untranslated page count

/-- The mapping that the record describes, or what is wrong with the record. -/
def toMapping (p : Platform) (r : Record) : Except RecordFault Mapping := do
  r.check
  let m ← r.shape p
  m.check p
  return m

end FirmwareMap.Record

namespace FirmwareMap.Mapping

/-- The mapping that a record describes on the platform; a refusal names the record. -/
def ofRecord (p : Platform) (r : Record) : Except Refusal Mapping :=
  (r.toMapping p).mapError (.malformed r.label)

end FirmwareMap.Mapping
