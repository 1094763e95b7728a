/-
  FirmwareMap.Record.Field
  ────────────────────────
  **THE FIELDS OF A RECORD AND WHAT THEY MEAN.**

  Each field that a record may have is of one type, its `Carrier`.  Reading a
  value for a field gives a value of that type or a fault; several spellings
  of a value read the same.  A record is well spelled when all its names are
  known and all its values read:

      r.check = .ok ()  →  r.field? f = some x  ↔  the value of f reads as x
-/
import FirmwareMap.Paging.Attributes
import FirmwareMap.Refusal
import FirmwareMap.Requirement

namespace FirmwareMap

/-! ## §1. Spellings of values. -/

namespace Value

/-- The number that a value spells: a number, or a numeral. -/
def asNumber (field : String) : Value → Except RecordFault Word
  | .number n => .ok n
  | .text s => demand (Numeral.read? s) (.notNumeral field s)
  | .flag _ | .list _ => .error (.wantsNumber field)

/-- The truth value that a value spells: itself, zero or one, or its name. -/
def asFlag (field : String) : Value → Except RecordFault Bool
  | .flag b => .ok b
  | .number n =>
    if n = 0 then .ok false else if n = 1 then .ok true else .error (.wantsFlag field)
  | .text s =>
    if s = "true" then .ok true else if s = "false" then .ok false else .error (.wantsFlag field)
  | .list _ => .error (.wantsFlag field)

/-- The text that a value is. -/
def asText (field : String) : Value → Except RecordFault String
  | .text s => .ok s
  | .number _ | .flag _ | .list _ => .error (.wantsText field)

/-- The size of page that a value spells: a count of bytes, or a name. -/
def pageSize? : Value → Option PageSize
  | .number n => PageSize.ofBytes? n
  | .text s =>
    (PageSize.ofName? (Text.trim s)).or ((Numeral.read? s).bind PageSize.ofBytes?)
  | .flag _ | .list _ => none

/-- The names that a value lists: names, or one text with commas between them. -/
def names? : Value → Option (List String)
  | .text s => some (Text.names s)
  | .list l => some (l.map Text.trim)
  | .number _ | .flag _ => none

/-- The names that a value lists, of which there is at least one and none is empty. -/
def asNames (field : String) (v : Value) : Except RecordFault (List String) := do
  let names ← demand v.names? (.wantsList field)
  require (names ≠ [] ∧ "" ∉ names) (.emptyName field)
  return names

end Value

/-! ## §2. Fields. -/

/-- A field that a record may have. -/
inductive Field where
  /-- An address of the given kind. -/
  | address (kind : AddressKind)
  /-- The permissions, as a number. -/
  | permissions
  /-- Whether user programs may use the pages. -/
  | user
  /-- The size of the pages. -/
  | pageSize
  /-- The number of pages. -/
  | pageCount
  /-- Whether the mapping only shows what another one places. -/
  | isAlias
  /-- How the region is to be cached. -/
  | memoryType
  /-- The memory type that the entries ask for. -/
  | pbmt
  /-- The names of the sections placed in the region. -/
  | sections
  /-- Whether the translation is in force. -/
  | valid
  /-- Whether the mapping goes without table entries. -/
  | noEntries
  /-- The stage that translates the mapping. -/
  | stage
  deriving DecidableEq, Repr

namespace Field

def all : List Field :=
  AddressKind.all.map .address ++
    [.permissions, .user, .pageSize, .pageCount, .isAlias, .memoryType, .pbmt, .sections, .valid,
      .noEntries, .stage]

def name : Field → String
  | .address kind => kind.name
  | .permissions => "xwr"
  | .user => "umode"
  | .pageSize => "page_size"
  | .pageCount => "num_pages"
  | .isAlias => "alias"
  | .memoryType => "pma_memory_type"
  | .pbmt => "pbmt_mode"
  | .sections => "linker_script_section"
  | .valid => "valid"
  | .noEntries => "no_pte_allocation"
  | .stage => "translation_stage"

def ofName? (name : String) : Option Field :=
  all.find? fun f => f.name = name

/-- The type of what the field says. -/
@[reducible] def Carrier : Field → Type
  | .address _ | .permissions | .pageCount => Word
  | .user | .isAlias | .valid | .noEntries => Bool
  | .pageSize => PageSize
  | .memoryType => FirmwareMap.MemoryType
  | .pbmt => FirmwareMap.Pbmt
  | .sections => List String
  | .stage => FirmwareMap.Stage

/-- What the field says if it has the given value. -/
def read (f : Field) (v : Value) : Except RecordFault f.Carrier :=
  match f with
  | .address kind => v.asNumber kind.name
  | .permissions => v.asNumber permissions.name
  | .pageCount => v.asNumber pageCount.name
  | .user => v.asFlag user.name
  | .isAlias => v.asFlag isAlias.name
  | .valid => v.asFlag valid.name
  | .noEntries => v.asFlag noEntries.name
  | .pageSize => demand v.pageSize? (.unknownPageSize v)
  | .memoryType => do
    let name ← v.asText memoryType.name
    demand (MemoryType.ofName? name) (.unknownMemoryType name)
  | .pbmt => do
    let name ← v.asText pbmt.name
    demand (Pbmt.ofName? name) (.unknownPbmt name)
  | .sections => v.asNames sections.name
  | .stage => do
    let name ← v.asText stage.name
    demand (Stage.ofName? name) (.unknownStage name)

/-- A field is known by its name. -/
theorem ofName?_name (f : Field) : ofName? f.name = some f := by
  cases f with
  | address kind => cases kind <;> decide
  | _ => decide

/-- A name is that of one field. -/
theorem ofName?_eq_some_iff {name : String} {f : Field} :
    ofName? name = some f ↔ f.name = name :=
  find?_key_eq_some_iff ofName?_name

end Field

/-! ## §3. What a record says. -/

namespace Record

/-- All names are known and all values read; the first field that is at fault decides. -/
def check (r : Record) : Except RecordFault Unit :=
  r.fields.forM fun (name, v) => do
    let f ← demand (Field.ofName? name) (.unknownField name)
    let _ ← f.read v

/-- What the record says in a field, if it has the field and the value reads. -/
def field? (r : Record) (f : Field) : Option f.Carrier :=
  (r.get? f.name).bind fun v => (f.read v).toOption

/-- The address of a kind that the record gives. -/
def address? (r : Record) (kind : AddressKind) : Option Word :=
  r.field? (.address kind)

/-- The addresses and sections of a record, by which reports name it. -/
def label (r : Record) : String :=
  let addresses := AddressKind.all.filterMap fun kind =>
    (r.get? kind.name).map fun v => kind.name ++ "=" ++ v.label
  let sections := (r.get? Field.sections.name).toList.map Value.label
  "\x7b" ++ " ".intercalate (addresses ++ sections) ++ "\x7d"

end Record

end FirmwareMap
