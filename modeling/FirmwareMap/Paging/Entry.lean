/-
  FirmwareMap.Paging.Entry
  ────────────────────────
  **TABLE ENTRIES AND THE CONTROL REGISTER, AS WORDS.**

  An entry is the sum of its placed fields: the bits of an address in the
  fields of the mode's levels, and flags in the low bits.  A leaf is marked by
  a permission, a pointer to the next table by none.

      encode   = frame bits + valid + 2·permissions + 16·user
                 + 64·accessed + 128·dirty + 2^61·memory type
      pointer  = frame bits + 1

  `Leaf.decode?` reads a leaf back.
-/
import FirmwareMap.Paging.Attributes
import FirmwareMap.Paging.Mode

namespace FirmwareMap

/-- What a leaf entry says about its page. -/
structure Leaf where
  /-- The destination address at which the page starts. -/
  frame : Word
  /-- What the page allows. -/
  permissions : Permissions
  /-- Whether user programs may use the page. -/
  user : Bool
  /-- Whether the page counts as used. -/
  accessed : Bool
  /-- Whether the page counts as written. -/
  dirty : Bool
  /-- How the page is cached. -/
  pbmt : Pbmt
  /-- Whether the translation is in force. -/
  valid : Bool
  deriving DecidableEq, Repr

namespace Entry

/-! ## §1. The fields. -/

/-- Whether the entry is in force. -/
def validField : BitField := .bits 0 0

/-- The permissions of a leaf; zero in a pointer. -/
def permissionField : BitField := .bits 3 1

/-- Whether user programs may use the page. -/
def userField : BitField := .bits 4 4

/-- Whether the page counts as used. -/
def accessedField : BitField := .bits 6 6

/-- Whether the page counts as written. -/
def dirtyField : BitField := .bits 7 7

/-- How the page is cached. -/
def pbmtField : BitField := .bits 62 61

/-- A flag in a field of one bit. -/
def placeFlag (f : BitField) (b : Bool) : Word :=
  f.place (.ofNat b.toNat)

/-- Whether any bit of a field is set. -/
def isSet (f : BitField) (w : Word) : Bool :=
  f.extract w ≠ 0

/-! ## §2. Addresses in an entry. -/

/-- The sum of a list of words. -/
def sum (l : List Word) : Word :=
  l.foldr (· + ·) 0

/-- The bits of an address, where an entry keeps them. -/
def store (m : Mode) (a : Word) : Word :=
  sum (m.levels.map fun l => l.stored.place (l.frame.extract a))

/-- The address whose bits an entry keeps. -/
def load (m : Mode) (w : Word) : Word :=
  sum (m.levels.map fun l => l.frame.place (l.stored.extract w))

/-! ## §3. Pointers and leaves. -/

/-- The entry that points to the next table. -/
def pointer (m : Mode) (table : Word) : Word :=
  store m table + placeFlag validField true

/-- Whether the entry is in force. -/
def isValid (w : Word) : Bool :=
  isSet validField w

/-- Whether the entry is a leaf, in force or not. -/
def isLeaf (w : Word) : Bool :=
  isSet permissionField w

end Entry

namespace Leaf

/-- The leaf of a page that is mapped: it counts as used and as written. -/
def mapped (frame : Word) (permissions : Permissions) (user : Bool) (pbmt : Option Pbmt)
    (valid : Bool) : Leaf where
  frame
  permissions
  user
  accessed := true
  dirty := true
  pbmt := pbmt.getD .pma
  valid

/-- The entry for a leaf. -/
def encode (m : Mode) (leaf : Leaf) : Word :=
  Entry.sum
    [Entry.store m leaf.frame,
     Entry.placeFlag Entry.validField leaf.valid,
     Entry.permissionField.place (.ofNat leaf.permissions.bits),
     Entry.placeFlag Entry.userField leaf.user,
     Entry.placeFlag Entry.accessedField leaf.accessed,
     Entry.placeFlag Entry.dirtyField leaf.dirty,
     Entry.pbmtField.place (.ofNat leaf.pbmt.bits)]

/-- The leaf of an entry, if its permissions and memory type are not reserved. -/
def decode? (m : Mode) (w : Word) : Option Leaf := do
  let permissions ← Permissions.ofBits? (Entry.permissionField.extract w)
  let pbmt ← Pbmt.ofBits? (Entry.pbmtField.extract w)
  return {
    frame := Entry.load m w
    permissions
    user := Entry.isSet Entry.userField w
    accessed := Entry.isSet Entry.accessedField w
    dirty := Entry.isSet Entry.dirtyField w
    pbmt
    valid := Entry.isValid w }

end Leaf

/-! ## §4. The control register. -/

namespace Token

/-- The mode of the stage. -/
def modeField : BitField := .bits 63 60

/-- The root table's address, in pages. -/
def rootField : BitField := .bits 43 0

/-- The value that switches a stage on, with its root table at `root`. -/
def encode (m : Mode) (root : Word) : Word :=
  modeField.place (.ofNat m.encoding) + rootField.place (.ofNat (root.toNat / PageSize.size4K.bytes))

end Token

end FirmwareMap
