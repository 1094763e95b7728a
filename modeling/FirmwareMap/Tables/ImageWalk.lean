/-
  FirmwareMap.Tables.ImageWalk
  ────────────────────────────
  **TRANSLATING AN ADDRESS WITH NOTHING BUT THE BYTES.**

  The machine that uses the tables sees neither the list of tables nor the
  entries: it has the value of the control register, which names the root, and
  the bytes of the image in memory.  A walk over these reads a word wherever
  all of its bytes lie in the image:

      root of a token = 4096 · (token mod 2^44)
      word at a       = bytes a … a + 7 of the image, least significant first
-/
import FirmwareMap.Tables.Image
import FirmwareMap.Tables.Walk

namespace FirmwareMap

/-- The root table's address, as the control register gives it. -/
def Token.root (token : Word) : Word :=
  .ofNat ((Token.rootField.extract token).toNat * PageSize.size4K.bytes)

/-- Bytes in memory, one after the other. -/
structure Memory where
  /-- The address of the first byte. -/
  base : Word
  /-- The bytes. -/
  bytes : List UInt8
  deriving DecidableEq, Repr

namespace Memory

/-- The range of addresses that have a byte. -/
def extent (m : Memory) : Extent :=
  ⟨m.base.toNat, m.bytes.length⟩

/-- The word at an address, if all its bytes are there. -/
def word? (m : Memory) (address : Word) : Option Word :=
  if m.base.toNat ≤ address.toNat ∧ address.toNat + entryBytes ≤ m.extent.stop then
    some (.ofNat (littleEndian ((m.bytes.drop (address.toNat - m.base.toNat)).take entryBytes)))
  else
    none

/-- Where the tables in memory lead a source address, for the value of the control register. -/
def translate (m : Memory) (mode : Mode) (token source : Word) :
    Except Fault (Option Translation) :=
  match mode.canonical? source with
  | some s => walk mode m.word? s mode.levels (Token.root token)
  | none => .ok none

end Memory

end FirmwareMap
