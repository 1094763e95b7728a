/-
  FirmwareMap.Tables.Image
  ────────────────────────
  **THE BYTES OF THE TABLES.**

  The image of the tables is a run of words from the base of the region, zero
  where there is no entry, and each word is written with its least significant
  byte first:

      byte (8·i + k) of the image = byte k of word i,   0 ≤ k < 8
-/
import FirmwareMap.Tables.Basic

namespace FirmwareMap

/-! ## §1. The bytes of a word. -/

/-- The byte of a word that has so many less significant bytes. -/
def Word.byte (w : Word) (k : Nat) : UInt8 :=
  .ofNat (w.toNat / twoPow (8 * k) % 256)

/-- The eight bytes of a word, least significant first. -/
def Word.bytes (w : Word) : List UInt8 :=
  (List.range entryBytes).map w.byte

/-- The number that bytes spell, least significant first. -/
def littleEndian : List UInt8 → Nat
  | [] => 0
  | b :: rest => b.toNat + 256 * littleEndian rest

@[simp] theorem Word.length_bytes (w : Word) : w.bytes.length = entryBytes := by
  simp [Word.bytes]

/-- The bytes of a word spell the word. -/
theorem littleEndian_bytes (w : Word) : littleEndian w.bytes = w.toNat := by
  have := w.toNat_lt
  simp only [Word.bytes, entryBytes, List.range, List.range.loop, List.map, littleEndian, Word.byte,
    UInt8.toNat_ofNat', twoPow, Nat.reduceMul, Nat.reducePow, Nat.pow_eq]
  omega

/-! ## §2. The words of an image. -/

namespace StageTables

/-- The place of an address among the words of the image. -/
def wordIndex (t : StageTables) (address : Word) : Except Fault Nat := do
  -- of use only where the address is not before the base, which is asked first
  let offset := address.toNat - t.base.toNat
  require (t.base.toNat ≤ address.toNat ∧ offset % entryBytes = 0 ∧
    offset + entryBytes ≤ t.used) (.entryOutsideImage address)
  return offset / entryBytes

/-- The words of the image, zero where there is no entry. -/
def words (t : StageTables) : Except Fault (Array Word) :=
  t.entries.toList.foldlM (fun words (address, value) => do
      return words.setIfInBounds (← t.wordIndex address) value)
    (.replicate (t.used / entryBytes) 0)

/-- The bytes of the image. -/
def image (t : StageTables) : Except Fault (List UInt8) :=
  (·.toList.flatMap Word.bytes) <$> t.words

end StageTables

end FirmwareMap
