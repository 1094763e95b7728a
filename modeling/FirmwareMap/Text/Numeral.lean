/-
  FirmwareMap.Text.Numeral
  ────────────────────────
  **NUMBERS AS TEXT.**

  A numeral is a mark of its radix (`0x` sixteen, `0b` two, none ten) and then
  digits.  Underscores may stand after the first digit and count for nothing;
  blanks may stand around the whole.  Digits are read one after the other,

      n  ↦  n · r + d

  and reading ends without a number as soon as the product or the sum is not a
  word.  Numbers are written in lower case with the mark of their radix and
  without leading zeros.
-/
import FirmwareMap.Text.Blank
import FirmwareMap.Word.Basic

namespace FirmwareMap.Numeral

/-! ## §1. Radices and digits. -/

/-- The radix of a numeral. -/
inductive Radix where
  /-- Two, marked `0b`. -/
  | binary
  /-- Ten, not marked. -/
  | decimal
  /-- Sixteen, marked `0x`. -/
  | hexadecimal
  deriving DecidableEq, Repr

/-- How many digits the radix has. -/
def Radix.base : Radix → Nat
  | .binary => 2
  | .decimal => 10
  | .hexadecimal => 16

/-- The value of a letter or digit as a digit, letters counting on from ten. -/
def digitValue? (c : Char) : Option Nat :=
  if '0' ≤ c ∧ c ≤ '9' then some (c.toNat - '0'.toNat)
  else if 'a' ≤ c ∧ c ≤ 'f' then some (c.toNat - 'a'.toNat + 10)
  else if 'A' ≤ c ∧ c ≤ 'F' then some (c.toNat - 'A'.toNat + 10)
  else none

/-- The value of a character as a digit of the radix. -/
def Radix.digit? (r : Radix) (c : Char) : Option Nat :=
  (digitValue? c).filter (· < r.base)

/-- The radix that the characters are marked with, and the characters after the mark. -/
def splitMark : List Char → Radix × List Char
  | '0' :: 'x' :: cs => (.hexadecimal, cs)
  | '0' :: 'X' :: cs => (.hexadecimal, cs)
  | '0' :: 'b' :: cs => (.binary, cs)
  | '0' :: 'B' :: cs => (.binary, cs)
  | cs => (.decimal, cs)

/-! ## §2. Reading. -/

/-- The word with one more digit after those of `w`, if scaling and adding stay among the words. -/
def Radix.push? (r : Radix) (w : Word) (d : Nat) : Option Word := do
  let scaled ← Word.ofNat? (w.toNat * r.base)
  Word.ofNat? (scaled.toNat + d)

/-- The word that characters spell after the digits of `w`, underscores passed over. -/
def Radix.readAfter? (r : Radix) (w : Word) : List Char → Option Word
  | [] => some w
  | c :: cs =>
    if c = '_' then
      r.readAfter? w cs
    else do
      let d ← r.digit? c
      let w ← r.push? w d
      r.readAfter? w cs

/-- The word that digits of the radix spell, the first of which is not an underscore. -/
def Radix.read? (r : Radix) : List Char → Option Word
  | [] => none
  | '_' :: _ => none
  | cs => r.readAfter? 0 cs

/-- The word that a numeral spells. -/
def read? (s : String) : Option Word :=
  let (r, cs) := splitMark (Text.trimChars s.toList)
  r.read? cs

/-! ## §3. Writing. -/

/-- The digits of `n` in a radix. -/
def digits (r : Radix) (n : Nat) : String :=
  .ofList (Nat.toDigits r.base n)

/-- The number in radix sixteen, marked. -/
def hex (n : Nat) : String :=
  "0x" ++ digits .hexadecimal n

/-- The number in radix two, marked. -/
def binary (n : Nat) : String :=
  "0b" ++ digits .binary n

/-- The number in radix ten. -/
def decimal (n : Nat) : String :=
  digits .decimal n

end FirmwareMap.Numeral

namespace FirmwareMap.Word

/-- The word in radix sixteen, marked. -/
def hex (w : Word) : String :=
  Numeral.hex w.toNat

end FirmwareMap.Word
