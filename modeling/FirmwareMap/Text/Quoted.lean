/-
  FirmwareMap.Text.Quoted
  ───────────────────────
  **TEXT BETWEEN DOUBLE QUOTES.**

  Quoted text is printable: a quote and a backslash are escaped, the common
  controls have letters, and every other unprintable character is written as
  its code point in radix sixteen between braces.  All else stands as it is.
-/
import FirmwareMap.Text.Numeral
import FirmwareMap.Text.Unprintable

namespace FirmwareMap.Text

/-- How a character is written between double quotes. -/
def escaped (c : Char) : String :=
  match c with
  | '\x00' => "\\0"
  | '\t' => "\\t"
  | '\n' => "\\n"
  | '\r' => "\\r"
  | '"' => "\\\""
  | '\\' => "\\\\"
  | c =>
    if isUnprintable c then "\\u\x7b" ++ Numeral.digits .hexadecimal c.toNat ++ "\x7d"
    else c.toString

/-- The text between double quotes. -/
def quoted (s : String) : String :=
  "\"" ++ String.join (s.toList.map escaped) ++ "\""

/-- The quoted texts between brackets. -/
def quotedList (l : List String) : String :=
  "[" ++ ", ".intercalate (l.map quoted) ++ "]"

end FirmwareMap.Text
