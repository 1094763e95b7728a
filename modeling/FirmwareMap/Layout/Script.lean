/-
  FirmwareMap.Layout.Script
  ─────────────────────────
  **THE LAYOUT AS A LINKER SCRIPT.**

  The script names one load segment for each output section and then places
  the sections in order.  A section takes its inputs one after the other, each
  followed by the inputs whose names go on with a dot; a section that is padded
  with zeros is filled up to its size.
-/
import FirmwareMap.Layout.Basic

namespace FirmwareMap

/-- The name of the load segment of a section: no leading dots, and no others either. -/
def segmentName (name : String) : String :=
  .ofList ((name.toList.dropWhile (· == '.')).map fun c => if c = '.' then '_' else c)

/-- The lines that place one input section. -/
def inputLines (name : String) : List String :=
  ["    *(" ++ name ++ ")", "    *(" ++ name ++ ".*)"]

/-- The line that moves the location counter. -/
def locationLine (indent : String) (address : Nat) : String :=
  indent ++ ". = " ++ Numeral.hex address ++ ";"

/-- The lines of an output section. -/
def OutputSection.lines (s : OutputSection) : List String :=
  let kind := if s.isZeroPadded then " (TYPE = SHT_PROGBITS)" else ""
  let padding := if s.isZeroPadded then ["    BYTE(0)", locationLine "    " s.extent.size] else []
  [locationLine "  " s.extent.start, "  " ++ s.name ++ kind ++ " : \x7b"]
    ++ s.inputs.flatMap inputLines ++ padding ++ ["  \x7d :" ++ segmentName s.name]

/-- The lines of something that is placed. -/
def Placed.lines : Placed → List String
  | .content s => s.lines
  | .guard index start =>
    [locationLine "  " start,
     "  " ++ (Placed.guard index start).name ++ " (NOLOAD) : \x7b . = . + "
        ++ Numeral.hex guardBytes ++ "; \x7d"]

namespace ImageLayout

/-- The lines that name the load segments. -/
def segmentLines (l : ImageLayout) : List String :=
  ["PHDRS", "\x7b"] ++ l.sections.map (fun s => "  " ++ segmentName s.name ++ " PT_LOAD;")
    ++ ["\x7d"]

/-- The line of the input sections that the image does not keep. -/
def discardLine : String :=
  "  /DISCARD/ : \x7b" ++ String.join (discarded.map fun name => " *(" ++ name ++ ")") ++ " \x7d"

/-- The lines of the script. -/
def lines (l : ImageLayout) : List String :=
  ["/* Generated from " ++ l.source ++ " */", "", "OUTPUT_ARCH( \"riscv\" )",
    "ENTRY( " ++ l.entry ++ " )", ""]
    ++ l.segmentLines ++ ["", "SECTIONS", "\x7b"] ++ l.placed.flatMap Placed.lines
    ++ ["", discardLine, "\x7d"]

/-- The text of the script. -/
def script (l : ImageLayout) : String :=
  String.join (l.lines.map (· ++ "\n"))

end ImageLayout

end FirmwareMap
