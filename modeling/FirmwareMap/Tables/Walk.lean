/-
  FirmwareMap.Tables.Walk
  ───────────────────────
  **TRANSLATING AN ADDRESS THROUGH TABLES.**

  A walk starts at the root and follows pointers down the levels until it
  meets a leaf; the rest of the source address is added to the leaf's frame.
  A walk reads entries through a function, so it runs on the entries of a
  stage as well as on the bytes of an image.
-/
import FirmwareMap.Paging.Canonical
import FirmwareMap.Tables.Basic

namespace FirmwareMap

/-- Where an address leads, and the leaf that leads there. -/
structure Translation where
  /-- The destination address. -/
  dest : Word
  /-- The leaf that maps the page. -/
  leaf : Leaf
  deriving DecidableEq, Repr

/-! ## §1. Walks. -/

/-- Where a leaf of a level leads a source address. -/
def Leaf.locate (leaf : Leaf) (l : Level) (source : Word) : Except Fault Translation := do
  let dest ← demand (Word.ofNat? (leaf.frame.toNat + source.toNat % l.page.bytes)) .overflow
  return ⟨dest, leaf⟩

/-- Where a source address leads, from the table of the first of some levels on. -/
def walk (m : Mode) (read : Word → Option Word) (source : Word) :
    List Level → (table : Word) → Except Fault (Option Translation)
  | [], _ => .ok none
  | l :: rest, table => do
    match read (← Table.slotAt l table source) with
    | none => return none
    | some entry =>
      if Entry.isLeaf entry then
        -- a leaf with reserved permissions or a reserved memory type leads nowhere
        match Leaf.decode? m entry with
        | none => return none
        | some leaf => some <$> leaf.locate l source
      else if Entry.isValid entry then
        walk m read source rest (Entry.load m entry)
      else
        return none

namespace StageTables

/-- Where the tables lead a source address. -/
def translate (t : StageTables) (source : Word) : Except Fault (Option Translation) :=
  match t.mode.canonical? source, t.tables.head? with
  | some s, some root => walk t.mode (t.entries[·]?) s t.mode.levels root.address
  | _, _ => .ok none

/-! ## §2. Several stages. -/

/-- Where the tables of several stages lead a source address, each from where the one before it
led; the list ends at the first stage that leads nowhere. -/
def translateThrough : List (Option StageTables) → Word → Except Fault (List (Option Translation))
  | [], _ => .ok []
  | none :: _, _ => .ok [none]
  | some t :: rest, source => do
    match ← t.translate source with
    | none => return [none]
    | some r => return some r :: (← translateThrough rest r.dest)

end StageTables

end FirmwareMap
