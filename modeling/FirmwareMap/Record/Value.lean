/-
  FirmwareMap.Record.Value
  ────────────────────────
  **RECORDS: NAMED VALUES, ASCENDING BY NAME.**

  A record describes one mapping.  Each of its fields has a name and a value
  of one of four shapes.  Fields are kept in ascending order of their names,
  each name once, so two records with the same fields are equal and faults are
  found in one order whatever order the fields were written in.
-/
import FirmwareMap.Text.Quoted

namespace FirmwareMap

/-! ## §1. Values. -/

/-- The value of a field. -/
inductive Value where
  /-- A number. -/
  | number (n : Word)
  /-- A truth value. -/
  | flag (b : Bool)
  /-- A text. -/
  | text (s : String)
  /-- A list of texts. -/
  | list (l : List String)
  deriving DecidableEq, Repr

namespace Value

/-- The value as it stands in the label of a record. -/
def label : Value → String
  | .number n => n.hex
  | .flag b => if b then "true" else "false"
  | .text s => s
  | .list l => ",".intercalate l

/-- The value with its shape, texts quoted. -/
def quoted : Value → String
  | .number n => "Int(" ++ Numeral.decimal n.toNat ++ ")"
  | .flag b => if b then "Bool(true)" else "Bool(false)"
  | .text s => "Str(" ++ Text.quoted s ++ ")"
  | .list l => "List(" ++ Text.quotedList l ++ ")"

end Value

/-! ## §2. Records. -/

/-- The fields of one mapping. -/
structure Record where
  /-- The names and values. -/
  fields : List (String × Value)
  /-- The names ascend. -/
  ascending : fields.Pairwise fun a b => a.1 < b.1

namespace Record

/-- The fields with one more in its place, instead of any field of that name. -/
def place (name : String) (v : Value) : List (String × Value) → List (String × Value)
  | [] => [(name, v)]
  | (k, w) :: rest =>
    if name < k then (name, v) :: (k, w) :: rest
    else if k < name then (k, w) :: place name v rest
    else (name, v) :: rest

theorem mem_place {name : String} {v : Value} {p : String × Value} :
    ∀ {fields : List (String × Value)}, p ∈ place name v fields → p = (name, v) ∨ p ∈ fields
  | [], h => by simpa [place] using h
  | (k, w) :: rest, h => by
    unfold place at h
    split at h
    · simpa using h
    · split at h
      · rcases List.mem_cons.mp h with h | h
        · exact .inr (h ▸ List.mem_cons_self)
        · exact (mem_place h).imp_right (List.mem_cons_of_mem _)
      · exact (List.mem_cons.mp h).imp_right (List.mem_cons_of_mem _)

theorem place_ascending (name : String) (v : Value) : ∀ {fields : List (String × Value)},
    fields.Pairwise (fun a b => a.1 < b.1) →
      (place name v fields).Pairwise fun a b => a.1 < b.1
  | [], _ => List.pairwise_singleton _ _
  | (k, w) :: rest, h => by
    obtain ⟨hk, hrest⟩ := List.pairwise_cons.mp h
    unfold place
    split
    next hlt =>
      refine List.pairwise_cons.mpr ⟨fun p hp => ?_, h⟩
      rcases List.mem_cons.mp hp with rfl | hp
      · exact hlt
      · exact String.lt_trans hlt (hk p hp)
    next hnlt =>
      split
      next hgt =>
        refine List.pairwise_cons.mpr ⟨fun p hp => ?_, place_ascending name v hrest⟩
        rcases mem_place hp with rfl | hp
        · exact hgt
        · exact hk p hp
      next hngt =>
        have hname : name = k :=
          String.le_antisymm (String.not_lt.mp hngt) (String.not_lt.mp hnlt)
        exact List.pairwise_cons.mpr ⟨fun p hp => hname ▸ hk p hp, hrest⟩

/-- The record without fields. -/
def empty : Record :=
  ⟨[], .nil⟩

/-- The record with one more field, instead of any field of that name. -/
def insert (r : Record) (name : String) (v : Value) : Record :=
  ⟨place name v r.fields, place_ascending name v r.ascending⟩

/-- The record of the given fields; of two fields with one name the later one stands. -/
def ofList (l : List (String × Value)) : Record :=
  l.foldl (fun r (name, v) => r.insert name v) empty

/-- The value of the field of the given name. -/
def get? (r : Record) (name : String) : Option Value :=
  r.fields.lookup name

end Record

end FirmwareMap
