/-
  FirmwareMap.Proofs.Record.Reading
  ─────────────────────────────────
  **WHAT A VALUE MEANS IN A FIELD.**

  What a value means is told without reading it:

      a number        itself, or a numeral that denotes it
      a truth value   itself, zero or one, or its name
      a size of page  the number of its bytes, or its name in either case with
                      any blanks around it
      sections        their names, or one text with commas between the names
      anything else   the text that is its name

  Several values may mean one thing, but a value means one thing at most in a
  field.  It is read as that, and a value that means nothing is not read:

      f.read v = .ok x  ↔  v means x in f
-/
import FirmwareMap.Proofs.Text.Numeral
import FirmwareMap.Record.Field

namespace FirmwareMap

/-! ## §1. Spellings. -/

namespace Value

/-- The value is the number, or a numeral that denotes it. -/
inductive SpellsNumber : Value → Nat → Prop
  | number (w : Word) : SpellsNumber (.number w) w.toNat
  | text {s : String} {n : Nat} (h : Numeral.Denotes s n) : SpellsNumber (.text s) n

/-- The value is the truth value, its number, or its name. -/
inductive SpellsFlag : Value → Bool → Prop
  | flag (b : Bool) : SpellsFlag (.flag b) b
  | number (b : Bool) : SpellsFlag (.number (.ofNat b.toNat)) b
  | text (b : Bool) : SpellsFlag (.text (if b then "true" else "false")) b

/-- The value spells the bytes of the size, or is its name in either case with any blanks around
it. -/
inductive SpellsPageSize : Value → PageSize → Prop
  | bytes {v : Value} {size : PageSize} (h : v.SpellsNumber size.bytes) : SpellsPageSize v size
  | name {s : String} {size : PageSize}
      (h : Text.trim s = size.name ∨ Text.trim s = size.lowerName) : SpellsPageSize (.text s) size

/-- The value lists the names, up to blanks around each, or is a text in which they stand between
commas; a piece of blanks alone is no name. -/
inductive SpellsNames : Value → List String → Prop
  | list (l : List String) : SpellsNames (.list l) (l.map Text.trim)
  | text {pieces : List String} (h : ∀ piece ∈ pieces, ',' ∉ piece.toList) :
    SpellsNames (.text (",".intercalate pieces)) ((pieces.map Text.trim).filter (· ≠ ""))

end Value

/-- What the value means in the field.  Sections have at least one name, and no name is empty. -/
def Field.Means : (f : Field) → Value → f.Carrier → Prop
  | .address _, v, n | .permissions, v, n | .pageCount, v, n => v.SpellsNumber n.toNat
  | .user, v, b | .isAlias, v, b | .valid, v, b | .noEntries, v, b => v.SpellsFlag b
  | .pageSize, v, size => v.SpellsPageSize size
  | .memoryType, v, t => v = .text t.name
  | .pbmt, v, t => v = .text t.name
  | .sections, v, names => v.SpellsNames names ∧ names ≠ [] ∧ "" ∉ names
  | .stage, v, t => v = .text t.name

/-! ## §2. Names between commas. -/

namespace Text

/-- Characters are made of pieces without commas, with commas between them. -/
theorem exists_piece_cons (cs : List Char) : ∃ piece rest,
    (∀ q ∈ piece :: rest, ',' ∉ q) ∧ cs = [','].intercalate (piece :: rest) := by
  induction cs with
  | nil => exact ⟨[], [], by simp, rfl⟩
  | cons c cs ih =>
    obtain ⟨piece, rest, hpieces, rfl⟩ := ih
    by_cases hc : c = ','
    · -- a comma ends an empty piece before the first
      refine ⟨[], piece :: rest, List.forall_mem_cons.mpr ⟨List.not_mem_nil, hpieces⟩, ?_⟩
      rw [hc, List.intercalate_cons_cons]
      rfl
    · -- any other character belongs to the first piece
      obtain ⟨hpiece, hrest⟩ := List.forall_mem_cons.mp hpieces
      have hcons : ',' ∉ c :: piece := List.not_mem_cons_of_ne_of_not_mem (Ne.symm hc) hpiece
      refine ⟨c :: piece, rest, List.forall_mem_cons.mpr ⟨hcons, hrest⟩, ?_⟩
      cases rest with
      | nil => rw [List.intercalate_singleton, List.intercalate_singleton]
      | cons => rw [List.intercalate_cons_cons, List.intercalate_cons_cons]; rfl

theorem exists_pieces (s : String) :
    ∃ pieces : List String, (∀ q ∈ pieces, ',' ∉ q.toList) ∧ s = ",".intercalate pieces := by
  obtain ⟨piece, rest, hpieces, hs⟩ := exists_piece_cons s.toList
  refine ⟨(piece :: rest).map .ofList, by simpa using hpieces, ?_⟩
  rw [← String.toList_inj, String.toList_intercalate, List.map_map, hs]
  simp [Function.comp_def]

/-- The names between the commas of a text are the pieces that were put there. -/
theorem names_intercalate {pieces : List String} (h : ∀ piece ∈ pieces, ',' ∉ piece.toList) :
    names (",".intercalate pieces) = (pieces.map trim).filter (· ≠ "") := by
  cases pieces with
  | nil => rfl
  | cons piece rest =>
    have hsplit : (",".intercalate (piece :: rest)).toList.splitOn ','
        = (piece :: rest).map String.toList := by
      rw [String.toList_intercalate]
      exact List.splitOn_intercalate ',' (by simpa using h) (List.cons_ne_nil _ _)
    have hempty : ∀ s : String, decide (trim s ≠ "") = decide (trimChars s.toList ≠ []) := by
      intro s
      rw [decide_eq_decide, trim, Ne, ← String.toList_inj, String.toList_ofList]
      rfl
    rw [names, hsplit, List.map_map, List.filter_map, List.map_map, List.filter_map]
    simp only [Function.comp_def, hempty]
    rfl

end Text

/-! ## §3. Readers. -/

theorem toOption_demand {ε α : Type} (o : Option α) (e : ε) : (demand o e).toOption = o := by
  cases o <;> rfl

/-- The last letter of the name of a size is not a digit of radix ten. -/
theorem PageSize.ofName?_trim_of_denotes {s : String} {n : Nat} (h : Numeral.Denotes s n) :
    ofName? (Text.trim s) = none := by
  obtain ⟨r, first, rest, d, ds, hsplit, hfirst, hrest, -⟩ := h.splitMark_trimChars
  replace hrest := Numeral.Radix.digits_iff.mp (.digit hfirst hrest)
  rw [Option.eq_none_iff_forall_ne_some]
  intro size hsize
  have hchars : Text.trimChars s.toList = (Text.trim s).toList := String.toList_ofList.symm
  rw [hchars] at hsplit
  rcases ofName?_eq_some_iff.mp hsize with hname | hname <;> rw [hname] at hsplit <;>
    cases size <;> cases hsplit <;> cases hrest

namespace Value

variable {v : Value} {field s : String} {n : Nat}

theorem SpellsNumber.asNumber_eq (h : v.SpellsNumber n) :
    (v.asNumber field).toOption = Word.ofNat? n := by
  cases h with
  | number w => exact (Word.ofNat?_toNat w).symm
  | text h => rw [asNumber, toOption_demand, h.read?_eq]

theorem SpellsNumber.pageSize?_eq (h : v.SpellsNumber n) :
    v.pageSize? = (Word.ofNat? n).bind PageSize.ofBytes? := by
  cases h with
  | number w =>
    rw [Word.ofNat?_toNat]
    rfl
  | text h =>
    rw [pageSize?, PageSize.ofName?_trim_of_denotes h, h.read?_eq, Option.none_or]

/-- Numbers and numerals are read as words, and nothing else is. -/
theorem asNumber_eq_ok_iff {w : Word} : v.asNumber field = .ok w ↔ v.SpellsNumber w.toNat := by
  constructor
  · intro h
    cases v with
    | number w =>
      cases h
      exact .number w
    | text s => exact .text (Numeral.denotes_of_read? (demand_eq_ok_iff.mp h))
    | flag | list => cases h
  · intro h
    have hword : (v.asNumber field).toOption = some w :=
      h.asNumber_eq.trans (Word.ofNat?_toNat w)
    cases hread : v.asNumber field with
    | error =>
      rw [hread] at hword
      cases hword
    | ok w' =>
      rw [hread] at hword
      exact congrArg _ (Option.some.inj hword)

/-- Truth values, zero, one and two texts are read as truth values, and nothing else is. -/
theorem asFlag_eq_ok_iff {b : Bool} : v.asFlag field = .ok b ↔ v.SpellsFlag b := by
  constructor
  · intro h
    cases v with
    | flag b =>
      cases h
      exact .flag b
    | number n =>
      simp only [asFlag] at h
      split_ifs at h with hzero hone
      · cases h
        exact hzero ▸ .number false
      · cases h
        exact hone ▸ .number true
    | text s =>
      simp only [asFlag] at h
      split_ifs at h with htrue hfalse
      · cases h
        exact htrue ▸ .text true
      · cases h
        exact hfalse ▸ .text false
    | list => cases h
  · intro h
    cases h with
    | flag => rfl
    | number | text => cases b <;> rfl

theorem asText_eq_ok_iff : v.asText field = .ok s ↔ v = .text s := by
  cases v <;> simp [asText]

/-- Names are read as what is known by them, and nothing else is. -/
theorem named_eq_ok_iff {α : Type} {ofName? : String → Option α} {name : α → String} {a : α}
    {fault : String → RecordFault} (hname : ∀ {s a}, ofName? s = some a ↔ name a = s) :
    (v.asText field >>= fun s => demand (ofName? s) (fault s)) = .ok a ↔ v = .text (name a) := by
  simp only [bind_eq_ok_iff, asText_eq_ok_iff, demand_eq_ok_iff, hname]
  constructor
  · intro h
    obtain ⟨s, hv, rfl⟩ := h
    exact hv
  · intro h
    exact ⟨name a, h, rfl⟩

/-- Bytes and names are read as sizes of page, and nothing else is. -/
theorem pageSize?_eq_some_iff {size : PageSize} :
    v.pageSize? = some size ↔ v.SpellsPageSize size := by
  constructor
  · intro h
    cases v with
    | number w =>
      have hbytes : size.bytes = w.toNat := PageSize.ofBytes?_eq_some_iff.mp h
      exact .bytes (hbytes ▸ .number w)
    | text s =>
      rcases Option.or_eq_some_iff.mp h with hname | ⟨-, hbytes⟩
      · exact .name (PageSize.ofName?_eq_some_iff.mp hname)
      · obtain ⟨w, hw, hbytes⟩ := Option.bind_eq_some_iff.mp hbytes
        have hdenotes := Numeral.denotes_of_read? hw
        rw [← PageSize.ofBytes?_eq_some_iff.mp hbytes] at hdenotes
        exact .bytes (.text hdenotes)
    | flag | list => cases h
  · intro h
    cases h with
    | bytes h =>
      rw [h.pageSize?_eq]
      cases size <;> rfl
    | name h => rw [pageSize?, PageSize.ofName?_eq_some_iff.mpr h, Option.some_or]

/-- Lists and texts are read as names, and nothing else is. -/
theorem names?_eq_some_iff {names : List String} :
    v.names? = some names ↔ v.SpellsNames names := by
  constructor
  · intro h
    cases v with
    | list l =>
      cases h
      exact .list l
    | text s =>
      cases h
      obtain ⟨pieces, hpieces, rfl⟩ := Text.exists_pieces s
      rw [Text.names_intercalate hpieces]
      exact .text hpieces
    | flag | number => cases h
  · intro h
    cases h with
    | list => rfl
    | text h => rw [names?, Text.names_intercalate h]

theorem asNames_eq_ok_iff {names : List String} :
    v.asNames field = .ok names ↔ v.SpellsNames names ∧ names ≠ [] ∧ "" ∉ names := by
  unfold asNames
  rw [bind_eq_ok_iff]
  simp only [demand_eq_ok_iff, require_bind_eq_ok_iff, names?_eq_some_iff]
  constructor
  · intro h
    obtain ⟨_, hnames, hsome, h⟩ := h
    cases h
    exact ⟨hnames, hsome⟩
  · intro h
    exact ⟨names, h.1, h.2, rfl⟩

end Value

namespace Field

variable {f : Field} {v : Value} {x y : f.Carrier}

/-- **A value is read as what it means in the field**, and as nothing if it means nothing there. -/
theorem read_eq_ok_iff : f.read v = .ok x ↔ f.Means v x := by
  cases f with
  | address | permissions | pageCount => exact Value.asNumber_eq_ok_iff
  | user | isAlias | valid | noEntries => exact Value.asFlag_eq_ok_iff
  | pageSize => exact demand_eq_ok_iff.trans Value.pageSize?_eq_some_iff
  | sections => exact Value.asNames_eq_ok_iff
  | memoryType => exact Value.named_eq_ok_iff MemoryType.ofName?_eq_some_iff
  | pbmt => exact Value.named_eq_ok_iff Pbmt.ofName?_eq_some_iff
  | stage => exact Value.named_eq_ok_iff Stage.ofName?_eq_some_iff

/-- A value means one thing at most in a field. -/
theorem Means.unique (hx : f.Means v x) (hy : f.Means v y) : x = y :=
  Except.ok.inj ((read_eq_ok_iff.mpr hx).symm.trans (read_eq_ok_iff.mpr hy))

end Field

end FirmwareMap
