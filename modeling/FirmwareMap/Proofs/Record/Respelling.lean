/-
  FirmwareMap.Proofs.Record.Respelling
  ────────────────────────────────────
  **HOW A RECORD IS SPELLED DOES NOT MATTER.**

  A number may be written as a numeral, a truth value as a number or by its
  name, a size of page by its bytes or by its name, and the names of sections
  in one text with commas between them.  Two records with the same names whose
  values spell the same are both refused, or both read as one mapping:

      r.Respells s  →  r.field? = s.field?  →  r.shape p = s.shape p

  The faults are not the same: they tell what was written.
-/
import FirmwareMap.Proofs.Record.Acceptance

namespace FirmwareMap

/-! ## §1. Spellings. -/

namespace Field

/-- Whether the values of the field are numbers; a size of page is a number of bytes. -/
def isNumber : Field → Bool
  | .address _ | .permissions | .pageCount | .pageSize => true
  | .user | .isAlias | .memoryType | .pbmt | .sections | .valid | .noEntries | .stage => false

/-- Whether the values of the field are truth values. -/
def isFlag : Field → Bool
  | .user | .isAlias | .valid | .noEntries => true
  | .address _ | .permissions | .pageCount | .pageSize | .memoryType | .pbmt | .sections
  | .stage => false

/-- The values are spellings of one thing in the field. -/
inductive Respells : Field → Value → Value → Prop
  | same (f : Field) (v : Value) : Respells f v v
  | number {f : Field} {v w : Value} {n : Nat} (hf : f.isNumber) (hv : v.SpellsNumber n)
      (hw : w.SpellsNumber n) : Respells f v w
  | flag {f : Field} {v w : Value} {b : Bool} (hf : f.isFlag) (hv : v.SpellsFlag b)
      (hw : w.SpellsFlag b) : Respells f v w
  | pageSize {v w : Value} {size : PageSize} (hv : v.SpellsPageSize size)
      (hw : w.SpellsPageSize size) : Respells .pageSize v w
  | names {v w : Value} {l : List String} (hv : v.SpellsNames l) (hw : w.SpellsNames l) :
    Respells .sections v w

end Field

namespace Record

/-- The fields have one name, and their values are equal or spellings of one thing in it. -/
def RespellsAt (a b : String × Value) : Prop :=
  a.1 = b.1 ∧ (a.2 = b.2 ∨ ∃ f : Field, f.name = a.1 ∧ f.Respells a.2 b.2)

/-- The records have the same names, with spellings of one thing under each. -/
def Respells (r s : Record) : Prop :=
  List.Forall₂ RespellsAt r.fields s.fields

end Record

/-! ## §2. What spellings are read as. -/

/-- **Spellings of one thing are read as one thing**, or not at all. -/
theorem Field.Respells.read_eq {f : Field} {v w : Value} (h : f.Respells v w) :
    (f.read v).toOption = (f.read w).toOption := by
  cases h with
  | same => rfl
  | number hf hv hw =>
    cases f with
    | address | permissions | pageCount => exact hv.asNumber_eq.trans hw.asNumber_eq.symm
    | pageSize =>
      rw [read, read, toOption_demand, toOption_demand, hv.pageSize?_eq, hw.pageSize?_eq]
    | _ => cases hf
  | flag hf hv hw =>
    cases f with
    | user | isAlias | valid | noEntries =>
      rw [read, read, Value.asFlag_eq_ok_iff.mpr hv, Value.asFlag_eq_ok_iff.mpr hw]
    | _ => cases hf
  | pageSize hv hw =>
    rw [read, read, Value.pageSize?_eq_some_iff.mpr hv, Value.pageSize?_eq_some_iff.mpr hw]
    rfl
  | names hv hw =>
    rw [read, read, Value.asNames, Value.asNames, Value.names?_eq_some_iff.mpr hv,
      Value.names?_eq_some_iff.mpr hw]

theorem Field.Respells.symm {f : Field} {v w : Value} (h : f.Respells v w) : f.Respells w v := by
  cases h with
  | same => exact .same _ _
  | number hf hv hw => exact .number hf hw hv
  | flag hf hv hw => exact .flag hf hw hv
  | pageSize hv hw => exact .pageSize hw hv
  | names hv hw => exact .names hw hv

/-! ## §3. Records that spell the same. -/

namespace Record

variable {r s : Record} {p : Platform} {m : Mapping}

theorem RespellsAt.symm {a b : String × Value} (h : RespellsAt a b) : RespellsAt b a := by
  obtain ⟨hname, heq | ⟨f, hf, h⟩⟩ := h
  · exact ⟨hname.symm, .inl heq.symm⟩
  · exact ⟨hname.symm, .inr ⟨f, hf.trans hname, h.symm⟩⟩

theorem Respells.symm (h : r.Respells s) : s.Respells r :=
  (h.imp fun _ _ => RespellsAt.symm).flip

/-- In the field that has the name, the values are read as one thing. -/
theorem RespellsAt.read_eq {f : Field} {v w : Value} (h : RespellsAt (f.name, v) (f.name, w)) :
    (f.read v).toOption = (f.read w).toOption := by
  obtain ⟨-, rfl | ⟨g, hname, h⟩⟩ := h
  · rfl
  · obtain rfl := Field.eq_of_name_eq hname
    exact h.read_eq

/-- Under each name, both records have a value or neither has. -/
theorem lookup_of_forall₂ {l l' : List (String × Value)} (h : List.Forall₂ RespellsAt l l')
    (name : String) :
    (l.lookup name = none ∧ l'.lookup name = none)
      ∨ ∃ v w, l.lookup name = some v ∧ l'.lookup name = some w
          ∧ RespellsAt (name, v) (name, w) := by
  induction h with
  | nil => exact .inl ⟨rfl, rfl⟩
  | @cons a b _ _ hab _ ih =>
    obtain ⟨key, v⟩ := a
    obtain ⟨key', w⟩ := b
    obtain rfl : key = key' := hab.1
    rw [List.lookup_cons, List.lookup_cons]
    by_cases hkey : name = key
    · subst hkey
      exact .inr ⟨v, w, by simp, by simp, hab⟩
    · rw [beq_false_of_ne hkey]
      exact ih

/-- **The records say the same in every field.** -/
theorem Respells.field?_eq (h : r.Respells s) : r.field? = s.field? := by
  funext f
  unfold field? get?
  rcases lookup_of_forall₂ h f.name with ⟨hr, hs⟩ | ⟨v, w, hr, hs, hvw⟩
  · rw [hr, hs]
  · rw [hr, hs, Option.bind_some, Option.bind_some, hvw.read_eq]

/-- Each field of one record spells a field of the other. -/
theorem Respells.exists_mem (h : r.Respells s) {b : String × Value} (hb : b ∈ s.fields) :
    ∃ a ∈ r.fields, RespellsAt a b := by
  obtain ⟨i, hi, rfl⟩ := List.mem_iff_getElem.mp hb
  have hi' : i < r.fields.length := by rwa [h.length_eq]
  exact ⟨r.fields[i], List.getElem_mem hi', h.get hi' hi⟩

/-- If all values of one record read, all values of the other do. -/
theorem Respells.wellSpelled (h : r.Respells s) (hr : r.WellSpelled) : s.WellSpelled := by
  intro name w hw
  obtain ⟨⟨key, v⟩, hv, hvw⟩ := h.exists_mem hw
  obtain rfl : key = name := hvw.1
  obtain ⟨f, x, rfl, hx⟩ := hr key v hv
  -- what reads as a value is spelled again as something that reads as this value
  have hsame := hvw.read_eq
  rw [Field.read_eq_ok_iff.mpr hx] at hsame
  cases hy : f.read w with
  | error =>
    rw [hy] at hsame
    cases hsame
  | ok y => exact ⟨f, y, rfl, Field.read_eq_ok_iff.mp hy⟩

section

variable {t : Stage} {page : PageSize} {count : Word} (h : r.field? = s.field?)
include h

theorem stage?_congr : r.stage? p = s.stage? p := by
  simp only [stage?, inferredStage?, address?, h]

theorem viewed_congr : r.viewed t page count = s.viewed t page count := by
  simp only [viewed, foreignAddress?, permissions, address?, h]

theorem untranslated_congr : r.untranslated page count = s.untranslated page count := by
  simp only [untranslated, onlyDest, address?, h]
  rfl

/-- What a record is read as is told by what it says in its fields. -/
theorem shape_congr : r.shape p = s.shape p := by
  simp only [shape, stage?_congr h, viewed_congr h, untranslated_congr h, h]

end

theorem Respells.toMapping_eq_ok (h : r.Respells s) (hr : r.toMapping p = .ok m) :
    s.toMapping p = .ok m := by
  unfold toMapping at hr ⊢
  rw [check_bind_eq_ok_iff, check_eq_ok_iff] at hr ⊢
  rw [← shape_congr h.field?_eq]
  exact ⟨h.wellSpelled hr.1, hr.2⟩

end Record

/-- **HOW A RECORD IS SPELLED DOES NOT MATTER**: two records with the same names, whose values are
equal or spellings of one thing, are both refused or both read as one mapping. -/
theorem Mapping.ofRecord_respelled (p : Platform) {r s : Record} (h : r.Respells s) :
    (∃ m, Mapping.ofRecord p r = .ok m ∧ Mapping.ofRecord p s = .ok m)
      ∨ ∃ e e', Mapping.ofRecord p r = .error e ∧ Mapping.ofRecord p s = .error e' := by
  have hiff : ∀ m, Mapping.ofRecord p r = .ok m ↔ Mapping.ofRecord p s = .ok m := by
    intro m
    unfold Mapping.ofRecord
    rw [mapError_eq_ok_iff, mapError_eq_ok_iff]
    exact ⟨h.toMapping_eq_ok, h.symm.toMapping_eq_ok⟩
  cases hr : Mapping.ofRecord p r with
  | ok m => exact .inl ⟨m, rfl, (hiff m).mp hr⟩
  | error e =>
    cases hs : Mapping.ofRecord p s with
    | ok m => cases hr.symm.trans ((hiff m).mpr hs)
    | error e' => exact .inr ⟨e, e', rfl, rfl⟩

/-- A record of code with two sections. -/
def codeRecord : Record where
  fields := [("gpa", .text "0x80_0000"), ("linker_script_section", .list [".text", " .rodata"]),
    ("num_pages", .text " 0b10 "), ("page_size", .text "4k"), ("umode", .text "true"),
    ("va", .number 0x1000), ("xwr", .number 5)]
  ascending := by decide +kernel

/-- The same record with numbers for texts and texts for numbers. -/
def respelledRecord : Record where
  fields := [("gpa", .number 0x800000), ("linker_script_section", .text ".text , .rodata,"),
    ("num_pages", .number 2), ("page_size", .text "0X1000"), ("umode", .number 1),
    ("va", .text "4_096"), ("xwr", .text "0B101")]
  ascending := by decide +kernel

theorem codeRecord_respells : codeRecord.Respells respelledRecord := by
  have hgpa : Numeral.Denotes "0x80_0000" (0x800000 : Word).toNat :=
    .intro [] ['0', 'x'] .hexadecimal '8' ['0', '_', '0', '0', '0', '0'] [] 8 [0, 0, 0, 0, 0] nofun
      .lowerHex ⟨by decide, .inl rfl⟩ (Numeral.Radix.digits_iff.mpr rfl) nofun rfl rfl
  have hspace : ∀ c ∈ [' '], Text.isBlank c := List.forall_mem_singleton.mpr rfl
  have hpages : Numeral.Denotes " 0b10 " (2 : Word).toNat :=
    .intro [' '] ['0', 'b'] .binary '1' ['0'] [' '] 1 [0] hspace .lowerBinary ⟨by decide, .inl rfl⟩
      (Numeral.Radix.digits_iff.mpr rfl) hspace rfl rfl
  have hsize : Numeral.Denotes "0X1000" PageSize.size4K.bytes :=
    .intro [] ['0', 'X'] .hexadecimal '1' ['0', '0', '0'] [] 1 [0, 0, 0] nofun .upperHex
      ⟨by decide, .inl rfl⟩ (Numeral.Radix.digits_iff.mpr rfl) nofun rfl rfl
  have hva : Numeral.Denotes "4_096" (0x1000 : Word).toNat :=
    .intro [] [] .decimal '4' ['_', '0', '9', '6'] [] 4 [0, 9, 6] nofun .none
      ⟨by decide, .inl rfl⟩ (Numeral.Radix.digits_iff.mpr rfl) nofun rfl rfl
  have hxwr : Numeral.Denotes "0B101" (5 : Word).toNat :=
    .intro [] ['0', 'B'] .binary '1' ['0', '1'] [] 1 [0, 1] nofun .upperBinary
      ⟨by decide, .inl rfl⟩ (Numeral.Radix.digits_iff.mpr rfl) nofun rfl rfl
  have hlist : (Value.list [".text", " .rodata"]).SpellsNames [".text", ".rodata"] := .list _
  have hnames : (Value.text ".text , .rodata,").SpellsNames [".text", ".rodata"] :=
    @Value.SpellsNames.text [".text ", " .rodata", ""] (by decide)
  refine .cons ⟨rfl, .inr ⟨.address .gpa, rfl, .number rfl (.text hgpa) (.number _)⟩⟩ ?_
  refine .cons ⟨rfl, .inr ⟨.sections, rfl, .names hlist hnames⟩⟩ ?_
  refine .cons ⟨rfl, .inr ⟨.pageCount, rfl, .number rfl (.text hpages) (.number _)⟩⟩ ?_
  refine .cons ⟨rfl, .inr ⟨.pageSize, rfl, .pageSize (.name (.inr rfl)) (.bytes (.text hsize))⟩⟩ ?_
  refine .cons ⟨rfl, .inr ⟨.user, rfl, .flag rfl (.text true) (.number true)⟩⟩ ?_
  refine .cons ⟨rfl, .inr ⟨.address .va, rfl, .number rfl (.number _) (.text hva)⟩⟩ ?_
  exact .cons ⟨rfl, .inr ⟨.permissions, rfl, .number rfl (.number _) (.text hxwr)⟩⟩ .nil

/-- Either record is read as two pages of code with both sections. -/
theorem Mapping.codeRecord_respelled : ∃ m,
    m = .translated ⟨.vs, 0x1000, .rx, true, true, none⟩ ⟨0x800000, .size4K, 2⟩ none
        [".text", ".rodata"]
      ∧ codeRecord.Respells respelledRecord
      ∧ Mapping.ofRecord guestLevels codeRecord = .ok m
      ∧ Mapping.ofRecord guestLevels respelledRecord = .ok m := by
  have hok : Mapping.ofRecord guestLevels codeRecord
      = .ok (.translated ⟨.vs, 0x1000, .rx, true, true, none⟩ ⟨0x800000, .size4K, 2⟩ none
          [".text", ".rodata"]) := rfl
  rcases Mapping.ofRecord_respelled guestLevels codeRecord_respells with
    ⟨m, hr, hs⟩ | ⟨e, _, hr, -⟩
  · obtain rfl := Except.ok.inj (hok.symm.trans hr)
    exact ⟨_, rfl, codeRecord_respells, hok, hs⟩
  · cases hok.symm.trans hr

end FirmwareMap
