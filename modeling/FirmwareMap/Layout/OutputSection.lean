/-
  FirmwareMap.Layout.OutputSection
  ────────────────────────────────
  **OUTPUT SECTIONS AND HOW THEY MERGE.**

  A mapping that names input sections makes one output section, with the name
  that it lists first.  Two output sections with an input section in common
  become one, from the start of the lower one to the later of both ends; the
  lower one gives the name and leads the inputs.  Startup code goes before all
  other input.

      merge a b :  start = min,  stop = max,  inputs = union
-/
import FirmwareMap.Mapping.Basic
import FirmwareMap.Report.Run

namespace FirmwareMap

/-! ## §1. Lists of input sections. -/

/-- The input sections of code. -/
def codeInput : String := ".text"

/-- The input sections of the code that runs first. -/
def startupInput : String := ".text.startup"

/-- The input sections of data that starts as zero. -/
def zeroInput : String := ".bss"

/-- The list, and at its end those of the new names that it does not hold, each once. -/
def appendNew (l new : List String) : List String :=
  new.foldl (fun l name => if name ∈ l then l else l ++ [name]) l

/-- The list, with startup code before it where it holds code and no startup code. -/
def withStartup (l : List String) : List String :=
  if codeInput ∈ l ∧ startupInput ∉ l then startupInput :: l else l

/-- The list, with its first mention of startup code moved to the front. -/
def startupFirst (l : List String) : List String :=
  if startupInput ∈ l then startupInput :: l.erase startupInput else l

theorem mem_appendNew {l new : List String} {name : String} :
    name ∈ appendNew l new ↔ name ∈ l ∨ name ∈ new := by
  unfold appendNew
  induction new generalizing l with
  | nil => simp
  | cons n rest ih =>
    rw [List.foldl_cons, ih, List.mem_cons]
    split
    next h =>
      constructor
      · intro hgiven
        rcases hgiven with h | h
        · exact .inl h
        · exact .inr (.inr h)
      · intro hgiven
        rcases hgiven with h' | rfl | h'
        · exact .inl h'
        · exact .inl h
        · exact .inr h'
    next => simp [or_assoc]

/-- Names that differ from each other and from those in the list are all appended. -/
theorem appendNew_of_nodup {new : List String} : ∀ {l : List String}, (l ++ new).Nodup →
    appendNew l new = l ++ new := by
  unfold appendNew
  induction new with
  | nil =>
    intro l _
    rw [List.append_nil]
    rfl
  | cons n new ih =>
    intro l h
    have hn : n ∉ l := fun hmem =>
      (List.nodup_append.mp h).2.2 n hmem n List.mem_cons_self rfl
    rw [List.foldl_cons, if_neg hn, ih (by rwa [← List.append_cons]), ← List.append_cons]

theorem mem_startupFirst {l : List String} {name : String} :
    name ∈ startupFirst l ↔ name ∈ l := by
  unfold startupFirst
  split
  next h => exact (List.perm_cons_erase h).symm.mem_iff
  next => exact Iff.rfl

/-! ## §2. Output sections. -/

/-- A name and a range of addresses on one line. -/
def rangeText (name : String) (e : Extent) : String :=
  name ++ " [" ++ Numeral.hex e.start ++ ", " ++ Numeral.hex e.stop ++ ")"

/-- A section of the image, and the input sections placed in it. -/
structure OutputSection where
  /-- The name of the section, and of the segment that loads it. -/
  name : String
  /-- The range of addresses. -/
  extent : Extent
  /-- The input sections, in the order of their placement. -/
  inputs : List String
  /-- Whether zeros are written out, so that nothing has to clear the section. -/
  isZeroPadded : Bool
  deriving DecidableEq, Repr

namespace OutputSection

/-- The section of a mapping, if the mapping names input sections. -/
def ofMapping? (m : Mapping) : Option OutputSection :=
  m.sections.head?.map fun name =>
    let inputs := withStartup m.sections
    ⟨name, m.destExtent, inputs, zeroInput ∈ inputs⟩

/-- The section on one line. -/
def text (s : OutputSection) : String :=
  rangeText s.name s.extent

/-- Some input section is listed by both. -/
def Shares (s t : OutputSection) : Prop :=
  ∃ name ∈ s.inputs, name ∈ t.inputs

instance (s t : OutputSection) : Decidable (s.Shares t) :=
  inferInstanceAs (Decidable (∃ name ∈ s.inputs, name ∈ t.inputs))

theorem Shares.symm {s t : OutputSection} : s.Shares t → t.Shares s
  | ⟨name, hs, ht⟩ => ⟨name, ht, hs⟩

/-! ## §3. Merging. -/

/-- The lower section with the inputs of another one, up to the later of both ends. -/
def absorb (lower upper : OutputSection) : OutputSection where
  name := lower.name
  extent := {
    start := lower.extent.start
    -- the size is kept in a word
    size := (UInt64.ofNat (max lower.extent.stop upper.extent.stop - lower.extent.start)).toNat }
  inputs := startupFirst (appendNew lower.inputs upper.inputs)
  isZeroPadded := lower.isZeroPadded || upper.isZeroPadded

/-- Both sections in one; of two with one start, the first leads. -/
def merge (s t : OutputSection) : OutputSection :=
  if t.extent.start < s.extent.start then t.absorb s else s.absorb t

/-- The sections with one more, merged with the only one that it shares inputs with. -/
def insert (l : List OutputSection) (new : OutputSection) : Run (List OutputSection) :=
  match l.filter (·.Shares new) with
  | [] => return l ++ [new]
  | [s] => do
    Run.report (.sectionMerged (s.merge new).text)
    -- only `s` shares inputs, so the map changes one place and keeps the order
    return l.map fun t => if t.Shares new then t.merge new else t
  | claimants =>
    Run.refuse (.ambiguousSection
      (new.name ++ " and " ++ ", ".intercalate (claimants.map (·.name))))

/-- The sections of some mappings, in the order in which they arise. -/
def ofMappings (mappings : List Mapping) : Run (List OutputSection) :=
  (mappings.filterMap ofMapping?).foldlM insert []

/-- The merged section ends with the later of both, where a word can hold either end. -/
theorem stop_merge {s t : OutputSection} (hs : s.extent.stop < Word.count)
    (ht : t.extent.stop < Word.count) :
    (s.merge t).extent.stop = max s.extent.stop t.extent.stop := by
  have hle : s.extent.start ≤ s.extent.stop := Nat.le_add_right _ _
  have hle' : t.extent.start ≤ t.extent.stop := Nat.le_add_right _ _
  unfold merge
  split
  · show t.extent.start + (UInt64.ofNat _).toNat = _
    rw [Word.toNat_ofNat_of_lt (by omega)]
    omega
  · show s.extent.start + (UInt64.ofNat _).toNat = _
    rw [Word.toNat_ofNat_of_lt (by omega)]
    omega

@[simp] theorem start_merge (s t : OutputSection) :
    (s.merge t).extent.start = min s.extent.start t.extent.start := by
  unfold merge
  split <;> simp only [absorb] <;> omega

@[simp] theorem isZeroPadded_merge (s t : OutputSection) :
    (s.merge t).isZeroPadded = (s.isZeroPadded || t.isZeroPadded) := by
  unfold merge
  split <;> simp only [absorb, Bool.or_comm]

theorem mem_inputs_merge {s t : OutputSection} {name : String} :
    name ∈ (s.merge t).inputs ↔ name ∈ s.inputs ∨ name ∈ t.inputs := by
  unfold merge
  split <;> simp only [absorb, mem_startupFirst, mem_appendNew, or_comm]

end OutputSection

end FirmwareMap
