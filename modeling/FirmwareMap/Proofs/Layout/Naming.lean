/-
  FirmwareMap.Proofs.Layout.Naming
  ────────────────────────────────
  **WHEN NAMES IN AN IMAGE ARE TOLD APART.**

  Sections differ in their names, and guards in their numbers.  Two things can
  still go wrong with the names of an image:

      .linker_guard_section_0      is a guard's name, and may be a section's
      .a.b  ↦  a_b  ↤  .a_b        one segment name for two sections
      .     ↦  (nothing)           no segment name at all

  because names are compared before guards are made and before segments are
  named.  Where neither happens, every section refers to its own segment.
-/
import Mathlib.Data.List.Forall2
import Mathlib.Data.List.Nodup
import Mathlib.Data.List.TakeWhile
import FirmwareMap.Layout.Script
import FirmwareMap.Proofs.Layout.Region

namespace FirmwareMap

/-! ## §1. Names of segments. -/

/-- A character of a section's name as it stands in the name of a segment. -/
def segmentChar (c : Char) : Char :=
  if c = '.' then '_' else c

theorem segmentChar_eq_iff {c d : Char} :
    segmentChar c = segmentChar d ↔ c = d ∨ (c = '.' ∨ c = '_') ∧ (d = '.' ∨ d = '_') := by
  unfold segmentChar
  by_cases hc : c = '.'
  · by_cases hd : d = '.'
    · simp [hc, hd]
    · simp [hc, hd, eq_comm]
  · by_cases hd : d = '.'
    · simp [hc, hd]
    · simp [hc, hd]
      grind

/-- Behind their leading dots, the names differ only where one has a dot and the other one an
underscore. -/
def Alike (a b : String) : Prop :=
  List.Forall₂ (fun c d => c = d ∨ (c = '.' ∨ c = '_') ∧ (d = '.' ∨ d = '_'))
    (a.toList.dropWhile (· == '.')) (b.toList.dropWhile (· == '.'))

instance (a b : String) : Decidable (Alike a b) :=
  inferInstanceAs (Decidable (List.Forall₂ _ _ _))

/-- **Two sections have segments of one name exactly if their own names are alike.** -/
theorem segmentName_eq_iff {a b : String} : segmentName a = segmentName b ↔ Alike a b := by
  unfold segmentName Alike
  simp only [← segmentChar_eq_iff]
  rw [String.ofList_inj, ← List.forall₂_eq_eq_eq, List.forall₂_map_left_iff,
    List.forall₂_map_right_iff]
  rfl

/-- A segment has a name unless that of its section is nothing but dots. -/
theorem segmentName_ne_empty_iff {a : String} : segmentName a ≠ "" ↔ ∃ c ∈ a.toList, c ≠ '.' := by
  have hempty : segmentName a = "" ↔ a.toList.dropWhile (· == '.') = [] := by
    unfold segmentName
    rw [← String.ofList_nil, String.ofList_inj, List.map_eq_nil_iff]
  rw [Ne, hempty, List.dropWhile_eq_nil_iff]
  simp

/-! ## §2. Names of guards. -/

theorem Numeral.decimal_injective {i j : Nat} (h : Numeral.decimal i = Numeral.decimal j) :
    i = j := by
  have hdigits : Nat.toDigits 10 i = Nat.toDigits 10 j := String.ofList_inj.mp h
  calc i = Nat.ofDigitChars 10 (Nat.toDigits 10 i) 0 := Nat.ofDigitChars_ten_toDigits.symm
    _ = Nat.ofDigitChars 10 (Nat.toDigits 10 j) 0 := by rw [hdigits]
    _ = j := Nat.ofDigitChars_ten_toDigits

namespace Placed

/-- Guards of one name have one number. -/
theorem index_eq_of_name {i j b c : Nat} (h : (guard i b).name = (guard j c).name) : i = j := by
  apply Numeral.decimal_injective
  have hlists : (".linker_guard_section_" ++ Numeral.decimal i).toList
      = (".linker_guard_section_" ++ Numeral.decimal j).toList := congrArg String.toList h
  rw [String.toList_append, String.toList_append] at hlists
  exact String.toList_inj.mp (List.append_cancel_left hlists)

end Placed

namespace ImageLayout

open OutputSection (ofMappings)

variable {a : AddressMap} {p₁ p : Platform} {layout : ImageLayout} {entry source : String}
  {l merged : List OutputSection} {n i b c : Nat}

/-- Guards are numbered from `n` on. -/
theorem le_of_guard_mem (h : .guard i b ∈ spaced n l) : n ≤ i := by
  fun_induction spaced n l with
  | case1 => cases h
  | case2 n s => simp at h
  | case3 n s t rest hgap ih =>
    simp only [List.mem_cons, reduceCtorEq, Placed.guard.injEq, false_or] at h
    rcases h with h | h
    · omega
    · have := ih h
      omega
  | case4 n s t rest hgap ih =>
    simp only [List.mem_cons, reduceCtorEq, false_or] at h
    exact ih h

/-- No number is given to two guards. -/
theorem guard_unique (hb : .guard i b ∈ spaced n l) (hc : .guard i c ∈ spaced n l) : b = c := by
  fun_induction spaced n l with
  | case1 => cases hb
  | case2 n s => simp at hb
  | case3 n s t rest hgap ih =>
    simp only [List.mem_cons, reduceCtorEq, Placed.guard.injEq, false_or] at hb hc
    rcases hb with hb | hb
    · rcases hc with hc | hc
      · omega
      · have := le_of_guard_mem hc
        omega
    · rcases hc with hc | hc
      · have := le_of_guard_mem hb
        omega
      · exact ih hb hc
  | case4 n s t rest hgap ih =>
    simp only [List.mem_cons, reduceCtorEq, false_or] at hb hc
    exact ih hb hc

/-! ## §3. The names of an image. -/

/-- The line that makes a load segment. -/
def segmentLine (name : String) : String :=
  "  " ++ name ++ " PT_LOAD;"

theorem segmentLine_injective : Function.Injective segmentLine := by
  intro a b h
  unfold segmentLine at h
  rwa [String.append_left_inj, String.append_right_inj] at h

/-- The names of the load segments. -/
def segmentNames (layout : ImageLayout) : List String :=
  layout.sections.map fun s => segmentName s.name

/-- The lines of segments are one for each name of a segment, between others that are not
indented. -/
theorem count_segmentLine (layout : ImageLayout) (name : String) :
    layout.segmentLines.count (segmentLine name) = layout.segmentNames.count name := by
  have hlines : layout.segmentLines
      = ["PHDRS", "\x7b"] ++ layout.segmentNames.map segmentLine ++ ["\x7d"] := by
    unfold segmentLines segmentNames
    rw [List.map_map]
    rfl
  have hframe : ∀ line ∈ ["PHDRS", "\x7b", "\x7d"], line ≠ segmentLine name := by
    intro line hline heq
    have hhead : line.toList.head? = some ' ' := by
      rw [heq, segmentLine, String.toList_append, String.toList_append]
      rfl
    clear heq
    revert line
    decide
  have hbefore : segmentLine name ∉ ["PHDRS", "\x7b"] := fun h =>
    hframe _ (List.mem_append_left ["\x7d"] h) rfl
  have hafter : segmentLine name ∉ ["\x7d"] := fun h =>
    hframe _ (List.mem_append_right ["PHDRS", "\x7b"] h) rfl
  rw [hlines, List.count_append, List.count_append, List.count_eq_zero_of_not_mem hbefore,
    List.count_eq_zero_of_not_mem hafter, List.count_map_of_injective _ _ segmentLine_injective]
  omega

/-- A section ends with a reference to its segment. -/
theorem getLast?_lines (s : OutputSection) :
    s.lines.getLast? = some ("  \x7d :" ++ segmentName s.name) := by
  unfold OutputSection.lines
  exact List.getLast?_concat

/-- The names of an image tell its parts apart. -/
structure WellNamed (layout : ImageLayout) : Prop where
  /-- No two sections or guards have one name. -/
  names : (layout.placed.map Placed.name).Nodup
  /-- Every segment has a name. -/
  nonempty : "" ∉ layout.segmentNames
  /-- No two segments have one name. -/
  segments : layout.segmentNames.Nodup
  /-- The segment to which a section refers is made by one line. -/
  resolves : ∀ s ∈ layout.sections, ∃ name, s.lines.getLast? = some ("  \x7d :" ++ name)
    ∧ layout.segmentLines.count (segmentLine name) = 1

/-- The names of sections and guards differ if no section has the name of a guard. -/
theorem Arranged.nodup_names_iff (h : Arranged merged layout) :
    (layout.placed.map Placed.name).Nodup
      ↔ ∀ s ∈ layout.sections, ∀ i start, .guard i start ∈ layout.placed →
          s.name ≠ (Placed.guard i start).name := by
  have hmem : ∀ s, .content s ∈ layout.placed ↔ s ∈ layout.sections := fun s =>
    h.content_mem.trans h.sections.mem_iff.symm
  constructor
  · intro hnodup s hs i start hguard heq
    have hsame := List.inj_on_of_nodup_map hnodup ((hmem s).mpr hs) hguard heq
    cases hsame
  · intro hapart
    refine h.nodup.map_on fun q hq r hr heq => ?_
    cases q with
    | content s =>
      cases r with
      | content t =>
        have hdistinct := h.distinct
        rw [h.headers] at hdistinct
        rw [List.inj_on_of_nodup_map hdistinct ((hmem s).mp hq) ((hmem t).mp hr) heq]
      | guard i start => exact absurd heq (hapart s ((hmem s).mp hq) i start hr)
    | guard i start =>
      cases r with
      | content t => exact absurd heq.symm (hapart t ((hmem t).mp hr) i start hq)
      | guard j stop =>
        obtain rfl := Placed.index_eq_of_name heq
        rw [h.placed] at hq hr
        rw [guard_unique hq hr]

/-- **WHEN THE NAMES OF AN IMAGE TELL ITS PARTS APART**: in the layout of an accepted map this is so
exactly if no section is named like one of its guards, no section's name is nothing but dots, and no
two sections have names that are alike. -/
theorem ofMap_wellNamed_iff (ha : a.AcceptedOn p₁)
    (h : (ofMap a p entry source).outcome = .ok layout) :
    layout.WellNamed
      ↔ (∀ s ∈ layout.sections, ∀ i start, .guard i start ∈ layout.placed →
            s.name ≠ (Placed.guard i start).name)
        ∧ (∀ s ∈ layout.sections, ∃ c ∈ s.name.toList, c ≠ '.')
        ∧ layout.sections.Pairwise fun s t => ¬ Alike s.name t.name := by
  obtain ⟨merged, -, harranged⟩ := exists_arranged ha h
  have hsegments : layout.segmentNames.Nodup
      ↔ layout.sections.Pairwise fun s t => ¬ Alike s.name t.name := by
    rw [segmentNames, List.Nodup, List.pairwise_map]
    simp only [ne_eq, segmentName_eq_iff]
  have hnonempty : "" ∉ layout.segmentNames
      ↔ ∀ s ∈ layout.sections, ∃ c ∈ s.name.toList, c ≠ '.' := by
    simp only [← segmentName_ne_empty_iff]
    simp [segmentNames]
  rw [← harranged.nodup_names_iff, ← hsegments, ← hnonempty]
  constructor
  · intro hnamed
    exact ⟨hnamed.names, hnamed.nonempty, hnamed.segments⟩
  · intro hgiven
    refine ⟨hgiven.1, hgiven.2.1, hgiven.2.2, fun s hs => ⟨_, getLast?_lines s, ?_⟩⟩
    rw [count_segmentLine]
    exact List.count_eq_one_of_mem hgiven.2.2 (List.mem_map_of_mem hs)

/-! ## §4. An image whose names are told apart, and one whose names are not. -/

open AddressMap (collect threeLevels Admissible)

/-- In the image with data in two places, names tell everything apart. -/
theorem sharingImage_wellNamed :
    ∃ layout, (ofMap (collect sharingImage) threeLevels "_start" "").outcome = .ok layout
      ∧ layout.sections.length = 2 ∧ layout.WellNamed := by
  have hlayout := ofMap_of_ascending sharingImage_accepted sharingImage_merged (by decide) "_start"
    ""
  have hguards : ∀ q ∈ spaced 0 sharingSections, q.isGuard → ∀ s ∈ sharingSections,
      s.name ≠ q.name := by
    decide +kernel
  have hsections := filterMap_content?_spaced 0 sharingSections
  refine ⟨_, hlayout, by decide, (ofMap_wellNamed_iff sharingImage_accepted hlayout).mpr
    ⟨fun s hs i start hguard => ?_, fun s hs => ?_, ?_⟩⟩
  · rw [ImageLayout.sections, hsections] at hs
    exact hguards _ hguard rfl s hs
  · rw [ImageLayout.sections, hsections] at hs
    rcases List.mem_pair.mp hs with rfl | rfl
    · exact ⟨'t', by decide, by decide⟩
    · exact ⟨'s', by decide, by decide⟩
  · rw [ImageLayout.sections, hsections]
    decide +kernel

/-- Code, a section with the name of the guard behind the code, two sections with names that are
alike, and a section whose name is a dot. -/
def dottedImage : List (Stage × List Mapping) :=
  [(.s,
      [page 0x80000000 [".text"], page 0x80002000 [".linker_guard_section_0"],
       page 0x80003000 [".a.b"], page 0x80004000 [".a_b"], page 0x80005000 ["."]])]

theorem dottedImage_accepted : (collect dottedImage).AcceptedOn threeLevels :=
  ⟨_, Admissible.outcome_eq (by decide +kernel)⟩

/-- The sections of that image, one for each page. -/
def dottedSections : List OutputSection :=
  [⟨".text", ⟨0x80000000, 0x1000⟩, [".text.startup", ".text"], false⟩,
   ⟨".linker_guard_section_0", ⟨0x80002000, 0x1000⟩, [".linker_guard_section_0"], false⟩,
   ⟨".a.b", ⟨0x80003000, 0x1000⟩, [".a.b"], false⟩,
   ⟨".a_b", ⟨0x80004000, 0x1000⟩, [".a_b"], false⟩,
   ⟨".", ⟨0x80005000, 0x1000⟩, ["."], false⟩]

/-- That image has a layout, with one name for a section and a guard, one name for two segments, and
a segment without a name. -/
theorem dottedImage_names :
    (collect dottedImage).AcceptedOn threeLevels
      ∧ ∃ layout, (ofMap (collect dottedImage) threeLevels "_start" "").outcome = .ok layout
          ∧ layout.placed.map Placed.name = [".text", ".linker_guard_section_0",
              ".linker_guard_section_0", ".a.b", ".a_b", "."]
          ∧ layout.segmentNames = ["text", "linker_guard_section_0", "a_b", "a_b", ""]
          ∧ layout.segmentLines.count (segmentLine "a_b") = 2 ∧ ¬ layout.WellNamed := by
  have hok : (ofMappings ((collect dottedImage).enabled threeLevels)).outcome
      = .ok dottedSections := by
    decide +kernel
  have hlayout := ofMap_of_ascending dottedImage_accepted hok (by decide) "_start" ""
  refine ⟨dottedImage_accepted, _, hlayout, by decide +kernel, by decide +kernel, ?_,
    fun hnamed => ?_⟩
  · rw [count_segmentLine]
    decide +kernel
  · exact absurd hnamed.nonempty (by decide +kernel)

end ImageLayout

end FirmwareMap
