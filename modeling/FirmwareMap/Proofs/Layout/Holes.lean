/-
  FirmwareMap.Proofs.Layout.Holes
  ───────────────────────────────
  **WHERE A LAYOUT RUNS OVER MEMORY THAT NAMES NO SECTIONS.**

  A layout looks only at mappings that name input sections.  Memory that is
  mapped without a name is left alone by the mappings themselves, which lie
  apart, but not by what is made of them:

      section  [lowest start, highest stop)   runs over the holes in between
      guard    [stop, stop + guard)           is put down unseen

  These are the only two ways.  A section meets unnamed memory exactly where
  that lies between two of its mappings, and a guard exactly where that starts
  with the guard.
-/
import FirmwareMap.Proofs.Layout.Region

namespace FirmwareMap

open Mapping (Connected)

/-! ## §1. Holes in a section. -/

/-- The mapping places memory and names no input sections. -/
def Mapping.Unnamed (m : Mapping) : Prop :=
  m.isAlias = false ∧ m.sections = []

instance (m : Mapping) : Decidable m.Unnamed :=
  inferInstanceAs (Decidable (_ ∧ _))

namespace OutputSection

variable {l : List Mapping} {s : OutputSection} {m : Mapping} {e : Extent}

/-- The range lies between two mappings of the section. -/
def HasHole (s : OutputSection) (l : List Mapping) (e : Extent) : Prop :=
  ∃ k₁ ∈ s.members l, ∃ k₂ ∈ s.members l,
    k₁.destExtent.stop ≤ e.start ∧ e.stop ≤ k₂.destExtent.start

instance (s : OutputSection) (l : List Mapping) (e : Extent) : Decidable (s.HasHole l e) :=
  inferInstanceAs (Decidable (∃ k₁ ∈ s.members l, ∃ k₂ ∈ s.members l, _ ∧ _))

end OutputSection

/-- Mappings that name their sections, and a range that none of them reaches. -/
structure Mapping.Avoid (l : List Mapping) (e : Extent) : Prop where
  /-- Every mapping names a section. -/
  linked : ∀ k ∈ l, k.Linked k
  /-- No mapping is empty. -/
  pos : ∀ k ∈ l, k.destExtent.start < k.destExtent.stop
  /-- The range is not empty. -/
  lt : e.start < e.stop
  /-- No mapping reaches the range. -/
  apart : ∀ k ∈ l, k.destExtent.Disjoint e

namespace Gathers

variable {l : List Mapping} {s : OutputSection} {m : Mapping} {e : Extent}

/-- Some mapping of the section starts where the section does, and some one stops where it does. -/
theorem exists_ends (h : Gathers l (Connected l m) s) (hself : ∀ k ∈ l, k.Linked k) :
    (∃ n ∈ s.members l, n.destExtent.start = s.extent.start)
      ∧ ∃ k ∈ s.members l, k.destExtent.stop = s.extent.stop := by
  obtain ⟨before, n, after, -, hn, -, hstart, -⟩ := h.lowest
  obtain ⟨⟨k, -, hk, hstop⟩, -⟩ := h.stop
  constructor
  · exact ⟨n, (h.mem_members_iff hself).mpr hn, hstart.symm⟩
  · exact ⟨k, (h.mem_members_iff hself).mpr hk, hstop.symm⟩

/-- **A section meets a range that none of its mappings reaches exactly in a hole.** -/
theorem meets_iff (h : Gathers l (Connected l m) s) (hl : Mapping.Avoid l e) :
    ¬ s.extent.Disjoint e ↔ s.HasHole l e := by
  have hmem : ∀ k ∈ s.members l, Connected l m k := fun k hk =>
    (h.mem_members_iff hl.linked).mp hk
  have hlt := hl.lt
  constructor
  · intro hmeets
    unfold Extent.Disjoint at hmeets
    obtain ⟨⟨n, hn, hstart⟩, k, hk, hstop⟩ := h.exists_ends hl.linked
    have hn' := hl.apart n (hmem n hn).right_mem
    have hk' := hl.apart k (hmem k hk).right_mem
    unfold Extent.Disjoint at hn' hk'
    -- the first of its mappings starts before the range ends, and so does not come after it
    refine ⟨n, hn, k, hk, ?_, ?_⟩
    · omega
    · omega
  · intro hhole
    obtain ⟨n, hn, k, hk, hbefore, hafter⟩ := hhole
    have hn' := (hmem n hn).right_mem
    have hk' := (hmem k hk).right_mem
    have hstart := h.start_le n hn' (hmem n hn)
    have hstop := h.stop.2 k hk' (hmem k hk)
    have hpos := hl.pos n hn'
    have hpos' := hl.pos k hk'
    unfold Extent.Disjoint
    omega

/-- **A guard meets such a range exactly where the range starts with the guard**, if both consist of
pages. -/
theorem guard_meets_iff (h : Gathers l (Connected l m) s) (hl : Mapping.Avoid l e)
    (hpaged : s.extent.stop % guardBytes = 0) (he : e.start % guardBytes = 0) (i : Nat) :
    ¬ (Placed.guard i s.extent.stop).extent.Disjoint e ↔ e.start = s.extent.stop := by
  obtain ⟨-, k, hk, hstop⟩ := h.exists_ends hl.linked
  have hkl := ((h.mem_members_iff hl.linked).mp hk).right_mem
  have hk' := hl.apart k hkl
  have hpos := hl.pos k hkl
  have hlt := hl.lt
  rw [guardBytes_eq] at hpaged he
  show ¬ (s.extent.stop + 4096 ≤ e.start ∨ e.stop ≤ s.extent.stop) ↔ _
  unfold Extent.Disjoint at hk'
  constructor
  · intro hmeets
    -- the range cannot start before the guard, where the last mapping is
    omega
  · intro hstart
    omega

end Gathers

/-! ## §2. One stage. -/

/-- Without virtualization all mappings are those of one stage. -/
theorem AddressMap.mem_enabled_iff_of_host {a : AddressMap} {p : Platform} {m : Mapping}
    (hp : p.virtualization = false) : m ∈ a.enabled p ↔ m ∈ a.entries .s := by
  rw [AddressMap.mem_enabled]
  constructor
  · intro hgiven
    obtain ⟨t, ht, hm⟩ := hgiven
    cases t with
    | s => exact hm
    | hs | vs | g => simp [Platform.enables, Stage.isVirtual, hp] at ht
  · intro hm
    exact ⟨.s, by simp [Platform.enables, Stage.isVirtual, hp], hm⟩

namespace ImageLayout

open AddressMap (collect threeLevels Admissible)
open OutputSection (ofMappings)

variable {a : AddressMap} {p₁ p : Platform} {m : Mapping} {layout : ImageLayout}
  {entry source : String}

/-- In an accepted map with one stage, mappings that name sections avoid one that does not. -/
theorem avoid_of_unnamed (ha : a.AcceptedOn p₁) (hp : p.virtualization = false)
    (hm : m ∈ a.enabled p) (hunnamed : m.Unnamed) :
    Mapping.Avoid (a.declaring p) m.destExtent := by
  have hms : m ∈ a.entries .s := (AddressMap.mem_enabled_iff_of_host hp).mp hm
  have hpos : ∀ k : Mapping, k.Bounded → k.destExtent.start < k.destExtent.stop := fun k hk =>
    Nat.lt_add_of_pos_right hk.bytes_pos
  refine ⟨fun k hk => ?_, fun k hk => ?_, ?_, fun k hk => ?_⟩
  · exact Mapping.linked_self (AddressMap.sections_ne_nil hk)
  · exact hpos k (ha.declaring_bounded hk)
  · exact hpos m (ha.bounded hms)
  · have hsections := AddressMap.sections_ne_nil hk
    have hks : k ∈ a.entries .s :=
      (AddressMap.mem_enabled_iff_of_host hp).mp (List.mem_filter.mp hk).1
    have hne : k ≠ m := by
      intro heq
      rw [heq] at hsections
      exact hsections hunnamed.2
    exact (ha.coherent .s).disjoint hks hms hne (AddressMap.isAlias_eq_false hsections) hunnamed.1

/-- **WHERE A LAYOUT MEETS UNNAMED MEMORY**: in the layout of an accepted map without
virtualization, a section meets a mapping that names no sections exactly if the mapping lies between
two mappings of the section, and a guard meets it exactly if it starts with the guard. -/
theorem ofMap_meets_unnamed (ha : a.AcceptedOn p₁) (hp : p.virtualization = false)
    (hlayout : (ofMap a p entry source).outcome = .ok layout) (hm : m ∈ a.enabled p)
    (hunnamed : m.Unnamed) :
    (∀ s, .content s ∈ layout.placed →
        (¬ s.extent.Disjoint m.destExtent ↔ s.HasHole (a.declaring p) m.destExtent))
      ∧ ∀ i start, .guard i start ∈ layout.placed →
          (¬ (Placed.guard i start).extent.Disjoint m.destExtent ↔ m.destExtent.start = start) := by
  obtain ⟨merged, hmerged, harranged⟩ := exists_arranged ha hlayout
  have havoid := avoid_of_unnamed ha hp hm hunnamed
  have hpaged := hmerged.paged fun k hk => ha.declaring_bounded hk
  have hdest := (ha.bounded ((AddressMap.mem_enabled_iff_of_host hp).mp hm)).dest_paged
  constructor
  · intro s hs
    obtain ⟨n, -, hgathers⟩ := hmerged.gathered s (harranged.content_mem.mp hs)
    exact hgathers.meets_iff havoid
  · intro i start hguard
    rw [harranged.placed] at hguard
    rcases mem_spaced hguard with ⟨s, -, heq⟩ | ⟨s, hs, j, heq⟩
    · cases heq
    · -- the guard stands behind one of the sections
      obtain ⟨rfl, rfl⟩ := Placed.guard.inj heq
      have hs' := harranged.sections.mem_iff.mp hs
      obtain ⟨n, -, hgathers⟩ := hmerged.gathered s hs'
      exact hgathers.guard_meets_iff havoid (hpaged s hs').stop hdest.1 i

/-! ## §3. An image with holes. -/

/-- Data in two places and code above it, with memory that names no sections in the hole between the
data, right behind it, and one page further on. -/
def holedImage : List (Stage × List Mapping) :=
  [(.s,
      [page 0x80000000 [".data"], page 0x80002000 [], page 0x80004000 [".data"],
       page 0x80005000 [], page 0x80006000 [], page 0x80008000 [".text"]])]

theorem holedImage_accepted : (collect holedImage).AcceptedOn threeLevels :=
  ⟨_, Admissible.outcome_eq (by decide +kernel)⟩

/-- The data of that image, from the lower to the upper place. -/
def holedData : OutputSection :=
  ⟨".data", ⟨0x80000000, 0x5000⟩, [".data"], false⟩

/-- The code of that image. -/
def holedCode : OutputSection :=
  ⟨".text", ⟨0x80008000, 0x1000⟩, [".text.startup", ".text"], false⟩

/-- The layout of that image, with a guard behind the data. -/
def holedLayout : ImageLayout where
  entry := "_start"
  source := ""
  placed := [.content holedData, .guard 0 0x80005000, .content holedCode]
  headers := [".data", ".text"]

theorem holedImage_layout :
    (ofMap (collect holedImage) threeLevels "_start" "").outcome = .ok holedLayout := by
  have hok : (ofMappings ((collect holedImage).enabled threeLevels)).outcome
      = .ok [holedData, holedCode] := by
    decide +kernel
  exact ofMap_of_ascending holedImage_accepted hok (by decide) "_start" ""

/-- Nothing meets the page further on: no data is above it, and the guard starts before it. -/
theorem holedImage_avoids_unnamed :
    (ofMap (collect holedImage) threeLevels "_start" "").outcome = .ok holedLayout
      ∧ page 0x80006000 [] ∈ (collect holedImage).enabled threeLevels
      ∧ ∀ q ∈ holedLayout.placed, q.extent.Disjoint (page 0x80006000 []).destExtent := by
  obtain ⟨hcontent, hguard⟩ := ofMap_meets_unnamed (m := page 0x80006000 []) holedImage_accepted
    rfl holedImage_layout (by decide) ⟨rfl, rfl⟩
  have hnone : ∀ s ∈ [holedData, holedCode],
      ¬ s.HasHole ((collect holedImage).declaring threeLevels) (page 0x80006000 []).destExtent := by
    decide +kernel
  refine ⟨holedImage_layout, by decide, fun q hq => ?_⟩
  by_contra hmeets
  cases q with
  | content s =>
    have hs : s ∈ [holedData, holedCode] := by
      simpa [holedLayout] using hq
    exact hnone s hs ((hcontent s hq).mp hmeets)
  | guard i start =>
    have hstart : start = 0x80005000 := by
      simp [holedLayout] at hq
      omega
    have hdest := (hguard i start hq).mp hmeets
    rw [hstart] at hdest
    exact absurd hdest (by decide)

/-- The data runs over the page in its hole, and the guard is put on the page right behind it. -/
theorem holedImage_meets_unnamed :
    (collect holedImage).AcceptedOn threeLevels ∧ threeLevels.virtualization = false
      ∧ (ofMap (collect holedImage) threeLevels "_start" "").outcome = .ok holedLayout
      ∧ (∃ m ∈ (collect holedImage).enabled threeLevels, m.Unnamed
          ∧ ∃ s, .content s ∈ holedLayout.placed ∧ ¬ s.extent.Disjoint m.destExtent)
      ∧ ∃ m ∈ (collect holedImage).enabled threeLevels, m.Unnamed
          ∧ ∃ i start, .guard i start ∈ holedLayout.placed
            ∧ ¬ (Placed.guard i start).extent.Disjoint m.destExtent := by
  refine ⟨holedImage_accepted, rfl, holedImage_layout, ?_, ?_⟩
  · exact ⟨page 0x80002000 [], by decide, by decide, holedData, by decide, by decide⟩
  · exact ⟨page 0x80005000 [], by decide, by decide, 0, 0x80005000, by decide, by decide⟩

end ImageLayout

end FirmwareMap
