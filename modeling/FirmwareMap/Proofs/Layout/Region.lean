/-
  FirmwareMap.Proofs.Layout.Region
  ────────────────────────────────
  **THE TABLES LIE IN ONE SECTION OF THE LAYOUT.**

  The tables of a stage and the layout of the image find the region of the
  stage on their own: the one looks for a mapping with a section name that is
  reserved for the stage, the other merges mappings that share inputs.  They
  agree, because a reserved name is an input of one mapping only and merging
  neither drops names nor cuts ranges:

      [base, base + used)  ⊆  region  ⊆  the one section with a reserved name

  and whatever else is placed lies outside of that section.
-/
import FirmwareMap.Proofs.Layout.Image
import FirmwareMap.Proofs.Tables.Attempt

namespace FirmwareMap

open Mapping (Connected)

/-! ## §1. Reserved names. -/

/-- Startup code is reserved for no stage. -/
theorem Stage.not_reserves_startupInput (t : Stage) : ¬ t.Reserves startupInput := by
  cases t <;> decide +kernel

/-- The reserved names among the inputs of a mapping are those that it declares. -/
theorem Mapping.mem_sections_of_reserves {m : Mapping} {t : Stage} {name : String}
    (h : name ∈ m.inputs) (hreserved : t.Reserves name) : name ∈ m.sections := by
  unfold Mapping.inputs withStartup at h
  split at h
  · rcases List.mem_cons.mp h with rfl | h
    · exact absurd hreserved t.not_reserves_startupInput
    · exact h
  · exact h

namespace AddressMap

variable {a : AddressMap} {p : Platform} {t : Stage} {m k : Mapping}

/-- The region declares a reserved name. -/
theorem declares_of_region (h : a.region p t = .ok m) :
    m ∈ a.declaring p ∧ ∃ name ∈ m.sections, t.Reserves name := by
  rw [region_eq_ok_iff] at h
  obtain ⟨hmem, name, hname, hreserved⟩ := mem_regions.mp (h ▸ List.mem_singleton_self m)
  refine ⟨List.mem_filter.mpr ⟨hmem, ?_⟩, name, hname, hreserved⟩
  rw [decide_eq_true_iff]
  exact List.ne_nil_of_mem hname

/-- No other mapping places a reserved name. -/
theorem eq_of_region (h : a.region p t = .ok m) (hk : k ∈ a.declaring p) {name : String}
    (hname : name ∈ k.inputs) (hreserved : t.Reserves name) : k = m := by
  rw [region_eq_ok_iff] at h
  have hmem : k ∈ a.regions p t := mem_regions.mpr
    ⟨(List.mem_filter.mp hk).1, name, Mapping.mem_sections_of_reserves hname hreserved, hreserved⟩
  rw [h] at hmem
  exact List.mem_singleton.mp hmem

end AddressMap

/-! ## §2. The section of a region. -/

/-- Some input section that is placed there is reserved for the stage. -/
def Placed.Reserved (t : Stage) (q : Placed) : Prop :=
  ∃ name ∈ q.inputs, t.Reserves name

instance (t : Stage) (q : Placed) : Decidable (q.Reserved t) :=
  inferInstanceAs (Decidable (∃ name ∈ q.inputs, t.Reserves name))

namespace OutputSection.Merged

variable {a : AddressMap} {p : Platform} {t : Stage} {m : Mapping} {ss : List OutputSection}

/-- **One of the merged sections has the reserved names, and it holds the region.** -/
theorem exists_region (h : Merged (a.declaring p) ss) (hregion : a.region p t = .ok m) :
    ∃ s ∈ ss, m.destExtent.Within s.extent
      ∧ ∀ r ∈ ss, (Placed.content r).Reserved t ↔ r = s := by
  obtain ⟨hm, name, hname, hreserved⟩ := AddressMap.declares_of_region hregion
  obtain ⟨s, hs, hgathers⟩ := h.home m hm
  have hself : Connected (a.declaring p) m m := .refl hm
  -- every input of the region is one of its section
  have hinputs : ∀ n ∈ m.inputs, n ∈ s.inputs := fun n hn =>
    (hgathers.inputs n).mpr ⟨m, hm, hself, hn⟩
  refine ⟨s, hs, ⟨hgathers.start_le m hm hself, hgathers.stop.2 m hm hself⟩, fun r hr => ?_⟩
  constructor
  · intro hlists
    obtain ⟨n, hn, hreserves⟩ := hlists
    obtain ⟨k, -, hr'⟩ := h.gathered r hr
    obtain ⟨j, hj, -, hnj⟩ := (hr'.inputs n).mp hn
    obtain rfl := AddressMap.eq_of_region hregion hj hnj hreserves
    exact h.eq_of_shares hr hs ⟨n, hn, hinputs n hnj⟩
  · intro heq
    subst heq
    exact ⟨name, hinputs name (Mapping.mem_inputs hname), hreserved⟩

end OutputSection.Merged

/-! ## §3. What is placed. -/

namespace ImageLayout

open OutputSection

variable {a : AddressMap} {p₁ p : Platform} {layout : ImageLayout} {merged : List OutputSection}
  {s : OutputSection} {q r : Placed} {t : Stage}

/-- A layout of an accepted map places its merged sections. -/
theorem exists_arranged (ha : a.AcceptedOn p₁) {entry source : String}
    (h : (ofMap a p entry source).outcome = .ok layout) :
    ∃ merged, Merged (a.declaring p) merged ∧ Arranged merged layout := by
  obtain ⟨merged, hok, hnone, rfl⟩ := ofMap_eq_ok_iff.mp h
  have hmerged := (merged_of_ofMappings ha hok).2
  have hbounded := fun m (hm : m ∈ a.declaring p) => ha.declaring_bounded hm
  exact ⟨merged, hmerged, arranged_of_disjoint hmerged hbounded
    ((firstCollision?_merged hmerged hbounded).mp hnone) entry source⟩

namespace Arranged

/-- The sections that are placed are those that were merged. -/
theorem content_mem (h : Arranged merged layout) : .content s ∈ layout.placed ↔ s ∈ merged := by
  rw [← h.sections.mem_iff, ImageLayout.sections, List.mem_filterMap]
  constructor
  · intro hs
    exact ⟨.content s, hs, rfl⟩
  · intro hs
    obtain ⟨q, hq, hcontent⟩ := hs
    cases q with
    | content r =>
      obtain rfl := Option.some.inj hcontent
      exact hq
    | guard i start => cases hcontent

/-- Nothing is placed twice. -/
theorem nodup (h : Arranged merged layout) : layout.placed.Nodup := by
  refine h.ascending.imp fun {q r} hlt heq => ?_
  rw [heq] at hlt
  omega

/-- Things that differ lie apart. -/
theorem disjoint (h : Arranged merged layout) (hq : q ∈ layout.placed) (hr : r ∈ layout.placed)
    (hne : q ≠ r) : q.extent.Disjoint r.extent := by
  rcases eq_or_rel_of_pairwise h.ascending hq hr with heq | hbefore | hafter
  · exact absurd heq hne
  · exact .inl hbefore.2
  · exact .inr hafter.2

/-- The one section with reserved names is the one thing with reserved names. -/
theorem filter_reserved (h : Arranged merged layout) (hs : s ∈ merged)
    (honly : ∀ r ∈ merged, (Placed.content r).Reserved t ↔ r = s) :
    layout.placed.filter (·.Reserved t) = [.content s] := by
  rw [← List.perm_singleton, List.perm_ext_iff_of_nodup (h.nodup.filter _) (List.nodup_singleton _)]
  intro q
  rw [List.mem_filter, decide_eq_true_iff, List.mem_singleton]
  constructor
  · intro hgiven
    obtain ⟨hq, hreserved⟩ := hgiven
    cases q with
    | content r => rw [(honly r (h.content_mem.mp hq)).mp hreserved]
    | guard i start =>
      -- guards have no inputs
      obtain ⟨name, hname, -⟩ := hreserved
      cases hname
  · intro heq
    subst heq
    exact ⟨h.content_mem.mpr hs, (honly s hs).mpr rfl⟩

end Arranged

/-- **THE TABLES FIT THE LAYOUT**: if the tables of a stage are built and the image is laid out,
both from one map and on one platform, then one thing that is placed has names that are reserved for
the stage; it is a section, it holds all bytes of the tables, and nothing else reaches into them. -/
theorem tables_in_one_section (ha : a = .empty ∨ a.AcceptedOn p₁) {budget : Budget}
    {tables : StageTables} (htables : (StageTables.build a p t budget).outcome = .ok tables)
    {entry source : String} (hlayout : (ofMap a p entry source).outcome = .ok layout) :
    ∃ s, layout.placed.filter (·.Reserved t) = [.content s]
      ∧ (Extent.mk tables.base.toNat tables.used).Within s.extent
      ∧ ∀ q ∈ layout.placed, q ≠ .content s →
          q.extent.Disjoint ⟨tables.base.toNat, tables.used⟩ := by
  obtain ⟨n, hn⟩ := StageTables.exists_attempt a p t budget
  have hbuilt := StageTables.built_of_ofMap (hn ▸ htables)
  obtain ⟨m, hregion, hbase, hbudget, -⟩ := hbuilt.region
  rcases ha with rfl | ha
  · -- the empty map has no region
    obtain ⟨stage, hm⟩ := StageTables.mem_of_region hregion
    cases hm
  · obtain ⟨merged, hmerged, harranged⟩ := exists_arranged ha hlayout
    obtain ⟨s, hs, hwithin, honly⟩ := hmerged.exists_region hregion
    have hused := hbuilt.filled.packed.within
    have hstart : s.extent.start ≤ m.block.dest.toNat := hwithin.1
    have hstop : m.block.dest.toNat + m.block.bytes ≤ s.extent.stop := hwithin.2
    refine ⟨s, harranged.filter_reserved hs honly, ⟨?_, ?_⟩, fun q hq hne => ?_⟩
    · show s.extent.start ≤ tables.base.toNat
      rw [hbase]
      exact hstart
    · show tables.base.toNat + tables.used ≤ s.extent.stop
      rw [hbase]
      omega
    · have hapart := harranged.disjoint hq (harranged.content_mem.mpr hs) hne
      show q.extent.stop ≤ tables.base.toNat ∨ tables.base.toNat + tables.used ≤ q.extent.start
      rw [hbase]
      rcases hapart with hbefore | hafter
      · have hle : q.extent.stop ≤ s.extent.start := hbefore
        omega
      · have hle : s.extent.stop ≤ q.extent.start := hafter
        omega

/-- The sections of the small image, of which the last is the region of its tables. -/
def smallSections : List OutputSection :=
  [⟨".text", ⟨0x80000000, 0x2000⟩, [".text.startup", ".text"], false⟩,
   ⟨".data", ⟨0x80200000, 0x200000⟩, [".data"], false⟩,
   ⟨".rodata.s_stage.pagetables", ⟨0x90000000, 0x8000⟩, [".rodata.s_stage.pagetables"], false⟩]

open AddressMap in
/-- The small image has tables and a layout, and all bytes of the tables lie in the one section with
their name. -/
theorem smallImage_tables_in_section : ∃ tables layout s,
    (StageTables.build (collect smallImage) threeLevels .s (.fixed 8)).outcome = .ok tables
      ∧ (ofMap (collect smallImage) threeLevels "_start" "").outcome = .ok layout
      ∧ 0 < tables.used ∧ layout.placed.filter (·.Reserved .s) = [.content s]
      ∧ (Extent.mk tables.base.toNat tables.used).Within s.extent := by
  have ha : (collect smallImage).AcceptedOn threeLevels := ⟨_, smallImage_accepted⟩
  have hrun : ((ofMappings ((collect smallImage).enabled threeLevels)).outcome.toOption.any
      fun ss => decide (ss = smallSections)) = true := by
    decide +kernel
  obtain ⟨ss, hok, heq⟩ := exists_ok_of_any hrun
  rw [of_decide_eq_true heq] at hok
  have hbounded := fun m (hm : m ∈ (collect smallImage).declaring threeLevels) =>
    ha.declaring_bounded hm
  have hlayout := (ofMap_eq_ok_iff_disjoint (merged_of_ofMappings ha hok).2 hbounded hok "_start"
    "").mpr ⟨by decide, rfl⟩
  obtain ⟨tables, htables, -, hlength⟩ := StageTables.smallImage_tables
  have hbuild : (StageTables.build (collect smallImage) threeLevels .s (.fixed 8)).outcome
      = .ok tables := htables
  have hused : 0 < tables.used := by
    refine StageTables.used_pos fun hnil => ?_
    rw [hnil] at hlength
    cases hlength
  obtain ⟨s, hone, hwithin, -⟩ := tables_in_one_section (.inr ha) hbuild hlayout
  exact ⟨tables, _, s, hbuild, hlayout, hused, hone, hwithin⟩

end ImageLayout

end FirmwareMap
