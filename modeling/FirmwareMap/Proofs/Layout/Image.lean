/-
  FirmwareMap.Proofs.Layout.Image
  ───────────────────────────────
  **THE LAYOUT OF AN ACCEPTED MAP.**

  A layout is made in two passes: mappings that share inputs are merged into
  sections, and the sections are arranged with guards between them.  Either can
  fail, the first for a mapping that is linked to two components of those
  before it, the second for two sections that overlap; and if neither does,

      sections  =  components of the mappings
      placed    =  sections in ascending order, a guard in every gap
      headers   =  names of the sections, in that order
-/
import Mathlib.Data.List.Permutation
import FirmwareMap.Proofs.Layout.Arrangement
import FirmwareMap.Proofs.Layout.Merging
import FirmwareMap.Proofs.Paging.Levels

namespace FirmwareMap

open Mapping (Connected Ambiguous)

/-! ## §1. Sections that were merged. -/

/-- A mapping within its bounds places whole pages of the smallest size. -/
theorem Mapping.Bounded.dest_paged {m : Mapping} (h : m.Bounded) :
    m.destExtent.start % guardBytes = 0 ∧ m.destExtent.stop % guardBytes = 0 := by
  have hsmall : guardBytes ∣ m.block.page.bytes := Nat.dvd_of_mod_eq_zero m.block.page.bytes_mod
  have hdest : guardBytes ∣ m.block.dest.toNat :=
    Nat.dvd_trans hsmall (Nat.dvd_of_mod_eq_zero h.dest_aligned)
  have hbytes : guardBytes ∣ m.block.bytes := Nat.dvd_trans hsmall (Nat.dvd_mul_left _ _)
  exact ⟨Nat.mod_eq_zero_of_dvd hdest, Nat.mod_eq_zero_of_dvd (Nat.dvd_add hdest hbytes)⟩

namespace OutputSection.Merged

variable {l : List Mapping} {ss : List OutputSection}

/-- Merging keeps the bounds of sections at pages. -/
theorem paged (h : Merged l ss) (hbounded : ∀ m ∈ l, m.Bounded) : ∀ s ∈ ss, s.Paged := by
  intro s hs
  obtain ⟨m, -, hgathers⟩ := h.gathered s hs
  obtain ⟨before, n, after, heq, hn, -, hstart, -⟩ := hgathers.lowest
  obtain ⟨⟨k, hk, -, hstop⟩, hlast⟩ := hgathers.stop
  have hmem : n ∈ l := by
    rw [heq]
    exact List.mem_append_right _ List.mem_cons_self
  refine ⟨?_, ?_, ?_⟩
  · rw [hstart]
    exact (hbounded n hmem).dest_paged.1
  · rw [hstop]
    exact (hbounded k hk).dest_paged.2
  · have hle := hlast n hmem hn
    have hpos := (hbounded n hmem).bytes_pos
    have hlt : n.destExtent.start < n.destExtent.stop := Nat.lt_add_of_pos_right hpos
    omega

/-- The name of a section is one of its inputs, so no two sections have one name. -/
theorem names_ne (h : Merged l ss) : ss.Pairwise fun s t => s.name ≠ t.name := by
  have hname : ∀ s ∈ ss, s.name ∈ s.inputs := by
    intro s hs
    obtain ⟨m, -, hgathers⟩ := h.gathered s hs
    obtain ⟨before, n, after, heq, hn, hhead, -⟩ := hgathers.lowest
    refine (hgathers.inputs _).mpr ⟨n, ?_, hn, Mapping.mem_inputs (List.mem_of_head? hhead)⟩
    rw [heq]
    exact List.mem_append_right _ List.mem_cons_self
  refine h.apart.imp_of_mem fun {s t} hs ht hapart heq => hapart ⟨s.name, hname s hs, ?_⟩
  rw [heq]
  exact hname t ht

end OutputSection.Merged

/-! ## §2. Both passes. -/

namespace ImageLayout

open OutputSection

variable {a : AddressMap} {p₁ p : Platform} {l : List Mapping} {ss merged : List OutputSection}
  {layout : ImageLayout}

/-- The names of the sections that are placed, each once. -/
def headersOf (placed : List Placed) : List String :=
  appendNew [] ((placed.filterMap Placed.content?).map (·.name))

/-- A layout is the arrangement of the merged sections, if nothing in it collides. -/
theorem ofMap_eq_ok_iff {entry source : String} :
    (ofMap a p entry source).outcome = .ok layout
      ↔ ∃ ss, (ofMappings (a.enabled p)).outcome = .ok ss
        ∧ Extent.firstCollision? Placed.extent (arrange ss) = none
        ∧ layout = ⟨entry, source, arrange ss, headersOf (arrange ss)⟩ := by
  unfold ofMap
  rw [Run.bind_outcome_eq_ok_iff]
  refine exists_congr fun ss => and_congr_right fun _ => ?_
  rw [Run.bind_outcome_eq_ok_iff, checkDisjoint]
  cases Extent.firstCollision? Placed.extent (arrange ss) with
  | none =>
    simp only [Run.liftRefusal_eq_ok_iff, Run.report_bind_eq_ok_iff, Run.pure_outcome_eq_ok_iff,
      exists_const, true_and]
    exact eq_comm
  | some pair => simp

/-- There is no layout where merging fails, or where something collides. -/
theorem ofMap_eq_error_iff {entry source : String} {e : Failure} :
    (ofMap a p entry source).outcome = .error e
      ↔ (ofMappings (a.enabled p)).outcome = .error e
        ∨ ∃ ss, (ofMappings (a.enabled p)).outcome = .ok ss
          ∧ ∃ q r, Extent.firstCollision? Placed.extent (arrange ss) = some (q, r)
            ∧ e = .refused (.overlap q.text r.text) := by
  unfold ofMap
  rw [Run.outcome_bind, bind_eq_error_iff]
  refine or_congr_right (exists_congr fun ss => and_congr_right fun _ => ?_)
  rw [Run.outcome_bind, Run.outcome_liftRefusal, checkDisjoint]
  cases Extent.firstCollision? Placed.extent (arrange ss) with
  | none =>
    constructor
    · intro h
      cases h
    · intro h
      obtain ⟨q, r, hnone, -⟩ := h
      cases hnone
  | some pair =>
    constructor
    · intro h
      cases h
      exact ⟨pair.1, pair.2, rfl, rfl⟩
    · intro h
      obtain ⟨q, r, hpair, rfl⟩ := h
      cases hpair
      rfl

/-- The sections of a layout are the merged ones, in order. -/
theorem sections_of_merged (h : Merged l ss) (hbounded : ∀ m ∈ l, m.Bounded)
    (entry source : String) :
    (ImageLayout.mk entry source (arrange ss) (headersOf (arrange ss))).sections = ordered ss := by
  unfold ImageLayout.sections
  rw [arrange_eq (h.paged hbounded) h.names_ne, filterMap_content?_spaced]

/-- Nothing collides in the arrangement if no two of the merged sections overlap. -/
theorem firstCollision?_merged (h : Merged l merged) (hbounded : ∀ m ∈ l, m.Bounded) :
    Extent.firstCollision? Placed.extent (arrange merged) = none
      ↔ ∀ s ∈ merged, ∀ t ∈ merged, s ≠ t → s.extent.Disjoint t.extent := by
  have hpaged := h.paged hbounded
  rw [firstCollision?_arrange hpaged h.names_ne, Option.map_eq_none_iff]
  exact firstCollision?_ordered_eq_none_iff hpaged h.names_ne

/-- Where merging succeeds, there is a layout if no two of the merged sections overlap. -/
theorem ofMap_eq_ok_iff_disjoint (h : Merged l merged) (hbounded : ∀ m ∈ l, m.Bounded)
    (hok : (ofMappings (a.enabled p)).outcome = .ok merged) (entry source : String) :
    (ofMap a p entry source).outcome = .ok layout
      ↔ (∀ s ∈ merged, ∀ t ∈ merged, s ≠ t → s.extent.Disjoint t.extent)
        ∧ layout = ⟨entry, source, arrange merged, headersOf (arrange merged)⟩ := by
  rw [ofMap_eq_ok_iff, ← firstCollision?_merged h hbounded]
  constructor
  · intro hgiven
    obtain ⟨ss, hss, hnone, hlayout⟩ := hgiven
    obtain rfl := Except.ok.inj (hok.symm.trans hss)
    exact ⟨hnone, hlayout⟩
  · intro hgiven
    exact ⟨merged, hok, hgiven⟩

/-- Where merging succeeds, a layout is refused only for two sections that overlap. -/
theorem overlap_of_error (h : Merged l merged) (hbounded : ∀ m ∈ l, m.Bounded)
    (hok : (ofMappings (a.enabled p)).outcome = .ok merged) {entry source : String} {e : Failure}
    (he : (ofMap a p entry source).outcome = .error e) :
    ∃ s ∈ merged, ∃ t ∈ merged, s ≠ t ∧ ¬ s.extent.Disjoint t.extent
      ∧ e = .refused (.overlap s.text t.text) := by
  have hpaged := h.paged hbounded
  rcases ofMap_eq_error_iff.mp he with herror | ⟨ss, hss, q, r, hcollision, rfl⟩
  · rw [hok] at herror
    cases herror
  · obtain rfl := Except.ok.inj (hok.symm.trans hss)
    rw [firstCollision?_arrange hpaged h.names_ne, Option.map_eq_some_iff] at hcollision
    obtain ⟨⟨s, t⟩, hcollision, heq⟩ := hcollision
    obtain ⟨rfl, rfl⟩ := Prod.mk.inj heq
    obtain ⟨hs, ht, hne, hoverlap⟩ := overlap_of_collision hpaged h.names_ne hcollision
    exact ⟨s, hs, t, ht, hne, hoverlap, rfl⟩

/-! ## §3. Which sections there are. -/

/-- A page of memory with the given sections. -/
def page (dest : Word) (names : List String) : Mapping :=
  .direct .pa ⟨dest, .size4K, 1⟩ none names

/-- Code, data, and further data below it that has an input in common with it. -/
def sharingImage : List (Stage × List Mapping) :=
  [(.s,
      [.direct .pa ⟨0x80000000, .size4K, 2⟩ none [".text"],
       .direct .pa ⟨0x80010000, .size4K, 1⟩ none [".data", ".bss"],
       .direct .pa ⟨0x80004000, .size4K, 1⟩ none [".sbss", ".bss"]])]

open AddressMap in
theorem sharingImage_accepted : (collect sharingImage).AcceptedOn threeLevels :=
  ⟨_, Admissible.outcome_eq (by decide +kernel)⟩

/-- The sections of that image, of which the second has both lots of data. -/
def sharingSections : List OutputSection :=
  [⟨".text", ⟨0x80000000, 0x2000⟩, [".text.startup", ".text"], false⟩,
   ⟨".sbss", ⟨0x80004000, 0xd000⟩, [".sbss", ".bss", ".data"], true⟩]

open AddressMap in
theorem sharingImage_merged :
    (ofMappings ((collect sharingImage).enabled threeLevels)).outcome = .ok sharingSections := by
  decide +kernel

/-- **SECTIONS ARE THE COMPONENTS OF MAPPINGS THAT SHARE INPUTS**: the layout of an accepted map is
ambiguous exactly if some mapping shares inputs with two components of those before it; and in
every layout there is one section for each component of all mappings, from its least to its
greatest address, with the union of the inputs. -/
theorem ofMap_components (ha : a.AcceptedOn p₁) (p : Platform) (entry source : String) :
    ((∃ text, (ofMap a p entry source).outcome = .error (.refused (.ambiguousSection text)))
        ↔ Ambiguous (a.declaring p))
      ∧ ∀ layout, (ofMap a p entry source).outcome = .ok layout →
          Merged (a.declaring p) layout.sections
            ∧ (∀ s ∈ layout.sections, s.extent.stop < Word.count)
            ∧ ∀ m ∈ a.declaring p, ∀ k ∈ a.declaring p, ∀ s ∈ layout.sections,
                ∀ t ∈ layout.sections, Gathers (a.declaring p) (Connected (a.declaring p) m) s →
                Gathers (a.declaring p) (Connected (a.declaring p) k) t →
                (s = t ↔ Connected (a.declaring p) m k) := by
  rcases ofMappings_spec ha p with ⟨hclear, ss, hss, hmerged⟩ | ⟨hambiguous, text, herror⟩
  · refine ⟨⟨fun hgiven => ?_, fun hambiguous => absurd hambiguous hclear⟩,
      fun layout hlayout => ?_⟩
    · -- merged sections can collide, but that is another refusal
      obtain ⟨text, htext⟩ := hgiven
      rcases ofMap_eq_error_iff.mp htext with herror | ⟨_, -, q, r, -, heq⟩
      · rw [hss] at herror
        cases herror
      · cases heq
    · obtain ⟨tt, htt, -, rfl⟩ := ofMap_eq_ok_iff.mp hlayout
      obtain rfl := Except.ok.inj (hss.symm.trans htt)
      have hbounded := fun m (hm : m ∈ a.declaring p) => ha.declaring_bounded hm
      have hmerged' := hmerged.perm (ordered_perm ss)
      rw [← sections_of_merged hmerged hbounded entry source] at hmerged'
      refine ⟨hmerged', fun s hs => hmerged'.stop_lt (fun m hm => (hbounded m hm).dest_lt) hs,
        fun m hm k _ s hs t ht hgathers hgathers' => ?_⟩
      have hself := Mapping.linked_self (AddressMap.sections_ne_nil hm)
      exact hmerged'.eq_iff_connected hself hm hs ht hgathers hgathers'
  · refine ⟨⟨fun _ => hambiguous, fun _ => ⟨text, ofMap_eq_error_iff.mpr (.inl herror)⟩⟩,
      fun layout hlayout => ?_⟩
    obtain ⟨ss, hss, -⟩ := ofMap_eq_ok_iff.mp hlayout
    rw [herror] at hss
    cases hss

open AddressMap in
/-- The further data is linked to the data, so the image has two sections for its two components. -/
theorem sharingImage_components :
    ∃ layout, (ofMap (collect sharingImage) threeLevels "_start" "").outcome = .ok layout
      ∧ layout.sections.Perm sharingSections
      ∧ Merged ((collect sharingImage).declaring threeLevels) layout.sections
      ∧ ¬ Ambiguous ((collect sharingImage).declaring threeLevels) := by
  obtain ⟨-, hmerged⟩ := merged_of_ofMappings sharingImage_accepted sharingImage_merged
  have hbounded := fun m (hm : m ∈ (collect sharingImage).declaring threeLevels) =>
    sharingImage_accepted.declaring_bounded hm
  have hok := (ofMap_eq_ok_iff_disjoint hmerged hbounded sharingImage_merged "_start" "").mpr
    ⟨by decide, rfl⟩
  obtain ⟨hambiguous, hcomponents⟩ :=
    ofMap_components sharingImage_accepted threeLevels "_start" ""
  refine ⟨_, hok, ?_, (hcomponents _ hok).1, fun hsplit => ?_⟩
  · rw [sections_of_merged hmerged hbounded]
    exact ordered_perm _
  · obtain ⟨text, herror⟩ := hambiguous.mpr hsplit
    rw [hok] at herror
    cases herror

/-! ## §4. Where they are placed. -/

/-- The layout places the sections with a guard in every gap, and loads each of them. -/
structure Arranged (merged : List OutputSection) (layout : ImageLayout) : Prop where
  /-- The sections of the layout are those given, each once. -/
  sections : layout.sections.Perm merged
  /-- Between two neighbours there is one guard where there is a gap, at the start of the gap, and
  none where they touch. -/
  placed : layout.placed = spaced 0 layout.sections
  /-- Everything, guards included, ends before the next thing starts. -/
  ascending : layout.placed.Pairwise fun q r =>
    q.extent.start < r.extent.start ∧ q.extent.stop ≤ r.extent.start
  /-- Each section has its load segment, in the order of addresses. -/
  headers : layout.headers = layout.sections.map (·.name)
  /-- No two load segments share a name. -/
  distinct : layout.headers.Nodup

/-- Merged sections of which no two overlap are arranged. -/
theorem arranged_of_disjoint (h : Merged l merged) (hbounded : ∀ m ∈ l, m.Bounded)
    (hdisjoint : ∀ s ∈ merged, ∀ t ∈ merged, s ≠ t → s.extent.Disjoint t.extent)
    (entry source : String) :
    Arranged merged ⟨entry, source, arrange merged, headersOf (arrange merged)⟩ := by
  have hpaged := h.paged hbounded
  have hsections := sections_of_merged h hbounded entry source
  have hplaced := arrange_eq hpaged h.names_ne
  have hnames : ((ordered merged).map (·.name)).Nodup :=
    List.pairwise_map.mpr ((h.perm (ordered_perm merged)).names_ne)
  have hheaders : headersOf (arrange merged) = (ordered merged).map (·.name) := by
    rw [← hsections] at hnames ⊢
    exact appendNew_of_nodup hnames
  have hnone := (firstCollision?_merged h hbounded).mpr hdisjoint
  rw [Extent.firstCollision?_eq_none_iff, Extent.neighbours_iff_pairwise] at hnone
  refine ⟨?_, ?_, ?_, ?_, ?_⟩
  · rw [hsections]
    exact ordered_perm merged
  · rw [hsections]
    exact hplaced
  · refine hnone.imp_of_mem fun {q r} hq _ hle => ⟨?_, hle⟩
    rw [hplaced] at hq
    have hlt := start_lt_stop (fun s hs => hpaged s ((ordered_perm merged).mem_iff.mp hs)) hq
    exact Nat.lt_of_lt_of_le hlt hle
  · rw [hsections]
    exact hheaders
  · show (headersOf (arrange merged)).Nodup
    rw [hheaders]
    exact hnames

/-- Sections that come in ascending order and do not overlap are placed as they come. -/
theorem ofMap_of_ascending (ha : a.AcceptedOn p₁)
    (hok : (ofMappings (a.enabled p)).outcome = .ok ss)
    (hascending : ss.Pairwise fun s t => s.extent.stop ≤ t.extent.start) (entry source : String) :
    (ofMap a p entry source).outcome = .ok ⟨entry, source, spaced 0 ss, ss.map (·.name)⟩ := by
  have hmerged := (merged_of_ofMappings ha hok).2
  have hbounded := fun m (hm : m ∈ a.declaring p) => ha.declaring_bounded hm
  have hpaged := hmerged.paged hbounded
  have hdisjoint : ∀ s ∈ ss, ∀ t ∈ ss, s ≠ t → s.extent.Disjoint t.extent := by
    intro s hs t ht hne
    rcases eq_or_rel_of_pairwise hascending hs ht with heq | hst | hts
    · exact absurd heq hne
    · exact .inl hst
    · exact .inr hts
  have hordered : ordered ss = ss := by
    refine List.mergeSort_of_pairwise (hascending.imp_of_mem fun {s t} hs _ hle => ?_)
    exact (Placed.before_of_lt (Nat.lt_of_lt_of_le (hpaged s hs).lt hle)).1
  have harranged := arranged_of_disjoint hmerged hbounded hdisjoint entry source
  have hplaced : arrange ss = spaced 0 ss := by
    rw [arrange_eq hpaged hmerged.names_ne, hordered]
  have hheaders : headersOf (arrange ss) = ss.map (·.name) := by
    have hsections := harranged.headers
    rwa [sections_of_merged hmerged hbounded, hordered] at hsections
  rw [(ofMap_eq_ok_iff_disjoint hmerged hbounded hok entry source).mpr ⟨hdisjoint, rfl⟩, hheaders,
    hplaced]

/-- **ORDER, GUARDS AND OVERLAP**: where nothing is ambiguous, an accepted map has no layout exactly
if two of its merged sections overlap, and the refusal names two such sections, never a guard;
otherwise the sections are placed in ascending order with a guard in every gap, and each has a load
segment of its own name. -/
theorem ofMap_arranged (ha : a.AcceptedOn p₁) (hclear : ¬ Ambiguous (a.declaring p))
    (entry source : String) :
    ∃ merged, (ofMappings (a.enabled p)).outcome = .ok merged
      ∧ ((∃ first second, (ofMap a p entry source).outcome
            = .error (.refused (.overlap first second)))
          ↔ ∃ s ∈ merged, ∃ t ∈ merged, s ≠ t ∧ ¬ s.extent.Disjoint t.extent)
      ∧ (∀ e, (ofMap a p entry source).outcome = .error e →
          ∃ s ∈ merged, ∃ t ∈ merged, s ≠ t ∧ ¬ s.extent.Disjoint t.extent
            ∧ e = .refused (.overlap s.text t.text))
      ∧ ((∀ s ∈ merged, ∀ t ∈ merged, s ≠ t → s.extent.Disjoint t.extent) →
          ∃ layout, (ofMap a p entry source).outcome = .ok layout ∧ Arranged merged layout) := by
  rcases ofMappings_spec ha p with ⟨-, merged, hok, hmerged⟩ | ⟨hambiguous, -⟩
  · have hbounded := fun m (hm : m ∈ a.declaring p) => ha.declaring_bounded hm
    have hlayout := fun layout => (ofMap_eq_ok_iff_disjoint hmerged hbounded hok entry source :
      (ofMap a p entry source).outcome = .ok layout ↔ _)
    refine ⟨merged, hok, ⟨fun hgiven => ?_, fun hgiven => ?_⟩, fun e he => ?_, fun hdisjoint => ?_⟩
    · obtain ⟨first, second, herror⟩ := hgiven
      obtain ⟨s, hs, t, ht, hne, hoverlap, -⟩ := overlap_of_error hmerged hbounded hok herror
      exact ⟨s, hs, t, ht, hne, hoverlap⟩
    · obtain ⟨s, hs, t, ht, hne, hoverlap⟩ := hgiven
      -- with a layout, the two would be disjoint
      cases houtcome : (ofMap a p entry source).outcome with
      | ok layout => exact absurd (((hlayout layout).mp houtcome).1 s hs t ht hne) hoverlap
      | error e =>
        obtain ⟨s, -, t, -, -, -, rfl⟩ := overlap_of_error hmerged hbounded hok houtcome
        exact ⟨s.text, t.text, rfl⟩
    · exact overlap_of_error hmerged hbounded hok he
    · exact ⟨_, (hlayout _).mpr ⟨hdisjoint, rfl⟩,
        arranged_of_disjoint hmerged hbounded hdisjoint entry source⟩
  · exact absurd hambiguous hclear

open AddressMap in
/-- The guard of the code stands behind it, and the data is the last. -/
theorem sharingImage_arranged :
    ∃ layout, (ofMap (collect sharingImage) threeLevels "_start" "").outcome = .ok layout
      ∧ Arranged sharingSections layout
      ∧ layout.placed.map Placed.extent
          = [⟨0x80000000, 0x2000⟩, ⟨0x80002000, 0x1000⟩, ⟨0x80004000, 0xd000⟩] := by
  obtain ⟨hclear, -⟩ := merged_of_ofMappings sharingImage_accepted sharingImage_merged
  obtain ⟨merged, hok, -, -, hexists⟩ := ofMap_arranged sharingImage_accepted hclear "_start" ""
  obtain rfl := Except.ok.inj (sharingImage_merged.symm.trans hok)
  obtain ⟨layout, hlayout, harranged⟩ := hexists (by decide)
  refine ⟨layout, hlayout, harranged, ?_⟩
  have hplaced := harranged.placed
  rcases List.perm_pair.mp harranged.sections with hsections | hsections
  · rw [hplaced, hsections]
    decide
  · -- the other order would not ascend
    have hascending := harranged.ascending
    rw [hplaced, hsections] at hascending
    exact absurd hascending (by decide)

end ImageLayout

end FirmwareMap
