/-
  FirmwareMap.Proofs.AddressMap.Acceptance
  ────────────────────────────────────────
  **WHICH MAPS ARE ACCEPTED, WITHOUT SORTING.**

  The validator sorts ranges and compares neighbours, one stage after the
  other, and stops at the first fault.  What it accepts can be said without
  any order: every mapping fits, stands in the partition of its own stage, and
  that stage exists; within a stage ANY two source ranges and ANY two placed
  destination ranges are disjoint, and every alias shows what one mapping
  places; and the entry section is placed:

      partitions are accepted  ↔  Admissible p partitions

  None of this depends on the order of partitions or of the mappings in them.
-/
import FirmwareMap.AddressMap.Validate
import FirmwareMap.Proofs.Address.Disjoint
import FirmwareMap.Proofs.Mapping.Check

namespace FirmwareMap.AddressMap

/-! ## §1. The mappings of one stage. -/

/-- The mappings of one stage agree with each other. -/
structure Coherent (mappings : List Mapping) : Prop where
  /-- No two source ranges overlap. -/
  sources : mappings.Pairwise fun m n =>
    ∀ e ∈ m.sourceExtent?, ∀ f ∈ n.sourceExtent?, e.Disjoint f
  /-- No two placed destination ranges overlap. -/
  placements : mappings.Pairwise fun m n =>
    m.isAlias = false → n.isAlias = false → m.destExtent.Disjoint n.destExtent
  /-- Every alias shows what a single mapping places. -/
  backed : ∀ m ∈ mappings, m.isAlias = true →
    ∃ n ∈ mappings, n.isAlias = false ∧ m.destExtent.Within n.destExtent

theorem coherent_iff {mappings : List Mapping} :
    Coherent mappings
      ↔ (mappings.Pairwise fun m n => ∀ e ∈ m.sourceExtent?, ∀ f ∈ n.sourceExtent?, e.Disjoint f)
        ∧ (mappings.Pairwise fun m n =>
            m.isAlias = false → n.isAlias = false → m.destExtent.Disjoint n.destExtent)
        ∧ ∀ m ∈ mappings, m.isAlias = true →
            ∃ n ∈ mappings, n.isAlias = false ∧ m.destExtent.Within n.destExtent := by
  constructor
  · intro h
    exact ⟨h.sources, h.placements, h.backed⟩
  · intro h
    exact ⟨h.1, h.2.1, h.2.2⟩

instance (mappings : List Mapping) : Decidable (Coherent mappings) :=
  decidable_of_iff' _ coherent_iff

/-- Agreement has nothing to do with order. -/
theorem Coherent.perm {l k : List Mapping} (h : l.Perm k) (hl : Coherent l) : Coherent k where
  sources := (h.pairwise_iff fun {_ _} hd e he f hf => (hd f hf e he).symm).mp hl.sources
  placements := (h.pairwise_iff fun {_ _} hd hm hn => (hd hn hm).symm).mp hl.placements
  backed := by
    intro m hm halias
    obtain ⟨n, hn, h'⟩ := hl.backed m (h.mem_iff.mpr hm) halias
    exact ⟨n, h.mem_iff.mp hn, h'⟩

/-- Two mappings that place memory lie apart. -/
theorem Coherent.disjoint {mappings : List Mapping} {m n : Mapping} (h : Coherent mappings)
    (hm : m ∈ mappings) (hn : n ∈ mappings) (hne : m ≠ n) (hplaced : m.isAlias = false)
    (hplaced' : n.isAlias = false) : m.destExtent.Disjoint n.destExtent := by
  rcases eq_or_rel_of_pairwise h.placements hm hn with heq | hmn | hnm
  · exact absurd heq hne
  · exact hmn hplaced hplaced'
  · exact (hnm hplaced' hplaced).symm

/-- A mapping that names sections places memory. -/
theorem isAlias_eq_false {m : Mapping} (h : m.sections ≠ []) : m.isAlias = false := by
  cases m with
  | direct => rfl
  | translated => rfl
  | aliased => exact absurd rfl h

theorem checkMembership_eq_ok_iff {t : Stage} {mappings : List Mapping} :
    checkMembership t mappings = .ok () ↔ ∀ m ∈ mappings, ∀ u ∈ m.stage?, u = t := by
  rw [checkMembership, forM_eq_ok_iff]
  simp only [require_eq_ok_iff]

/-- Comparing neighbours finds no overlap exactly when there is none. -/
theorem checkDisjoint_eq_ok_iff {ranges : List (Extent × Mapping)}
    (hpos : ∀ r ∈ ranges, 0 < r.1.size) :
    checkDisjoint ranges = .ok () ↔ ranges.Pairwise fun r s => r.1.Disjoint s.1 := by
  rw [← Extent.firstCollision?_sortByStart hpos, checkDisjoint]
  split
  next h => simp [h]
  next h => simp [h]

theorem pairwise_sources_iff {mappings : List Mapping} :
    ((sources mappings).Pairwise fun r s => r.1.Disjoint s.1)
      ↔ mappings.Pairwise fun m n =>
          ∀ e ∈ m.sourceExtent?, ∀ f ∈ n.sourceExtent?, e.Disjoint f := by
  rw [sources, List.pairwise_filterMap]
  refine ⟨fun h => h.imp fun hmn e he f hf => ?_, fun h => h.imp fun hmn r hr s hs => ?_⟩
  · exact hmn _ (Option.mem_map_of_mem _ he) _ (Option.mem_map_of_mem _ hf)
  · obtain ⟨e, he, rfl⟩ := Option.map_eq_some_iff.mp hr
    obtain ⟨f, hf, rfl⟩ := Option.map_eq_some_iff.mp hs
    exact hmn e he f hf

theorem pairwise_placements_iff {mappings : List Mapping} :
    ((placements mappings).Pairwise fun r s => r.1.Disjoint s.1)
      ↔ mappings.Pairwise fun m n =>
          m.isAlias = false → n.isAlias = false → m.destExtent.Disjoint n.destExtent := by
  rw [placements, List.pairwise_map, List.pairwise_filter]
  simp only [Bool.not_eq_true']

theorem checkAliases_eq_ok_iff {mappings : List Mapping} :
    checkAliases mappings = .ok ()
      ↔ ∀ m ∈ mappings, m.isAlias = true →
          ∃ n ∈ mappings, n.isAlias = false ∧ m.destExtent.Within n.destExtent := by
  rw [checkAliases, forM_eq_ok_iff]
  simp only [List.mem_filter, and_imp]
  refine forall_congr' fun m => imp_congr_right fun _ => imp_congr_right fun _ => ?_
  rw [require_eq_ok_iff]
  simp only [placements, List.mem_map, List.mem_filter, Bool.not_eq_true']
  constructor
  · intro h
    obtain ⟨_, ⟨n, ⟨hn, hplaced⟩, rfl⟩, hwithin⟩ := h
    exact ⟨n, hn, hplaced, hwithin⟩
  · intro h
    obtain ⟨n, hn, hplaced, hwithin⟩ := h
    exact ⟨_, ⟨n, ⟨hn, hplaced⟩, rfl⟩, hwithin⟩

/-- The mappings of a stage pass their check exactly when the stage is theirs and they agree. -/
theorem checkStage_eq_ok_iff {t : Stage} {mappings : List Mapping}
    (hpos : ∀ m ∈ mappings, 0 < m.block.bytes) :
    checkStage t mappings = .ok ()
      ↔ (∀ m ∈ mappings, ∀ u ∈ m.stage?, u = t) ∧ Coherent mappings := by
  have hsources : ∀ r ∈ sources mappings, 0 < r.1.size := by
    intro r hr
    obtain ⟨m, hm, hr⟩ := List.mem_filterMap.mp hr
    obtain ⟨e, he, rfl⟩ := Option.map_eq_some_iff.mp hr
    obtain ⟨v, -, rfl⟩ := Option.map_eq_some_iff.mp he
    exact hpos m hm
  have hplacements : ∀ r ∈ placements mappings, 0 < r.1.size := by
    intro r hr
    obtain ⟨m, hm, rfl⟩ := List.mem_map.mp hr
    exact hpos m (List.mem_filter.mp hm).1
  rw [checkStage, check_bind_eq_ok_iff, check_bind_eq_ok_iff, check_bind_eq_ok_iff,
    checkMembership_eq_ok_iff, checkDisjoint_eq_ok_iff hsources,
    checkDisjoint_eq_ok_iff hplacements, checkAliases_eq_ok_iff, pairwise_sources_iff,
    pairwise_placements_iff]
  refine and_congr_right fun _ => ?_
  exact ⟨fun ⟨hs, hp, hb⟩ => ⟨hs, hp, hb⟩, fun ⟨hs, hp, hb⟩ => ⟨hs, hp, hb⟩⟩

/-! ## §2. The whole map. -/

/-- What is said of partitions that are accepted, in any order of them and of their mappings. -/
structure Admissible (p : Platform) (partitions : List (Stage × List Mapping)) : Prop where
  /-- Every mapping fits the platform. -/
  fits : ∀ part ∈ partitions, ∀ m ∈ part.2, m.check p = .ok ()
  /-- Only stages that exist have mappings. -/
  enabled : ∀ part ∈ partitions, part.2 ≠ [] → p.enables part.1
  /-- A view stands in a partition of its own stage. -/
  own : ∀ part ∈ partitions, ∀ m ∈ part.2, ∀ u ∈ m.stage?, u = part.1
  /-- The mappings of each stage agree with each other. -/
  coherent : ∀ t, Coherent ((collect partitions).entries t)
  /-- Some mapping of a stage that exists places the entry section. -/
  entry : ∃ t, p.enables t ∧ ∃ m ∈ (collect partitions).entries t,
    m.isAlias = false ∧ entrySection ∈ m.sections

/-- Whether partitions are admissible can be computed, stage by stage. -/
theorem admissible_iff {p : Platform} {partitions : List (Stage × List Mapping)} :
    Admissible p partitions
      ↔ (∀ part ∈ partitions, ∀ m ∈ part.2, m.check p = .ok ())
        ∧ (∀ part ∈ partitions, part.2 ≠ [] → p.enables part.1)
        ∧ (∀ part ∈ partitions, ∀ m ∈ part.2, ∀ u ∈ m.stage?, u = part.1)
        ∧ (∀ t ∈ Stage.all, Coherent ((collect partitions).entries t))
        ∧ ∃ t ∈ Stage.all, p.enables t ∧ ∃ m ∈ (collect partitions).entries t,
            m.isAlias = false ∧ entrySection ∈ m.sections := by
  constructor
  · intro h
    obtain ⟨t, ht, hentry⟩ := h.entry
    exact ⟨h.fits, h.enabled, h.own, fun t _ => h.coherent t, t, t.mem_all, ht, hentry⟩
  · intro h
    obtain ⟨hfits, henabled, hown, hcoherent, t, -, ht, hentry⟩ := h
    exact ⟨hfits, henabled, hown, fun t => hcoherent t t.mem_all, t, ht, hentry⟩

instance (p : Platform) (partitions : List (Stage × List Mapping)) :
    Decidable (Admissible p partitions) :=
  decidable_of_iff' _ admissible_iff

theorem checkEach_eq_ok_iff {p : Platform} {partitions : List (Stage × List Mapping)} :
    checkEach p partitions = .ok () ↔ ∀ part ∈ partitions, ∀ m ∈ part.2, m.check p = .ok () := by
  rw [checkEach, forM_eq_ok_iff]
  simp only [forM_eq_ok_iff, mapError_eq_ok_iff]

theorem checkEnabled_eq_ok_iff {p : Platform} {a : AddressMap} :
    checkEnabled p a = .ok () ↔ ∀ t, a.entries t ≠ [] → p.enables t := by
  rw [checkEnabled, forM_eq_ok_iff]
  constructor
  · intro h t hne
    have ht := h t (Stage.mem_all t)
    split at ht
    next hnil => exact absurd hnil hne
    next => exact require_eq_ok_iff.mp ht
  · intro h t _
    split
    next => rfl
    next m rest hcons =>
      exact require_eq_ok_iff.mpr (h t (by rw [hcons]; exact List.cons_ne_nil _ _))

theorem checkEntry_eq_ok_iff {p : Platform} {a : AddressMap} :
    checkEntry p a = .ok ()
      ↔ ∃ t, p.enables t ∧ ∃ m ∈ a.entries t, m.isAlias = false ∧ entrySection ∈ m.sections := by
  rw [checkEntry, require_eq_ok_iff]
  constructor
  · intro h
    obtain ⟨m, hm, hentry⟩ := h
    obtain ⟨t, ht, hm⟩ := mem_enabled.mp hm
    refine ⟨t, ht, m, hm, ?_, hentry⟩
    -- an alias has no sections
    cases m with
    | aliased => cases hentry
    | direct | translated => rfl
  · intro h
    obtain ⟨t, ht, m, hm, -, hentry⟩ := h
    exact ⟨m, mem_enabled.mpr ⟨t, ht, hm⟩, hentry⟩

/-- A map is the one that its partitions make up, if they pass both checks. -/
theorem ofPartitions_eq_ok_iff {p : Platform} {partitions : List (Stage × List Mapping)}
    {a : AddressMap} :
    (ofPartitions p partitions).outcome = .ok a
      ↔ checkEach p partitions = .ok () ∧ validate p (collect partitions) = .ok ()
        ∧ a = collect partitions := by
  rw [ofPartitions, Run.bind_outcome_eq_ok_iff]
  simp only [Run.liftRefusal_eq_ok_iff, Run.bind_outcome_eq_ok_iff, Run.outcome_report,
    Run.outcome_pure, Except.ok.injEq]
  constructor
  · intro h
    obtain ⟨⟨⟩, heach, ⟨⟩, hvalid, -, -, rfl⟩ := h
    exact ⟨heach, hvalid, rfl⟩
  · intro h
    obtain ⟨heach, hvalid, rfl⟩ := h
    exact ⟨(), heach, (), hvalid, (), trivial, rfl⟩

/-- The partitions are accepted. -/
def Accepts (p : Platform) (partitions : List (Stage × List Mapping)) : Prop :=
  ∃ a, (ofPartitions p partitions).outcome = .ok a

/-- **The validator accepts what is admissible and nothing else.** -/
theorem accepts_iff_admissible {p : Platform} {partitions : List (Stage × List Mapping)} :
    Accepts p partitions ↔ Admissible p partitions := by
  have hentries : ∀ t m, m ∈ (collect partitions).entries t
      ↔ ∃ part ∈ partitions, part.1 = t ∧ m ∈ part.2 := by
    intro t m
    rw [mem_collect]
    exact ⟨fun ⟨l, hl, hm⟩ => ⟨(t, l), hl, rfl, hm⟩, fun ⟨(u, l), hl, hu, hm⟩ => ⟨l, hu ▸ hl, hm⟩⟩
  have hpos : (∀ part ∈ partitions, ∀ m ∈ part.2, m.check p = .ok ()) →
      ∀ t, ∀ m ∈ (collect partitions).entries t, 0 < m.block.bytes := by
    intro hfits t m hm
    obtain ⟨part, hpart, -, hm⟩ := (hentries t m).mp hm
    exact (Mapping.bounded_of_check (hfits part hpart m hm)).bytes_pos
  constructor
  · -- a partition that is not empty makes its stage not empty, so the checks of stages speak of it
    intro hgiven
    obtain ⟨a, h⟩ := hgiven
    obtain ⟨heach, hvalid, -⟩ := ofPartitions_eq_ok_iff.mp h
    rw [checkEach_eq_ok_iff] at heach
    rw [validate, check_bind_eq_ok_iff, check_bind_eq_ok_iff, checkEnabled_eq_ok_iff,
      forM_eq_ok_iff, checkEntry_eq_ok_iff] at hvalid
    obtain ⟨henabled, hstages, hentry⟩ := hvalid
    have hstage : ∀ t, p.enables t →
        (∀ m ∈ (collect partitions).entries t, ∀ u ∈ m.stage?, u = t)
          ∧ Coherent ((collect partitions).entries t) := fun t ht =>
      (checkStage_eq_ok_iff (hpos heach t)).mp (hstages t (Platform.mem_stages.mpr ht))
    have hnonempty : ∀ part ∈ partitions, ∀ m ∈ part.2, p.enables part.1 := fun part hpart m hm =>
      henabled part.1 (List.ne_nil_of_mem ((hentries part.1 m).mpr ⟨part, hpart, rfl, hm⟩))
    refine ⟨heach, fun part hpart hne => ?_, fun part hpart m hm => ?_, fun t => ?_, hentry⟩
    · obtain ⟨m, hm⟩ := List.exists_mem_of_ne_nil _ hne
      exact hnonempty part hpart m hm
    · exact (hstage part.1 (hnonempty part hpart m hm)).1 m
        ((hentries part.1 m).mpr ⟨part, hpart, rfl, hm⟩)
    · -- a stage that does not exist has no mappings, and so nothing that could disagree
      by_cases hnil : (collect partitions).entries t = []
      · rw [hnil]
        exact ⟨.nil, .nil, fun m hm => by cases hm⟩
      · exact (hstage t (henabled t hnil)).2
  · intro hgiven
    obtain ⟨hfits, henabled, hown, hcoherent, hentry⟩ := hgiven
    refine ⟨collect partitions, ofPartitions_eq_ok_iff.mpr ⟨checkEach_eq_ok_iff.mpr hfits, ?_, rfl⟩⟩
    rw [validate, check_bind_eq_ok_iff, check_bind_eq_ok_iff, checkEnabled_eq_ok_iff,
      forM_eq_ok_iff, checkEntry_eq_ok_iff]
    refine ⟨fun t hne => ?_, fun t _ => (checkStage_eq_ok_iff (hpos hfits t)).mpr ⟨?_, hcoherent t⟩,
      hentry⟩
    · obtain ⟨m, hm⟩ := List.exists_mem_of_ne_nil _ hne
      obtain ⟨part, hpart, rfl, hmem⟩ := (hentries t m).mp hm
      exact henabled part hpart (List.ne_nil_of_mem hmem)
    · intro m hm
      obtain ⟨part, hpart, rfl, hmem⟩ := (hentries t m).mp hm
      exact hown part hpart m hmem

/-- The map of admissible partitions is the one that they make up. -/
theorem Admissible.outcome_eq {p : Platform} {partitions : List (Stage × List Mapping)}
    (h : Admissible p partitions) :
    (ofPartitions p partitions).outcome = .ok (collect partitions) := by
  obtain ⟨a, ha⟩ := accepts_iff_admissible.mpr h
  rw [← (ofPartitions_eq_ok_iff.mp ha).2.2]
  exact ha

/-! ## §3. Order. -/

/-- One list of partitions arises from another by moving partitions, and mappings within them. -/
inductive Rearranged : List (Stage × List Mapping) → List (Stage × List Mapping) → Prop where
  /-- The partitions change places. -/
  | partitions {l k : List (Stage × List Mapping)} (h : l.Perm k) : Rearranged l k
  /-- The mappings of one partition change places. -/
  | mappings {t : Stage} {ms ns : List Mapping} (before after : List (Stage × List Mapping))
      (h : ms.Perm ns) : Rearranged (before ++ (t, ms) :: after) (before ++ (t, ns) :: after)
  /-- One after the other. -/
  | trans {l k j : List (Stage × List Mapping)} (first : Rearranged l k) (next : Rearranged k j) :
      Rearranged l j

theorem Rearranged.symm {l k : List (Stage × List Mapping)} (h : Rearranged l k) :
    Rearranged k l := by
  induction h with
  | partitions h => exact .partitions h.symm
  | mappings before after h => exact .mappings before after h.symm
  | trans _ _ ih₁ ih₂ => exact .trans ih₂ ih₁

/-- Partitions in another order make up the same mappings of each stage, in another order. -/
theorem Rearranged.entries_perm {l k : List (Stage × List Mapping)} (h : Rearranged l k)
    (t : Stage) : ((collect l).entries t).Perm ((collect k).entries t) := by
  induction h with
  | partitions h => exact h.flatMap_right _
  | mappings before after h =>
    simp only [collect, List.flatMap_append, List.flatMap_cons]
    refine (List.Perm.append_right _ ?_).append_left _
    split
    · exact h
    · exact .refl _
  | trans _ _ ih₁ ih₂ => exact ih₁.trans ih₂

/-- A partition of the rearranged list holds what one of the same stage held before. -/
theorem Rearranged.forall_mem {l k : List (Stage × List Mapping)} (h : Rearranged l k)
    {P : Stage → Mapping → Prop} (hl : ∀ part ∈ l, ∀ m ∈ part.2, P part.1 m) :
    ∀ part ∈ k, ∀ m ∈ part.2, P part.1 m := by
  induction h with
  | partitions h => exact fun part hpart => hl part (h.mem_iff.mpr hpart)
  | mappings before after h =>
    intro part hpart m hm
    rw [List.mem_append, List.mem_cons] at hpart
    rcases hpart with hpart | rfl | hpart
    · exact hl part (List.mem_append_left _ hpart) m hm
    · exact hl _ (List.mem_append_right _ List.mem_cons_self) m (h.mem_iff.mpr hm)
    · exact hl part (List.mem_append_right _ (List.mem_cons_of_mem _ hpart)) m hm
  | trans _ _ ih₁ ih₂ => exact ih₂ (ih₁ hl)

theorem Admissible.rearranged {p : Platform} {l k : List (Stage × List Mapping)}
    (hl : Admissible p l) (h : Rearranged l k) : Admissible p k where
  fits := h.forall_mem (P := fun _ m => m.check p = .ok ()) hl.fits
  enabled := by
    intro part hpart hne
    obtain ⟨m, hm⟩ := List.exists_mem_of_ne_nil _ hne
    exact h.forall_mem (P := fun t _ => p.enables t)
      (fun part hpart m hm => hl.enabled part hpart (List.ne_nil_of_mem hm)) part hpart m hm
  own := h.forall_mem (P := fun t m => ∀ u ∈ m.stage?, u = t) hl.own
  coherent t := (hl.coherent t).perm (h.entries_perm t)
  entry := by
    obtain ⟨t, ht, m, hm, hentry⟩ := hl.entry
    exact ⟨t, ht, m, (h.entries_perm t).mem_iff.mp hm, hentry⟩

/-- **EXACTNESS OF THE VALIDATOR**: partitions are accepted exactly when every mapping fits and
stands with its own stage, the stage exists, all pairs of ranges within a stage are disjoint, all
aliases are backed, and the entry section is placed; and the order of partitions and of the
mappings within them has no part in it. -/
theorem ofPartitions_accepts_iff (p : Platform) (partitions : List (Stage × List Mapping)) :
    ((∃ a, (ofPartitions p partitions).outcome = .ok a) ↔ Admissible p partitions)
      ∧ ∀ others, Rearranged partitions others →
          ((∃ a, (ofPartitions p partitions).outcome = .ok a)
            ↔ ∃ a, (ofPartitions p others).outcome = .ok a) := by
  refine ⟨accepts_iff_admissible, fun others h => ?_⟩
  show Accepts p partitions ↔ Accepts p others
  rw [accepts_iff_admissible, accepts_iff_admissible]
  exact ⟨fun hl => hl.rearranged h, fun hk => hk.rearranged h.symm⟩

/-- A platform whose one stage has three levels of tables. -/
def threeLevels : Platform where
  virtualization := false
  mode t := if t = .s then .sv39 else .bare
  supported t := by cases t <;> decide

/-- Code in the upper half, data in one large page, a view of the code that is not in force, and a
region for tables, in two partitions of one stage. -/
def smallImage : List (Stage × List Mapping) :=
  [(.s,
      [.translated ⟨.s, 0xffffffff80000000, .rx, false, true, none⟩ ⟨0x80000000, .size4K, 2⟩ none
        [".text"],
       .translated ⟨.s, 0x40200000, .rw, true, true, some .nc⟩ ⟨0x80200000, .size2M, 1⟩ none
        [".data"]]),
   (.s,
      [.aliased ⟨.s, 0x1000, .r, false, false, none⟩ ⟨0x80001000, .size4K, 1⟩,
       .direct .pa ⟨0x90000000, .size4K, 8⟩ none [".rodata.s_stage.pagetables"]])]

theorem smallImage_admissible : Admissible threeLevels smallImage := by
  decide +kernel

theorem smallImage_accepted :
    (ofPartitions threeLevels smallImage).outcome = .ok (collect smallImage) :=
  smallImage_admissible.outcome_eq

/-- The small image with its partitions in the other order. -/
theorem smallImage_reverse_accepted :
    Rearranged smallImage smallImage.reverse
      ∧ Admissible threeLevels smallImage
      ∧ ∃ a, (ofPartitions threeLevels smallImage.reverse).outcome = .ok a := by
  have hmoved : Rearranged smallImage smallImage.reverse := .partitions (List.reverse_perm _).symm
  obtain ⟨hexact, horder⟩ := ofPartitions_accepts_iff threeLevels smallImage
  exact ⟨hmoved, hexact.mp ⟨_, smallImage_accepted⟩,
    (horder _ hmoved).mp ⟨_, smallImage_accepted⟩⟩

/-! ## §4. What accepted maps guarantee. -/

/-- The map was accepted on the platform. -/
def AcceptedOn (a : AddressMap) (p : Platform) : Prop :=
  ∃ partitions, (ofPartitions p partitions).outcome = .ok a

/-- A map of records is accepted as the map of the mappings that they describe. -/
theorem acceptedOn_of_ofRecords {p : Platform} {partitions : List (Stage × List Record)}
    {a : AddressMap} (h : (ofRecords p partitions).outcome = .ok a) : a.AcceptedOn p := by
  rw [ofRecords, Run.bind_outcome_eq_ok_iff] at h
  obtain ⟨mappings, -, h⟩ := h
  exact ⟨mappings, h⟩

namespace AcceptedOn

variable {a : AddressMap} {p : Platform} {t : Stage} {m : Mapping}

/-- The map is the one that some admissible partitions make up. -/
theorem exists_admissible (h : a.AcceptedOn p) :
    ∃ partitions, Admissible p partitions ∧ a = collect partitions := by
  obtain ⟨partitions, h⟩ := h
  exact ⟨partitions, accepts_iff_admissible.mp ⟨a, h⟩, (ofPartitions_eq_ok_iff.mp h).2.2⟩

theorem coherent (h : a.AcceptedOn p) (t : Stage) : Coherent (a.entries t) := by
  obtain ⟨partitions, hadm, rfl⟩ := h.exists_admissible
  exact hadm.coherent t

/-- A mapping fits the platform, and stands with the stage that translates it. -/
theorem check_and_own (h : a.AcceptedOn p) (hm : m ∈ a.entries t) :
    m.check p = .ok () ∧ ∀ v ∈ m.view?, v.stage = t := by
  obtain ⟨partitions, hadm, rfl⟩ := h.exists_admissible
  obtain ⟨mappings, hpart, hm⟩ := mem_collect.mp hm
  refine ⟨hadm.fits _ hpart m hm, fun v hv => ?_⟩
  exact hadm.own _ hpart m hm v.stage (Option.mem_map_of_mem _ hv)

/-- Only stages that exist have mappings. -/
theorem enabled (h : a.AcceptedOn p) (hm : m ∈ a.entries t) : p.enables t := by
  obtain ⟨partitions, hadm, rfl⟩ := h.exists_admissible
  obtain ⟨mappings, hpart, hm⟩ := mem_collect.mp hm
  exact hadm.enabled _ hpart (List.ne_nil_of_mem hm)

theorem bounded (h : a.AcceptedOn p) (hm : m ∈ a.entries t) : m.Bounded :=
  Mapping.bounded_of_check (h.check_and_own hm).1

end AcceptedOn

/-- The maps have the same mappings for each stage, in any order. -/
def Reordered (a b : AddressMap) : Prop :=
  ∀ t, (a.entries t).Perm (b.entries t)

/-- Every map is made up by its own entries. -/
theorem collect_entries (a : AddressMap) :
    collect (Stage.all.map fun t => (t, a.entries t)) = a := by
  have hentries : (collect (Stage.all.map fun t => (t, a.entries t))).entries = a.entries := by
    funext t
    cases t <;> simp [collect, Stage.all]
  exact congrArg AddressMap.mk hentries

/-- What is accepted in one order is accepted in any. -/
theorem AcceptedOn.reordered {a b : AddressMap} {p : Platform} (h : a.AcceptedOn p)
    (hab : a.Reordered b) : b.AcceptedOn p := by
  have hmem : ∀ part ∈ Stage.all.map (fun t => (t, b.entries t)), ∀ m ∈ part.2,
      m ∈ a.entries part.1 := by
    intro part hpart m hm
    obtain ⟨t, -, rfl⟩ := List.mem_map.mp hpart
    exact (hab t).mem_iff.mpr hm
  refine ⟨Stage.all.map fun t => (t, b.entries t), ?_⟩
  have hadmissible : Admissible p (Stage.all.map fun t => (t, b.entries t)) := {
    fits := fun part hpart m hm => (h.check_and_own (hmem part hpart m hm)).1
    enabled := fun part hpart hne => by
      obtain ⟨m, hm⟩ := List.exists_mem_of_ne_nil _ hne
      exact h.enabled (hmem part hpart m hm)
    own := fun part hpart m hm u hu => by
      obtain ⟨v, hv, rfl⟩ := Option.map_eq_some_iff.mp hu
      exact (h.check_and_own (hmem part hpart m hm)).2 v hv
    coherent := fun t => by
      rw [collect_entries]
      exact (h.coherent t).perm (hab t)
    entry := by
      obtain ⟨partitions, hadm, rfl⟩ := h.exists_admissible
      obtain ⟨t, ht, m, hm, hentry⟩ := hadm.entry
      rw [collect_entries]
      exact ⟨t, ht, m, (hab t).mem_iff.mp hm, hentry⟩ }
  rw [hadmissible.outcome_eq, collect_entries]

end FirmwareMap.AddressMap
