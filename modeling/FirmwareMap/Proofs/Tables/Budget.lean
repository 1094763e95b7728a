/-
  FirmwareMap.Proofs.Tables.Budget
  ────────────────────────────────
  **THE BUDGET THAT TABLES NEED, TO THE BYTE.**

  On the platform that a map was accepted on, with one region that a root can
  start in, whether the tables fit is a comparison of two numbers:

      tables are built  ↔  Σ bytes of the distinct tables needed  ≤  budget

  and what is used then is what is needed.  One page less is refused for want
  of budget, and for nothing else.  The sum is over a set, so the order in
  which mappings were declared has no part in it.
-/
import FirmwareMap.Proofs.Tables.Attempt

namespace FirmwareMap

/-! ## §1. Maps in another order. -/

namespace AddressMap

variable {x y : AddressMap}

theorem Reordered.pagesOf (h : x.Reordered y) (stage : Stage) :
    (x.pagesOf stage).Perm (y.pagesOf stage) :=
  (h stage).flatMap_right _

theorem Reordered.regions (h : x.Reordered y) (p : Platform) (stage : Stage) :
    (x.regions p stage).Perm (y.regions p stage) := by
  unfold AddressMap.regions AddressMap.enabled
  exact (List.Perm.flatMap_left _ fun t _ => h t).filter _

end AddressMap

/-! ## §2. Needed and used. -/

namespace StageTables

variable {x : AddressMap} {p : Platform} {stage : Stage} {pages : Nat} {r : Mapping}
  {t : StageTables}

/-- The bytes of the distinct tables that the pages of a stage need. -/
def needed (x : AddressMap) (p : Platform) (stage : Stage) : Nat :=
  demandBytes ((p.mode stage).demand (x.pagesOf stage))

/-- What is needed does not depend on the order of the mappings. -/
theorem needed_reordered {y : AddressMap} (h : x.Reordered y) (p : Platform) (stage : Stage) :
    needed y p stage = needed x p stage := by
  unfold needed
  rw [Mode.demand_perm (h.pagesOf stage)]

/-- Tables that are built use what is needed. -/
theorem Built.used_eq (h : t.Built x p stage pages) : t.used = needed x p stage := by
  rw [h.filled.used_eq, h.mode_eq]
  rfl

/-- The tables of the stage can start in the region, whatever the pages need. -/
structure Startable (x : AddressMap) (p : Platform) (stage : Stage) (r : Mapping) : Prop where
  /-- The stage exists. -/
  enabled : p.enables stage
  /-- The mode has tables. -/
  isPaged : (p.mode stage).isPaged
  /-- The region is the only one. -/
  only : x.regions p stage = [r]
  /-- A root can start where the region does. -/
  aligned : r.block.dest.toNat % (p.mode stage).tableBytes 0 = 0

theorem Startable.startTables_eq (h : Startable x p stage r)
    (hroom : pages * budgetPageBytes ≤ r.block.bytes) :
    x.startTables p stage pages = .ok (start stage (p.mode stage) r.block.dest) := by
  have hregion := AddressMap.region_eq_ok_iff.mpr h.only
  exact startTables_eq_ok_iff.mpr ⟨h.enabled, h.isPaged, r, hregion, hroom, h.aligned, rfl⟩

theorem Startable.reordered {y : AddressMap} (h : Startable x p stage r) (hxy : x.Reordered y) :
    Startable y p stage r where
  enabled := h.enabled
  isPaged := h.isPaged
  only := by
    have hperm := hxy.regions p stage
    rw [h.only] at hperm
    exact List.perm_singleton.mp hperm.symm
  aligned := h.aligned

/-- With a place to start, only a budget that is too small stands in the way. -/
theorem Startable.failsOnly (h : Startable x p stage r) (ha : x.AcceptedOn p)
    (hroom : pages * budgetPageBytes ≤ r.block.bytes) :
    (ofMap x p stage pages).FailsOnly fun e =>
      e = .refused (.budgetExhausted stage pages) ∧ pages * budgetPageBytes < needed x p stage := by
  refine (ofMap_failsOnly ha p stage pages).mono fun e he => ?_
  cases he with
  | start hwhy =>
    rw [h.startTables_eq hroom] at hwhy
    cases hwhy
  | budget hexceeds => exact ⟨rfl, hexceeds⟩
  | page hpaged hmem hnone => exact absurd (exists_places ha hpaged hmem) hnone

theorem Startable.exists_ok_iff (h : Startable x p stage r) (ha : x.AcceptedOn p)
    (hroom : pages * budgetPageBytes ≤ r.block.bytes) :
    (∃ t, (ofMap x p stage pages).outcome = .ok t)
      ↔ needed x p stage ≤ pages * budgetPageBytes := by
  constructor
  · intro hgiven
    obtain ⟨t, ht⟩ := hgiven
    have hbuilt := built_of_ofMap ht
    rw [← hbuilt.used_eq]
    exact hbuilt.filled.packed.within
  · intro hfits
    refine ((h.failsOnly ha hroom).mono fun e he => ?_).exists_ok
    omega

/-- **EXACTNESS OF THE BUDGET**: where a region can hold the budget and a root, tables are built
exactly when the budget holds the distinct tables that the pages need, and then they use just as
much; otherwise the budget is refused, by its stage and its pages.  The order in which mappings were
declared has no part in either. -/
theorem ofMap_budget_exact (ha : x.AcceptedOn p) (h : Startable x p stage r) (pages : Nat)
    (hroom : pages * budgetPageBytes ≤ r.block.bytes) :
    ((∃ t, (ofMap x p stage pages).outcome = .ok t)
        ↔ needed x p stage ≤ pages * budgetPageBytes)
      ∧ (∀ t, (ofMap x p stage pages).outcome = .ok t → t.used = needed x p stage)
      ∧ (pages * budgetPageBytes < needed x p stage →
          (ofMap x p stage pages).outcome = .error (.refused (.budgetExhausted stage pages)))
      ∧ ∀ y, x.Reordered y →
          ((∃ t, (ofMap y p stage pages).outcome = .ok t)
            ↔ ∃ t, (ofMap x p stage pages).outcome = .ok t)
          ∧ ∀ t t', (ofMap x p stage pages).outcome = .ok t →
              (ofMap y p stage pages).outcome = .ok t' → t'.used = t.used := by
  have hexact := h.exists_ok_iff ha hroom
  refine ⟨hexact, fun t ht => (built_of_ofMap ht).used_eq, fun hexceeds => ?_,
    fun y hxy => ⟨?_, fun t t' ht ht' => ?_⟩⟩
  · cases houtcome : (ofMap x p stage pages).outcome with
    | ok t =>
      have hfits := hexact.mp ⟨t, houtcome⟩
      omega
    | error e => rw [((h.failsOnly ha hroom) e houtcome).1]
  · rw [hexact, (h.reordered hxy).exists_ok_iff (ha.reordered hxy) hroom, needed_reordered hxy]
  · rw [(built_of_ofMap ht).used_eq, (built_of_ofMap ht').used_eq, needed_reordered hxy]

open AddressMap in
/-- The pages of the small image need six tables of one page each: six pages hold them and five do
not, in either order of the partitions. -/
theorem smallImage_budget :
    needed (collect smallImage) threeLevels .s = 6 * budgetPageBytes
      ∧ (∃ t, (ofMap (collect smallImage) threeLevels .s 6).outcome = .ok t
          ∧ t.used = 6 * budgetPageBytes)
      ∧ (ofMap (collect smallImage) threeLevels .s 5).outcome
          = .error (.refused (.budgetExhausted .s 5))
      ∧ ∃ t, (ofMap (collect smallImage.reverse) threeLevels .s 6).outcome = .ok t := by
  have hneeded : needed (collect smallImage) threeLevels .s = 6 * budgetPageBytes := by
    decide +kernel
  have hstart : Startable (collect smallImage) threeLevels .s
      (.direct .pa ⟨0x90000000, .size4K, 8⟩ none [".rodata.s_stage.pagetables"]) :=
    ⟨by decide, by decide, by decide +kernel, by decide +kernel⟩
  have hmoved : (collect smallImage).Reordered (collect smallImage.reverse) :=
    Rearranged.entries_perm (.partitions (List.reverse_perm _).symm)
  have haccepted : (collect smallImage).AcceptedOn threeLevels := ⟨_, smallImage_accepted⟩
  obtain ⟨hexact, hused, -, horder⟩ := ofMap_budget_exact haccepted hstart 6 (by decide)
  obtain ⟨-, -, hrefused, -⟩ := ofMap_budget_exact haccepted hstart 5 (by decide)
  obtain ⟨t, ht⟩ := hexact.mpr (by rw [hneeded])
  refine ⟨hneeded, ⟨t, ht, by rw [hused t ht, hneeded]⟩, hrefused ?_,
    (horder _ hmoved).1.mpr ⟨t, ht⟩⟩
  rw [hneeded]
  decide

end StageTables

end FirmwareMap
