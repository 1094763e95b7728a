/-
  FirmwareMap.Proofs.Tables.Growth
  ────────────────────────────────
  **WHERE A BUDGET THAT GROWS STOPS GROWING.**

  A growing budget is tried page by page from `initial` on.  An attempt is
  followed by another one only if its budget is in the region, is smaller than
  what is needed, and is below the limit, so the last attempt is known
  beforehand:

      last budget  =  min cap (max initial (min needed (room + 1)))

  with `cap` the larger of the first budget and the limit, and `room` the pages
  of the region.  How that one attempt ends is how the build ends.

  The budget leaves no trace in tables that are built: attempts with different
  budgets ask different questions only of the budget, and go on only if the
  answer is yes (`ofMap_alike`).
-/
import Mathlib.Algebra.BigOperators.Ring.Finset
import FirmwareMap.Proofs.Tables.Budget
import FirmwareMap.Tables.Image

namespace FirmwareMap

/-! ## §1. Needed and reserved pages. -/

/-- The pages that a table of a level takes: four for a widened root, else one. -/
def Mode.tablePages (m : Mode) (l : Level) : Nat :=
  if m.isWidened ∧ l.depth = 0 then 4 else 1

theorem Mode.tableBytes_eq_pages {m : Mode} {l : Level} (hl : l ∈ m.levels) :
    l.tableBytes = m.tablePages l * budgetPageBytes := by
  revert l
  cases m <;> decide

/-- The whole pages of the region that a mapping reserves. -/
def Mapping.roomPages (r : Mapping) : Nat :=
  r.block.bytes / budgetPageBytes

theorem Mapping.le_roomPages_iff {r : Mapping} {n : Nat} :
    n ≤ r.roomPages ↔ n * budgetPageBytes ≤ r.block.bytes :=
  Nat.le_div_iff_mul_le (by decide)

namespace StageTables

variable {x : AddressMap} {p : Platform} {stage : Stage} {pages n n' : Nat} {r : Mapping}
  {t t' : StageTables}

/-- The pages of the distinct tables that the pages of a stage need. -/
def neededPages (x : AddressMap) (p : Platform) (stage : Stage) : Nat :=
  ∑ key ∈ (p.mode stage).demand (x.pagesOf stage), (p.mode stage).tablePages key.1

theorem needed_eq (x : AddressMap) (p : Platform) (stage : Stage) :
    needed x p stage = neededPages x p stage * budgetPageBytes := by
  unfold needed demandBytes neededPages
  rw [Finset.sum_mul]
  refine Finset.sum_congr rfl fun key hkey => ?_
  obtain ⟨k, w⟩ := key
  obtain ⟨_, -, _, _, -, hk, -⟩ := Mode.mem_demand.mp hkey
  exact Mode.tableBytes_eq_pages hk

/-- Whole pages are compared as their bytes are. -/
theorem needed_le_iff :
    needed x p stage ≤ pages * budgetPageBytes ↔ neededPages x p stage ≤ pages := by
  have hpos : 0 < budgetPageBytes := by decide
  rw [needed_eq]
  exact Nat.mul_le_mul_right_iff hpos

/-! ## §2. Two budgets, one build. -/

theorem allocate_alike (n n' : Nat) (l : Level) (s : Word) (t : StageTables) :
    (t.allocate n l s).Alike (t.allocate n' l s) := by
  unfold allocate
  -- the budget is asked first, and nothing after it knows the budget
  refine Run.Alike.bind (Run.alike_liftRefusal fun _ _ _ _ => rfl) fun _ => ?_
  exact Run.Alike.refl _

theorem tableFor_alike (n n' : Nat) (l : Level) (s : Word) (t : StageTables) :
    (t.tableFor n l s).Alike (t.tableFor n' l s) := by
  unfold tableFor
  split
  next => exact Run.Alike.refl _
  next => exact allocate_alike n n' l s t

theorem reach_alike (n n' : Nat) (s : Word) :
    ∀ (ls : List Level) (t : StageTables), (reach n s ls t).Alike (reach n' s ls t) := by
  intro ls
  induction ls with
  | nil =>
    intro t
    exact Run.Alike.refl _
  | cons l ls ih =>
    intro t
    unfold reach
    refine (tableFor_alike n n' l s t).bind fun found => ?_
    refine (ih found.1).bind fun _ => ?_
    exact Run.Alike.refl _

theorem mapPage_alike (n n' : Nat) (t : StageTables) (q : Page) :
    (mapPage n t q).Alike (mapPage n' t q) := by
  unfold mapPage
  refine (Run.Alike.refl _).bind fun place => ?_
  refine (reach_alike n n' _ _ t).bind fun found => ?_
  exact Run.Alike.refl _

theorem mapPages_alike (n n' : Nat) (t : StageTables) (m : Mapping) :
    (mapPages n t m).Alike (mapPages n' t m) := by
  unfold mapPages
  refine (Run.Alike.refl _).bind fun qs => ?_
  exact Run.alike_foldlM (mapPage_alike n n') qs t

/-- **The budget leaves no trace**: attempts with two budgets that both succeed report the same and
give the same tables. -/
theorem ofMap_alike (x : AddressMap) (p : Platform) (stage : Stage) (n n' : Nat) :
    (ofMap x p stage n).Alike (ofMap x p stage n') := by
  unfold ofMap
  refine Run.Alike.bind (Run.alike_liftRefusal fun t t' ht ht' => ?_) fun t => ?_
  · -- tables start at the one region, whatever of it the budget takes
    obtain ⟨-, -, m, hm, -, -, rfl⟩ := startTables_eq_ok_iff.mp ht
    obtain ⟨-, -, m', hm', -, -, rfl⟩ := startTables_eq_ok_iff.mp ht'
    obtain rfl : m = m' := Except.ok.inj (hm.symm.trans hm')
    rfl
  · refine (Run.alike_foldlM (mapPages_alike n n') _ t).bind fun _ => ?_
    exact Run.Alike.refl _

theorem eq_of_ofMap (h : (ofMap x p stage n).outcome = .ok t)
    (h' : (ofMap x p stage n').outcome = .ok t') : t' = t := by
  have heq := ofMap_alike x p stage n n' t t' h h'
  rw [heq, h'] at h
  exact Except.ok.inj h

/-! ## §3. How one attempt ends. -/

/-- A budget beyond the region is refused before anything is built. -/
theorem Startable.outcome_over (h : Startable x p stage r) (hover : r.roomPages < pages) :
    (ofMap x p stage pages).outcome
      = .error (.refused (.unusableRegion (.overBudget stage pages r.block.bytes))) := by
  have hregion := AddressMap.region_eq_ok_iff.mpr h.only
  have hsmall : r.block.bytes < pages * budgetPageBytes := by
    rw [← Nat.not_le, ← Mapping.le_roomPages_iff]
    omega
  have hbase := (tableBase_eq_error_iff h.isPaged).mpr (.inr ⟨r, hregion, .small hsmall⟩)
  exact ofMap_of_startTables ((startTables_unusable_iff h.enabled).mpr hbase)

/-- A budget within the region that is too small is refused as such. -/
theorem Startable.outcome_exhausted (h : Startable x p stage r) (ha : x.AcceptedOn p)
    (hroom : pages ≤ r.roomPages) (hless : pages < neededPages x p stage) :
    (ofMap x p stage pages).outcome = .error (.refused (.budgetExhausted stage pages)) := by
  have hfits := Mapping.le_roomPages_iff.mp hroom
  cases houtcome : (ofMap x p stage pages).outcome with
  | ok t =>
    have hneeded := (h.exists_ok_iff ha hfits).mp ⟨t, houtcome⟩
    rw [needed_le_iff] at hneeded
    omega
  | error e => rw [(h.failsOnly ha hfits e houtcome).1]

/-- A budget within the region that is large enough is used as far as it is needed. -/
theorem Startable.outcome_ok (h : Startable x p stage r) (ha : x.AcceptedOn p)
    (hroom : pages ≤ r.roomPages) (hle : neededPages x p stage ≤ pages) :
    ∃ t, (ofMap x p stage pages).outcome = .ok t
      ∧ t.used = neededPages x p stage * budgetPageBytes := by
  have hfits := Mapping.le_roomPages_iff.mp hroom
  obtain ⟨t, ht⟩ := (h.exists_ok_iff ha hfits).mpr (needed_le_iff.mpr hle)
  exact ⟨t, ht, by rw [(built_of_ofMap ht).used_eq, needed_eq]⟩

/-! ## §4. The loop. -/

/-- A growing budget is one attempt and, if its budget was too small and is below the limit, a
budget that grows from one page more. -/
theorem build_growing (x : AddressMap) (p : Platform) (stage : Stage) (initial limit : Nat) :
    build x p stage (.growing initial limit)
      = if initial < limit then
          (ofMap x p stage initial).recover fun
            | .budgetExhausted .. => some do
              Run.report (.budgetGrown stage (initial + 1))
              build x p stage (.growing (initial + 1) limit)
            | _ => none
        else ofMap x p stage initial := by
  show grow x p stage (limit - initial) initial = _
  by_cases h : initial < limit
  · have hretries : limit - initial = (limit - (initial + 1)) + 1 := by omega
    rw [if_pos h, hretries]
    rfl
  · have hretries : limit - initial = 0 := by omega
    rw [if_neg h, hretries]
    rfl

/-- Below the limit, a budget that is too small is followed by one page more. -/
theorem growing_outcome_succ {initial limit : Nat} (hlt : initial < limit)
    (hfail : (ofMap x p stage initial).outcome
      = .error (.refused (.budgetExhausted stage initial))) :
    (build x p stage (.growing initial limit)).outcome
      = (build x p stage (.growing (initial + 1) limit)).outcome := by
  rw [build_growing, if_pos hlt]
  unfold Run.recover
  rw [hfail]
  show (Run.report (.budgetGrown stage (initial + 1)) >>= fun _ =>
    build x p stage (.growing (initial + 1) limit)).outcome = _
  rw [Run.outcome_bind]
  rfl

/-- At the limit, and after an attempt that did not want for budget, the attempt decides. -/
theorem growing_outcome_eq {initial limit : Nat}
    (h : initial < limit → ∀ stage' pages, (ofMap x p stage initial).outcome
      ≠ .error (.refused (.budgetExhausted stage' pages))) :
    (build x p stage (.growing initial limit)).outcome = (ofMap x p stage initial).outcome := by
  rw [build_growing]
  by_cases hlt : initial < limit
  · rw [if_pos hlt]
    unfold Run.recover
    split
    next why hwhy =>
      cases why with
      | budgetExhausted stage' pages => exact absurd hwhy (h hlt stage' pages)
      | _ => rfl
    next => rfl
    next => rfl
  · rw [if_neg hlt]

/-- The last budget that is tried. -/
def lastBudget (room needed initial limit : Nat) : Nat :=
  min (max initial limit) (max initial (min needed (room + 1)))

/-- At the limit, beyond the region and with all that is needed, the first budget is the last. -/
theorem lastBudget_eq_initial {room needed initial limit : Nat}
    (h : limit ≤ initial ∨ room < initial ∨ needed ≤ initial) :
    lastBudget room needed initial limit = initial := by
  unfold lastBudget
  omega

/-- As long as there is another attempt, the last one stays where it is. -/
theorem lastBudget_succ {room needed initial limit : Nat} (hlimit : initial < limit)
    (hroom : initial ≤ room) (hneeded : initial < needed) :
    lastBudget room needed (initial + 1) limit = lastBudget room needed initial limit := by
  unfold lastBudget
  omega

/-- **How a growing budget ends is how its last attempt ends.** -/
theorem Startable.growing_outcome (h : Startable x p stage r) (ha : x.AcceptedOn p) :
    ∀ retries initial limit : Nat, limit - initial = retries →
      (build x p stage (.growing initial limit)).outcome
        = (ofMap x p stage
            (lastBudget r.roomPages (neededPages x p stage) initial limit)).outcome := by
  intro retries
  induction retries with
  | zero =>
    intro initial limit hretries
    rw [lastBudget_eq_initial (.inl (by omega))]
    exact growing_outcome_eq fun hlt => by omega
  | succ retries ih =>
    intro initial limit hretries
    have hlimit : initial < limit := by omega
    by_cases hroom : initial ≤ r.roomPages
    · by_cases hneeded : initial < neededPages x p stage
      · -- the budget is in the region and too small, so one page more is tried
        have hfail := h.outcome_exhausted ha hroom hneeded
        rw [growing_outcome_succ hlimit hfail, ih (initial + 1) limit (by omega),
          lastBudget_succ hlimit hroom hneeded]
      · rw [lastBudget_eq_initial (.inr (.inr (by omega)))]
        refine growing_outcome_eq fun _ stage' pages' hfail => ?_
        obtain ⟨t, ht, -⟩ := h.outcome_ok ha hroom (by omega)
        rw [ht] at hfail
        cases hfail
    · rw [lastBudget_eq_initial (.inr (.inl (by omega)))]
      refine growing_outcome_eq fun _ stage' pages' hfail => ?_
      rw [h.outcome_over (by omega)] at hfail
      cases hfail

/-- **EXACTNESS OF GROWTH**: where a root can start in the one region, building within a budget that
grows from `initial` to `limit` ends for all of both.  A first budget beyond the region is refused
for the region; a budget that region and limit let grow to what is needed builds just that;
otherwise the larger of `initial` and `limit` is refused as too small if the region has it, and the
first page beyond the region is refused for the region if it has not.  Tables that are built are
those of every fixed budget that succeeds, with their token and their image. -/
theorem build_growing_exact (ha : x.AcceptedOn p) (h : Startable x p stage r)
    (initial limit : Nat) :
    (r.roomPages < initial → (build x p stage (.growing initial limit)).outcome
        = .error (.refused (.unusableRegion (.overBudget stage initial r.block.bytes))))
      ∧ (max initial (neededPages x p stage) ≤ min (max initial limit) r.roomPages →
          ∃ t, (build x p stage (.growing initial limit)).outcome = .ok t
            ∧ t.used = neededPages x p stage * budgetPageBytes)
      ∧ (initial ≤ r.roomPages →
          min (max initial limit) r.roomPages < max initial (neededPages x p stage) →
          (max initial limit ≤ r.roomPages → (build x p stage (.growing initial limit)).outcome
              = .error (.refused (.budgetExhausted stage (max initial limit))))
            ∧ (r.roomPages < max initial limit →
                (build x p stage (.growing initial limit)).outcome = .error (.refused
                  (.unusableRegion (.overBudget stage (r.roomPages + 1) r.block.bytes)))))
      ∧ ∀ t, (build x p stage (.growing initial limit)).outcome = .ok t →
          ∀ pages t', (build x p stage (.fixed pages)).outcome = .ok t' →
            t' = t ∧ t'.token = t.token ∧ t'.image = t.image := by
  rw [h.growing_outcome ha _ initial limit rfl]
  refine ⟨fun hover => ?_, fun hfits => ?_, fun hroom hless => ⟨fun hcap => ?_, fun hcap => ?_⟩,
    fun t ht pages t' ht' => ?_⟩
  · rw [lastBudget_eq_initial (.inr (.inl hover))]
    exact h.outcome_over hover
  · have hlast : lastBudget r.roomPages (neededPages x p stage) initial limit
        = max initial (neededPages x p stage) := by
      unfold lastBudget
      omega
    rw [hlast]
    exact h.outcome_ok ha (by omega) (by omega)
  · have hlast : lastBudget r.roomPages (neededPages x p stage) initial limit
        = max initial limit := by
      unfold lastBudget
      omega
    rw [hlast]
    exact h.outcome_exhausted ha hcap (by omega)
  · have hlast : lastBudget r.roomPages (neededPages x p stage) initial limit
        = r.roomPages + 1 := by
      unfold lastBudget
      omega
    rw [hlast]
    exact h.outcome_over (Nat.lt_succ_self _)
  · obtain rfl : t' = t := eq_of_ofMap ht ht'
    exact ⟨rfl, rfl, rfl⟩

end StageTables

namespace AddressMap

/-- One page of code, and a region of two pages for the three tables that it needs. -/
def crampedImage : List (Stage × List Mapping) :=
  [(.s,
      [.translated ⟨.s, 0x80000000, .rx, false, true, none⟩ ⟨0x80000000, .size4K, 1⟩ none
        [".text"],
       .direct .pa ⟨0x90000000, .size4K, 2⟩ none [".rodata.s_stage.pagetables"]])]

theorem crampedImage_accepted :
    (ofPartitions threeLevels crampedImage).outcome = .ok (collect crampedImage) :=
  Admissible.outcome_eq (by decide +kernel)

end AddressMap

namespace StageTables

open AddressMap in
/-- The small image needs six of the eight pages of its region: a budget grows to them from two,
gives up at a limit of four, and cannot start with nine.  The cramped image has no page left for its
third table, whatever the limit. -/
theorem smallImage_growth :
    (∃ t, (build (collect smallImage) threeLevels .s (.growing 2 10)).outcome = .ok t
        ∧ t.used = 6 * budgetPageBytes
        ∧ (build (collect smallImage) threeLevels .s (.fixed 7)).outcome = .ok t)
      ∧ (build (collect smallImage) threeLevels .s (.growing 2 4)).outcome
          = .error (.refused (.budgetExhausted .s 4))
      ∧ (build (collect smallImage) threeLevels .s (.growing 9 3)).outcome
          = .error (.refused (.unusableRegion (.overBudget .s 9 0x8000)))
      ∧ (build (collect crampedImage) threeLevels .s (.growing 1 10)).outcome
          = .error (.refused (.unusableRegion (.overBudget .s 3 0x2000))) := by
  have hneeded : neededPages (collect smallImage) threeLevels .s = 6 := by decide +kernel
  have hstart : Startable (collect smallImage) threeLevels .s
      (.direct .pa ⟨0x90000000, .size4K, 8⟩ none [".rodata.s_stage.pagetables"]) :=
    ⟨by decide, by decide, by decide +kernel, by decide +kernel⟩
  have hcramped : neededPages (collect crampedImage) threeLevels .s = 3 := by decide +kernel
  have hstart' : Startable (collect crampedImage) threeLevels .s
      (.direct .pa ⟨0x90000000, .size4K, 2⟩ none [".rodata.s_stage.pagetables"]) :=
    ⟨by decide, by decide, by decide +kernel, by decide +kernel⟩
  have haccepted : (collect smallImage).AcceptedOn threeLevels := ⟨_, smallImage_accepted⟩
  have haccepted' : (collect crampedImage).AcceptedOn threeLevels := ⟨_, crampedImage_accepted⟩
  obtain ⟨-, hbuilt, -, hsame⟩ := build_growing_exact haccepted hstart 2 10
  obtain ⟨-, -, hlimit, -⟩ := build_growing_exact haccepted hstart 2 4
  obtain ⟨hover, -⟩ := build_growing_exact haccepted hstart 9 3
  obtain ⟨-, -, hfull, -⟩ := build_growing_exact haccepted' hstart' 1 10
  rw [hneeded] at hbuilt hlimit
  rw [hcramped] at hfull
  obtain ⟨t, ht, hused⟩ := hbuilt (by decide)
  have hseven : neededPages (collect smallImage) threeLevels .s ≤ 7 := by
    rw [hneeded]
    decide
  obtain ⟨t', ht', -⟩ := hstart.outcome_ok haccepted (by decide) hseven
  obtain ⟨rfl, -⟩ := hsame t ht 7 t' ht'
  exact ⟨⟨t', ht, hused, ht'⟩, (hlimit (by decide) (by decide)).1 (by decide), hover (by decide),
    (hfull (by decide) (by decide)).2 (by decide)⟩

end StageTables

end FirmwareMap
