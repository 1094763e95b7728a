/-
  FirmwareMap.Proofs.Tables.Attempt
  ─────────────────────────────────
  **HOW BUILDING THE TABLES OF A STAGE CAN FAIL.**

  An attempt to build tables from an accepted map fails for one of three
  reasons: the tables have no place to start, the tables that the pages need
  exceed the budget, or the mode has no place for one of the pages.

      attempt fails with e  →  BuildFailure e

  So no attempt ever finds two values for one entry, whatever platform the map
  was accepted on; and on the platform that it was accepted on, the mode has a
  place for every page.  With a budget that grows, the attempts before the
  last one only ran out of budget, so there is nothing else to fail with.
-/
import FirmwareMap.Proofs.Tables.Agreement
import FirmwareMap.Proofs.Tables.Demand

namespace FirmwareMap

/-! ## §1. Regions that cannot hold the tables. -/

/-- The region cannot hold tables of so many pages: it is too small, or a root cannot start in it. -/
inductive Mapping.Unfit (m : Mapping) (t : Stage) (mode : Mode) (pages : Nat) :
    RegionFault → Prop where
  /-- The region is smaller than the budget. -/
  | small (h : m.block.bytes < pages * budgetPageBytes) :
    Unfit m t mode pages (.overBudget t pages m.block.bytes)
  /-- The budget fits, and the region does not start at a multiple of the root table. -/
  | misaligned (h : pages * budgetPageBytes ≤ m.block.bytes)
      (hroot : m.block.dest.toNat % mode.tableBytes 0 ≠ 0) :
    Unfit m t mode pages (.misalignedRoot t m.block.dest (mode.tableBytes 0))

namespace StageTables

variable {x : AddressMap} {p : Platform} {stage : Stage} {pages : Nat}

/-- In a paged mode, tables have no base if no region is selected or if it is unfit. -/
theorem tableBase_eq_error_iff {f : RegionFault} (hpaged : (p.mode stage).isPaged) :
    x.tableBase p stage pages = .error f ↔ x.region p stage = .error f
      ∨ ∃ m, x.region p stage = .ok m ∧ m.Unfit stage (p.mode stage) pages f := by
  simp only [AddressMap.tableBase, bind_eq_error_iff, require_eq_error_iff, require_eq_ok_iff,
    hpaged, not_true_eq_false, false_and, false_or, true_and, exists_const]
  refine or_congr_right (exists_congr fun m => and_congr_right fun _ => ?_)
  constructor
  · intro h
    rcases h with ⟨hsmall, rfl⟩ | ⟨hfits, ⟨hroot, rfl⟩ | ⟨-, hdone⟩⟩
    · exact .small (Nat.lt_of_not_le hsmall)
    · exact .misaligned hfits hroot
    · cases hdone
  · intro h
    cases h with
    | small h => exact .inl ⟨Nat.not_le_of_lt h, rfl⟩
    | misaligned h hroot => exact .inr ⟨h, .inl ⟨hroot, rfl⟩⟩

/-- Where a stage exists, tables have no place to start for want of a base only. -/
theorem startTables_unusable_iff {f : RegionFault} (henabled : p.enables stage) :
    x.startTables p stage pages = .error (.unusableRegion f)
      ↔ x.tableBase p stage pages = .error f := by
  simp only [AddressMap.startTables, bind_eq_error_iff, require_eq_error_iff, require_eq_ok_iff,
    mapError_eq_error_iff, henabled, not_true_eq_false, false_and, false_or, true_and,
    exists_const, Refusal.unusableRegion.injEq, exists_eq_right]
  constructor
  · intro h
    rcases h with h | ⟨base, -, hdone⟩
    · exact h
    · cases hdone
  · exact .inl

/-- Where tables have no place to start, building is refused for that. -/
theorem ofMap_of_startTables {why : Refusal} (h : x.startTables p stage pages = .error why) :
    (ofMap x p stage pages).outcome = .error (.refused why) := by
  unfold ofMap
  rw [Run.outcome_bind, Run.outcome_liftRefusal, h]
  rfl

end StageTables

/-! ## §2. Mapping by mapping is page by page. -/

namespace StageTables

variable {x : AddressMap} {p p₁ p₂ : Platform} {stage : Stage} {pages : Nat}
  {t t₀ t' : StageTables} {q : Page} {done ps : List Page}

theorem mapPages_eq {m : Mapping} (h : m.Bounded) (t : StageTables) :
    mapPages pages t m = m.pageList.foldlM (mapPage pages) t := by
  unfold mapPages
  rw [h.pages_eq]
  exact pure_bind m.pageList _

/-- Mapping the mappings one after the other is mapping all their pages. -/
theorem foldlM_mapPages {mappings : List Mapping} (h : ∀ m ∈ mappings, m.Bounded) :
    ∀ t, mappings.foldlM (mapPages pages) t
      = (mappings.flatMap Mapping.pageList).foldlM (mapPage pages) t := by
  induction mappings with
  | nil =>
    intro t
    rfl
  | cons m mappings ih =>
    intro t
    rw [List.flatMap_cons, List.foldlM_append, List.foldlM_cons,
      mapPages_eq (h m List.mem_cons_self)]
    exact bind_congr fun t' => ih (fun n hn => h n (List.mem_cons_of_mem _ hn)) t'

/-! ## §3. One page. -/

/-- The tables after some pages and before the ends are set: the region is what it was, and no
entry is zero. -/
structure Between (t₀ : StageTables) (pages : Nat) (done : List Page) (t : StageTables) : Prop where
  /-- The tables are filled with the pages. -/
  filled : t.Filled pages done
  /-- No entry is zero. -/
  nonzero : ∀ a : Word, t.entries[a]? ≠ some 0
  /-- Stage, mode and base are what they were at the start. -/
  same : t = { t₀ with tables := t.tables, entries := t.entries }

theorem between_start (stage : Stage) (mode : Mode) (base : Word) :
    Between (start stage mode base) pages [] (start stage mode base) where
  filled := filled_start stage mode base
  nonzero a := by simp [start]
  same := rfl

/-- Another page leaves the tables as it found them, but for what it needs. -/
theorem Between.mapPage (h : t₀.Between pages done t)
    (hrun : (mapPage pages t q).outcome = .ok t') : t₀.Between pages (done ++ [q]) t' := by
  obtain ⟨hfilled, hsame⟩ := h.filled.mapPage hrun
  refine ⟨hfilled, fun a hzero => ?_, by rw [hsame, h.same]⟩
  -- zero could only come from linking, which writes leaves and pointers
  obtain ⟨l, s, path, new, entries, hplace, rfl, -, hpacked, hpath, hcovers, hentries⟩ :=
    mapPage_spec h.filled.packed hrun
  rcases (hentries a 0).mp hzero with hold | hleads
  · exact h.nonzero a hold
  · rw [leads_iff_writes hpacked hplace hpath hcovers] at hleads
    exact hleads.ne_zero rfl

/-- Mapping some pages fails only so. -/
inductive PagesFailure (t₀ : StageTables) (pages : Nat) (ps : List Page) : Failure → Prop where
  /-- The pages need more than the budget. -/
  | budget (h : pages * budgetPageBytes < demandBytes (t₀.mode.demand ps)) :
    PagesFailure t₀ pages ps (.refused (.budgetExhausted t₀.stage pages))
  /-- The mode has no place for one of the pages. -/
  | page {q : Page} {fault : RecordFault} (hmem : q ∈ ps) (h : ¬ ∃ l s, t₀.mode.Places q l s) :
    PagesFailure t₀ pages ps (.refused (.malformed q.source.hex fault))

theorem PagesFailure.mono {qs : List Page} {e : Failure} (h : PagesFailure t₀ pages ps e)
    (hsub : ps ⊆ qs) : PagesFailure t₀ pages qs e := by
  cases h with
  | budget h => exact .budget (Nat.lt_of_lt_of_le h (demandBytes_mono (Mode.demand_mono hsub)))
  | page hmem h => exact .page (hsub hmem) h

/-- Where a page cannot be located, the mode has no place for it. -/
theorem not_places_of_locate {fault : RecordFault} (h : t.locate q = .error fault) :
    ¬ ∃ l s, t.mode.Places q l s := by
  intro hgiven
  obtain ⟨l, s, hplace⟩ := hgiven
  rw [← locate_eq_ok_iff, h] at hplace
  cases hplace

/-- Where all entries are those of pages, a page that is apart from them can be linked. -/
theorem Packed.linkPage_failsOnly {E : Failure → Prop} {l : Level} {s : Word} {path : List Table}
    (h : t.Packed pages) (hhost : t.Hosted pages) (hapart : Page.Apart (done ++ [q]))
    (hentries : ∀ a b : Word, t.entries[a]? = some b → ∃ r ∈ done, t.Writes r a b)
    (hplace : t.mode.Places q l s)
    (hpath : path.map (·.level) = t.mode.levels.take (l.depth + 1))
    (hcovers : ∀ u ∈ path, t.Covers s u) :
    (link s (q.leaf.encode t.mode) path t).FailsOnly E := by
  have hwithin := h.within
  have hfits := hhost.fits
  have hq : q ∈ done ++ [q] := List.mem_append_right _ (List.mem_singleton_self q)
  refine link_failsOnly (fun u hu => h.exists_slot (by omega) (hcovers u hu).mem s)
    fun a v b hv hb => ?_
  rw [leads_iff_writes h hplace hpath hcovers] at hv hb
  rcases hb with hold | hnew
  · obtain ⟨r, hr, hwrites⟩ := hentries a b hold
    exact h.writes_agree hapart (List.mem_append_left _ hr) hq hwrites hv
  · exact h.writes_agree hapart hq hq hnew hv

/-- **One more page fails for want of budget or of a place, and for nothing else.** -/
theorem Between.mapPage_failsOnly (h : t₀.Between pages done t) (hhost : t₀.Hosted pages)
    (hapart : Page.Apart (done ++ [q])) :
    (StageTables.mapPage pages t q).FailsOnly (PagesFailure t₀ pages (done ++ [q])) := by
  have hmode : t.mode = t₀.mode := by rw [h.same]
  have hstage : t.stage = t₀.stage := by rw [h.same]
  have hbase : t.base = t₀.base := by rw [h.same]
  have hhost' : t.Hosted pages := ⟨hbase ▸ hhost.fits, by rw [hbase, hmode]; exact hhost.aligned⟩
  have hq : q ∈ done ++ [q] := List.mem_append_right _ (List.mem_singleton_self q)
  unfold StageTables.mapPage
  refine Run.FailsOnly.bind (Run.failsOnly_liftRefusal fun why hwhy => ?_) fun place hplace => ?_
  · cases hlocate : t.locate q with
    | ok place =>
      rw [hlocate] at hwhy
      cases hwhy
    | error fault =>
      rw [hlocate] at hwhy
      cases hwhy
      exact .page hq (hmode ▸ not_places_of_locate hlocate)
  obtain ⟨l, s⟩ := place
  rw [Run.liftRefusal_eq_ok_iff, mapError_eq_ok_iff, locate_eq_ok_iff] at hplace
  have hl := hplace.level_mem
  have hroot : ∀ k ∈ (t.mode.levels.take (l.depth + 1)).head?, k.depth = 0 ∨ t.tables ≠ [] :=
    fun k hk => .inl (Mode.depth_of_head_take hl hk)
  refine Run.FailsOnly.bind ?_ fun found hfound => ?_
  · -- the tables on the way are among those that all pages need
    refine (reach_failsOnly (done ++ [q]) hplace.source_lt rfl h.filled.packed hhost'
      (fun k hk => ?_) hroot fun u hu => ?_).mono fun e he => ?_
    · obtain ⟨hk, hle⟩ := (Mode.mem_take_iff hl).mp hk
      exact ⟨hk, Mode.mem_demand.mpr ⟨q, hq, l, s, hplace, hk, hle, rfl⟩⟩
    · exact Mode.demand_mono (List.subset_append_left _ _) (h.filled.key_mem_demand hu)
    · obtain ⟨rfl, hexceeds⟩ := he
      rw [hmode] at hexceeds
      rw [hstage]
      exact .budget hexceeds
  obtain ⟨t₁, path⟩ := found
  obtain ⟨⟨new, rfl, -⟩, hpacked, hpath, hcovers⟩ :=
    reach_spec h.filled.packed (fun k hk => List.mem_of_mem_take hk) hroot hfound
  -- what is there already, an earlier page wrote
  refine hpacked.linkPage_failsOnly ⟨hhost'.fits, hhost'.aligned⟩ hapart (fun a b hb => ?_) hplace
    hpath hcovers
  have hne : b ≠ 0 := fun hzero => h.nonzero a (hzero ▸ hb)
  obtain ⟨r, hr, hwrites⟩ := (h.filled.entry a b hne).mp hb
  exact ⟨r, hr, hwrites.mono rfl (List.subset_append_left _ _)⟩

/-! ## §4. All pages. -/

theorem Between.mapAll (h : t₀.Between pages done t)
    (hrun : (ps.foldlM (StageTables.mapPage pages) t).outcome = .ok t') :
    t₀.Between pages (done ++ ps) t' :=
  Run.foldlM_induct (P := fun t done => t₀.Between pages done t)
    (fun _ _ _ _ h hrun => h.mapPage hrun) ps t t' done h hrun

theorem mapAll_failsOnly (h : t₀.Between pages [] t₀) (hhost : t₀.Hosted pages)
    (hapart : Page.Apart ps) :
    (ps.foldlM (mapPage pages) t₀).FailsOnly (PagesFailure t₀ pages ps) := by
  refine Run.foldlM_failsOnly (P := fun t done => t₀.Between pages done t)
    (fun _ _ _ _ h hrun => h.mapPage hrun) ps [] t₀ h fun before q after t hps ht => ?_
  rw [List.nil_append] at ht
  have hsub : before ++ [q] ⊆ ps := by
    rw [hps, List.append_cons before q after]
    exact List.subset_append_left _ after
  exact (ht.mapPage_failsOnly hhost (hapart.subset hsub)).mono fun e he => he.mono hsub

/-! ## §5. One attempt. -/

/-- The budget ends before the last address, so the last slot can be found. -/
theorem Packed.pinEnds_failsOnly {E : Failure → Prop} (h : t.Packed pages)
    (hhost : t.Hosted pages) : (liftM t.pinEnds : Run StageTables).FailsOnly E := by
  refine Run.failsOnly_liftFault fun what hwhat => ?_
  unfold pinEnds at hwhat
  split at hwhat
  next first last _ hlast =>
    rw [bind_eq_error_iff] at hwhat
    rcases hwhat with hwhat | ⟨stop, -, hwhat⟩
    · have hover := Word.ofNat?_eq_none_iff.mp (demand_eq_error_iff.mp hwhat).1
      have hbounds := (h.packed.bounds (List.mem_of_getLast? hlast)).2
      have hwithin := h.within
      have hfits := hhost.fits
      rw [← used_eq_total] at hbounds
      omega
    · cases hwhat
  next => cases hwhat

/-- An attempt to build the tables of a stage fails only so. -/
inductive BuildFailure (x : AddressMap) (p : Platform) (stage : Stage) (pages : Nat) :
    Failure → Prop where
  /-- The tables have no place to start. -/
  | start {why : Refusal} (h : x.startTables p stage pages = .error why) :
    BuildFailure x p stage pages (.refused why)
  /-- The pages of the stage need more than the budget. -/
  | budget (h : pages * budgetPageBytes < demandBytes ((p.mode stage).demand (x.pagesOf stage))) :
    BuildFailure x p stage pages (.refused (.budgetExhausted stage pages))
  /-- The mode has tables, but no place for a page of the stage. -/
  | page {q : Page} {fault : RecordFault} (hpaged : (p.mode stage).isPaged)
      (hmem : q ∈ x.pagesOf stage) (h : ¬ ∃ l s, (p.mode stage).Places q l s) :
    BuildFailure x p stage pages (.refused (.malformed q.source.hex fault))

/-- Tables start in a region of an accepted map, which holds the budget. -/
theorem hosted_of_startTables (ha : x.AcceptedOn p₁) (h : x.startTables p stage pages = .ok t) :
    t = start stage (p.mode stage) t.base ∧ t.Hosted pages := by
  obtain ⟨-, -, m, hregion, hbudget, haligned, rfl⟩ := startTables_eq_ok_iff.mp h
  obtain ⟨stage', hm⟩ := mem_of_region hregion
  have hstop : m.block.dest.toNat + m.block.bytes < Word.count := (ha.bounded hm).dest_lt
  refine ⟨rfl, ?_, haligned⟩
  show m.block.dest.toNat + pages * budgetPageBytes < Word.count
  omega

/-- **An attempt fails for one of three reasons.** -/
theorem ofMap_failsOnly (ha : x.AcceptedOn p₁) (p : Platform) (stage : Stage) (pages : Nat) :
    (ofMap x p stage pages).FailsOnly (BuildFailure x p stage pages) := by
  unfold ofMap
  refine Run.FailsOnly.bind (Run.failsOnly_liftRefusal fun why hwhy => .start hwhy) fun t₀ ht₀ => ?_
  rw [Run.liftRefusal_eq_ok_iff] at ht₀
  obtain ⟨-, hpaged, -⟩ := startTables_eq_ok_iff.mp ht₀
  obtain ⟨hstart, hhost⟩ := hosted_of_startTables ha ht₀
  have hbetween : t₀.Between pages [] t₀ := by
    rw [hstart]
    exact between_start _ _ _
  have hmode : t₀.mode = p.mode stage := by rw [hstart]; rfl
  have hstage : t₀.stage = stage := by rw [hstart]; rfl
  rw [foldlM_mapPages fun m hm => ha.bounded hm]
  refine Run.FailsOnly.bind ((mapAll_failsOnly hbetween hhost (ha.apart stage)).mono
    fun e he => ?_) fun t₁ ht₁ => ?_
  · cases he with
    | budget h =>
      rw [hmode] at h
      rw [hstage]
      exact .budget h
    | page hmem h => exact .page hpaged hmem (hmode ▸ h)
  · have hend := hbetween.mapAll ht₁
    have hhost' : t₁.Hosted pages := by
      rw [hend.same]
      exact ⟨hhost.fits, hhost.aligned⟩
    refine Run.FailsOnly.bind (hend.filled.packed.pinEnds_failsOnly hhost') fun _ _ => ?_
    exact Run.FailsOnly.bind (Run.failsOnly_report _) fun _ _ => Run.failsOnly_pure _

/-- Where tables have no place to start, that is not the fault of a mapping. -/
theorem startTables_eq_error {why : Refusal} (h : x.startTables p stage pages = .error why) :
    why = .misplaced stage.token (.stageNotEnabled stage)
      ∨ ∃ fault, why = .unusableRegion fault := by
  unfold AddressMap.startTables at h
  rcases bind_eq_error_iff.mp h with h | ⟨-, -, h⟩
  · exact .inl (require_eq_error_iff.mp h).2
  · rcases bind_eq_error_iff.mp h with h | ⟨base, -, h⟩
    · cases hbase : x.tableBase p stage pages with
      | ok base =>
        rw [hbase] at h
        cases h
      | error fault =>
        rw [hbase] at h
        cases h
        exact .inr ⟨fault, rfl⟩
    · cases h

/-- On the platform that a map was accepted on, a paged mode has a place for every page. -/
theorem exists_places (ha : x.AcceptedOn p) (hpaged : (p.mode stage).isPaged)
    (hq : q ∈ x.pagesOf stage) : ∃ l s, (p.mode stage).Places q l s := by
  obtain ⟨m, hm, hq⟩ := List.mem_flatMap.mp hq
  obtain ⟨v, hv, i, hi, rfl⟩ := Mapping.mem_pageList.mp hq
  obtain ⟨hcheck, hown⟩ := ha.check_and_own hm
  have hmem : (Mapping.page v m.block i).source.toNat ∈ m.extentFrom v :=
    Extent.mem_of_within ((ha.bounded hm).extent_page hv hi) (Page.source_mem_extent _)
  rw [← hown v hv] at hpaged ⊢
  obtain ⟨hlevel, hsource⟩ := Mapping.canonical_of_check hcheck hv hpaged hmem
  obtain ⟨l, hl⟩ := Option.ne_none_iff_exists'.mp hlevel
  obtain ⟨s, hs⟩ := Option.isSome_iff_exists.mp hsource
  exact ⟨l, s, hl, hs⟩

/-! ## §6. Budgets that grow. -/

/-- The outcome of several attempts is that of one of them. -/
theorem exists_attempt_of_grow (x : AddressMap) (p : Platform) (stage : Stage) :
    ∀ retries pages, ∃ n, (grow x p stage retries pages).outcome = (ofMap x p stage n).outcome
  | 0, pages => ⟨pages, rfl⟩
  | retries + 1, pages => by
    unfold grow Run.recover
    split
    next why hwhy =>
      split
      next y hy =>
        -- only a lack of budget is tried again, and then the next attempt decides
        obtain ⟨n, hn⟩ := exists_attempt_of_grow x p stage retries (pages + 1)
        dsimp only at hy
        split at hy
        next =>
          cases hy
          refine ⟨n, ?_⟩
          rw [← hn, Run.outcome_bind, Run.outcome_report]
          rfl
        next => cases hy
      next => exact ⟨pages, rfl⟩
    next => exact ⟨pages, rfl⟩
    next => exact ⟨pages, rfl⟩

theorem exists_attempt (x : AddressMap) (p : Platform) (stage : Stage) (budget : Budget) :
    ∃ n, (build x p stage budget).outcome = (ofMap x p stage n).outcome := by
  cases budget with
  | fixed pages => exact ⟨pages, rfl⟩
  | growing initial limit => exact exists_attempt_of_grow x p stage _ _

/-! ## §7. Conflicts. -/

/-- The tables can come about for the stage: they start in its region, pages of the stage are mapped
in any order, and the ends are set. -/
inductive Arises (x : AddressMap) (p : Platform) (stage : Stage) (pages : Nat) :
    StageTables → Prop where
  /-- No tables yet. -/
  | start {t : StageTables} (h : x.startTables p stage pages = .ok t) : Arises x p stage pages t
  /-- One more page. -/
  | page {t t' : StageTables} {q : Page} (before : Arises x p stage pages t)
    (hmem : q ∈ x.pagesOf stage) (h : (mapPage pages t q).outcome = .ok t') :
    Arises x p stage pages t'
  /-- The ends hold an entry. -/
  | ends {t t' : StageTables} (before : Arises x p stage pages t) (h : t.pinEnds = .ok t') :
    Arises x p stage pages t'

/-- Tables that come about are filled with some pages. -/
theorem Arises.exists_filled (h : Arises x p stage pages t) : ∃ done, t.Filled pages done := by
  induction h with
  | start h =>
    obtain ⟨-, -, m, -, -, -, rfl⟩ := startTables_eq_ok_iff.mp h
    exact ⟨[], filled_start _ _ _⟩
  | page _ _ h ih =>
    obtain ⟨done, hfilled⟩ := ih
    exact ⟨done ++ [_], (hfilled.mapPage h).1⟩
  | ends _ h ih =>
    obtain ⟨done, hfilled⟩ := ih
    exact ⟨done, (hfilled.pinEnds h).1⟩

/-- Tables that are built have come about so. -/
theorem arises_of_ofMap (ha : x.AcceptedOn p₁) (h : (ofMap x p stage pages).outcome = .ok t) :
    Arises x p stage pages t := by
  simp only [ofMap, Run.bind_outcome_eq_ok_iff, Run.liftRefusal_eq_ok_iff,
    Run.liftFault_eq_ok_iff, Run.pure_outcome_eq_ok_iff] at h
  obtain ⟨t₀, hstart, t₁, hrun, t₂, hends, -, -, rfl⟩ := h
  rw [foldlM_mapPages fun m hm => ha.bounded hm] at hrun
  -- every page that was mapped so far is one of the stage
  have hall := Run.foldlM_induct (f := mapPage pages)
    (P := fun t done => done ⊆ x.pagesOf stage → Arises x p stage pages t)
    (fun t done q t' ht hrun hsub => .page (ht fun r hr => hsub (List.mem_append_left _ hr))
      (hsub (List.mem_append_right _ (List.mem_singleton_self q))) hrun)
    (x.pagesOf stage) t₀ t₁ [] (fun _ => .start hstart) hrun
  exact .ends (hall (List.Subset.refl _)) hends

/-- No attempt fails over an entry. -/
theorem BuildFailure.not_conflict {address old new : Word} :
    ¬ BuildFailure x p stage pages (.refused (.conflictingEntry address old new)) := by
  intro h
  cases h with
  | start h =>
    rcases startTables_eq_error h with heq | ⟨_, heq⟩
    · cases heq
    · cases heq

/-- An attempt fails over a record only if the mode has no place for a page. -/
theorem BuildFailure.exists_unplaced {subject : String} {fault : RecordFault}
    (h : BuildFailure x p stage pages (.refused (.malformed subject fault))) :
    (p.mode stage).isPaged ∧ ∃ q ∈ x.pagesOf stage, ¬ ∃ l s, (p.mode stage).Places q l s := by
  cases h with
  | start h =>
    rcases startTables_eq_error h with heq | ⟨_, heq⟩
    · cases heq
    · cases heq
  | page hpaged hmem hnone => exact ⟨hpaged, _, hmem, hnone⟩

/-- **ONE VALUE FOR EACH ENTRY**: no build from an accepted map, on any platform and within any
budget, finds a slot taken by another value, because no two pages of the stage ever ask for
different ones.  On a platform that accepts the map, every mapping also fits the mode. -/
theorem build_never_conflicts (ha : x.AcceptedOn p₁) (p₂ : Platform) (stage : Stage) :
    (∀ budget address old new, (build x p₂ stage budget).outcome
        ≠ .error (.refused (.conflictingEntry address old new)))
      ∧ (∀ pages t, Arises x p₂ stage pages t → t.SlotsApart x stage)
      ∧ (x.AcceptedOn p₂ → ∀ budget subject fault, (build x p₂ stage budget).outcome
          ≠ .error (.refused (.malformed subject fault))) := by
  refine ⟨fun budget address old new hfail => ?_, fun pages t ht => ?_,
    fun ha₂ budget subject fault hfail => ?_⟩
  · obtain ⟨n, hn⟩ := exists_attempt x p₂ stage budget
    exact BuildFailure.not_conflict (ofMap_failsOnly ha p₂ stage n _ (hn.symm.trans hfail))
  · obtain ⟨done, hfilled⟩ := ht.exists_filled
    exact hfilled.packed.slotsApart ha stage
  · obtain ⟨n, hn⟩ := exists_attempt x p₂ stage budget
    obtain ⟨hpaged, q, hq, hnone⟩ :=
      (ofMap_failsOnly ha p₂ stage n _ (hn.symm.trans hfail)).exists_unplaced
    exact hnone (exists_places ha₂ hpaged hq)

/-- A platform whose one stage has four levels of tables. -/
def fourLevels : Platform where
  virtualization := false
  mode t := if t = .s then .sv48 else .bare
  supported t := by cases t <;> decide

open AddressMap in
/-- The small image was accepted for three levels of tables.  With four levels, its tables need all
eight pages of the region, and no smaller budget makes a conflict. -/
theorem smallImage_never_conflicts :
    (∃ t, (ofMap (collect smallImage) fourLevels .s 8).outcome = .ok t
        ∧ t.tables.length = 8 ∧ t.SlotsApart (collect smallImage) .s)
      ∧ (∀ budget address old new, (build (collect smallImage) fourLevels .s budget).outcome
          ≠ .error (.refused (.conflictingEntry address old new)))
      ∧ ∀ budget subject fault, (build (collect smallImage) threeLevels .s budget).outcome
          ≠ .error (.refused (.malformed subject fault)) := by
  have haccepted : (collect smallImage).AcceptedOn threeLevels := ⟨_, smallImage_accepted⟩
  have hrun : ((ofMap (collect smallImage) fourLevels .s 8).outcome.toOption.any fun t =>
      decide (t.tables.length = 8)) = true := by
    decide +kernel
  obtain ⟨t, ht, hlength⟩ := exists_ok_of_any hrun
  obtain ⟨hconflict, hapart, -⟩ := build_never_conflicts haccepted fourLevels .s
  obtain ⟨-, -, hfit⟩ := build_never_conflicts haccepted threeLevels .s
  exact ⟨⟨t, ht, of_decide_eq_true hlength, hapart 8 t (arises_of_ofMap haccepted ht)⟩, hconflict,
    hfit haccepted⟩

end StageTables

end FirmwareMap
