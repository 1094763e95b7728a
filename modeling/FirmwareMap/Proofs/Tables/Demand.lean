/-
  FirmwareMap.Proofs.Tables.Demand
  ────────────────────────────────
  **WHICH TABLES PAGES NEED, AND WHEN A BUDGET HOLDS THEM.**

  A page needs one table of each level down to that of its leaf, and two pages
  share a table of a level when it covers both.  What some pages need together
  is therefore a set, of levels with the first source address that is covered,
  and it has a size that no order of the pages takes part in:

      used bytes after some pages  =  Σ bytes of the distinct tables they need

  Tables are allocated only where a page needs one that is not there, so an
  allocation is refused only if the tables that are needed exceed the budget.
-/
import Mathlib.Algebra.BigOperators.Group.Finset.Basic
import Mathlib.Algebra.Order.BigOperators.Group.Finset
import FirmwareMap.Proofs.Mapping.Contiguous
import FirmwareMap.Proofs.Report.Failures
import FirmwareMap.Proofs.Tables.Slots

namespace FirmwareMap

/-! ## §1. What pages need. -/

namespace Mode

/-- The tables that a page needs, from the root to that of its leaf: their levels, each with the
first source address that the table covers. -/
def tablesFor (m : Mode) (q : Page) : List (Level × Word) :=
  match m.leafLevel? q.size, m.canonical? q.source with
  | some l, some s => (m.levels.take (l.depth + 1)).map fun k => (k, k.tableStart s)
  | _, _ => []

/-- The distinct tables that some pages need. -/
def demand (m : Mode) (pages : List Page) : Finset (Level × Word) :=
  (pages.flatMap m.tablesFor).toFinset

variable {m : Mode} {q : Page} {ps qs : List Page} {k : Level} {w s : Word}

theorem mem_tablesFor :
    (k, w) ∈ m.tablesFor q
      ↔ ∃ l s, m.Places q l s ∧ k ∈ m.levels ∧ k.depth ≤ l.depth ∧ w = k.tableStart s := by
  unfold tablesFor
  constructor
  · intro h
    split at h
    next l s hl hs =>
      have hplace : m.Places q l s := ⟨hl, hs⟩
      obtain ⟨k', hk, heq⟩ := List.mem_map.mp h
      obtain ⟨rfl, rfl⟩ := Prod.mk.inj heq
      obtain ⟨hk, hle⟩ := (mem_take_iff hplace.level_mem).mp hk
      exact ⟨l, s, hplace, hk, hle, rfl⟩
    next => cases h
  · intro h
    obtain ⟨l, s, hplace, hk, hle, rfl⟩ := h
    rw [hplace.level, hplace.source]
    exact List.mem_map.mpr ⟨k, (mem_take_iff hplace.level_mem).mpr ⟨hk, hle⟩, rfl⟩

theorem mem_demand :
    (k, w) ∈ m.demand ps
      ↔ ∃ q ∈ ps, ∃ l s, m.Places q l s ∧ k ∈ m.levels ∧ k.depth ≤ l.depth
          ∧ w = k.tableStart s := by
  unfold demand
  rw [List.mem_toFinset, List.mem_flatMap]
  exact exists_congr fun q => and_congr_right fun _ => mem_tablesFor

/-- More pages need no fewer tables. -/
theorem demand_mono (h : ps ⊆ qs) : m.demand ps ⊆ m.demand qs := by
  intro key hkey
  obtain ⟨k, w⟩ := key
  obtain ⟨q, hq, hneeds⟩ := mem_demand.mp hkey
  exact mem_demand.mpr ⟨q, h hq, hneeds⟩

/-- The order of the pages has no part in what they need. -/
theorem demand_perm (h : ps.Perm qs) : m.demand ps = m.demand qs :=
  Finset.Subset.antisymm (demand_mono h.subset) (demand_mono h.symm.subset)

/-- Only one root is ever needed. -/
theorem start_of_mem_demand (h : (k, w) ∈ m.demand ps) (hdepth : k.depth = 0) : w = 0 := by
  obtain ⟨q, -, l, s, hplace, hk, -, rfl⟩ := mem_demand.mp h
  exact tableStart_root hk hdepth hplace.source_lt

end Mode

/-- The bytes of distinct tables. -/
def demandBytes (tables : Finset (Level × Word)) : Nat :=
  ∑ key ∈ tables, key.1.tableBytes

theorem demandBytes_mono {D E : Finset (Level × Word)} (h : D ⊆ E) :
    demandBytes D ≤ demandBytes E :=
  Finset.sum_le_sum_of_subset h

/-! ## §2. What tables there are. -/

namespace Table

/-- What tells a table from the others of its stage. -/
def key (u : Table) : Level × Word :=
  (u.level, u.start)

/-- Tables that differ in their keys take as many bytes as the set of their keys says. -/
theorem total_eq_demandBytes {l : List Table} (h : (l.map key).Nodup) :
    total l = demandBytes (l.map key).toFinset := by
  rw [demandBytes, List.sum_toFinset _ h, List.map_map]
  clear h
  induction l with
  | nil => rfl
  | cons u l ih =>
    rw [total_cons, List.map_cons, List.sum_cons, ih]
    rfl

end Table

namespace StageTables

variable {t : StageTables} {u : Table} {q : Page} {l : Level} {s : Word} {pages : Nat}
  {done ps : List Page}

theorem Packed.nodup_keys (h : t.Packed pages) : (t.tables.map Table.key).Nodup := by
  refine List.pairwise_map.mpr (h.distinct.imp fun {u w} hne heq => hne ?_)
  exact Prod.mk.inj heq

/-- Every table is one that some page needs. -/
theorem Filled.key_mem_demand (h : t.Filled pages done) (hu : u ∈ t.tables) :
    u.key ∈ t.mode.demand done := by
  obtain ⟨q, hq, l, s, hplace, hcover, hle⟩ := h.needed u hu
  exact Mode.mem_demand.mpr
    ⟨q, hq, l, s, hplace, h.packed.level_mem u hu, hle, hcover.start⟩

/-- **Tables take the bytes that their pages need.** -/
theorem Filled.used_eq (h : t.Filled pages done) : t.used = demandBytes (t.mode.demand done) := by
  rw [used_eq_total, Table.total_eq_demandBytes h.packed.nodup_keys]
  congr 1
  ext ⟨k, w⟩
  rw [List.mem_toFinset, List.mem_map]
  constructor
  · intro hgiven
    obtain ⟨u, hu, heq⟩ := hgiven
    exact heq ▸ h.key_mem_demand hu
  · intro hgiven
    obtain ⟨q, hq, l, s, hplace, hk, hle, rfl⟩ := Mode.mem_demand.mp hgiven
    obtain ⟨u, hu, rfl⟩ := h.reached q hq l s hplace k hk hle
    exact ⟨u, hu.mem, by rw [Table.key, hu.start]⟩

/-- Where the tables there are and one more are needed, all of them are counted. -/
theorem Packed.used_add_le (h : t.Packed pages) {D : Finset (Level × Word)}
    (hkeys : ∀ u ∈ t.tables, u.key ∈ D) (hneeded : (l, l.tableStart s) ∈ D)
    (hnone : t.tableAt? l s = none) : t.used + l.tableBytes ≤ demandBytes D := by
  have hnew : (l, l.tableStart s) ∉ (t.tables.map Table.key).toFinset := by
    intro hmem
    obtain ⟨u, hu, heq⟩ := List.mem_map.mp (List.mem_toFinset.mp hmem)
    exact tableAt?_eq_none hnone u hu (Prod.mk.inj heq)
  have hsub : insert (l, l.tableStart s) (t.tables.map Table.key).toFinset ⊆ D := by
    intro key hkey
    rcases Finset.mem_insert.mp hkey with rfl | hkey
    · exact hneeded
    · obtain ⟨u, hu, rfl⟩ := List.mem_map.mp (List.mem_toFinset.mp hkey)
      exact hkeys u hu
  calc t.used + l.tableBytes
      = demandBytes (insert (l, l.tableStart s) (t.tables.map Table.key).toFinset) := by
        rw [demandBytes, Finset.sum_insert hnew, ← demandBytes,
          ← Table.total_eq_demandBytes h.nodup_keys, ← used_eq_total, Nat.add_comm]
    _ ≤ demandBytes D := demandBytes_mono hsub

/-! ## §3. When allocation is refused. -/

/-- The region below the tables holds the budget, and a root can start where it does. -/
structure Hosted (pages : Nat) (t : StageTables) : Prop where
  /-- The budget ends before the last address. -/
  fits : t.base.toNat + pages * budgetPageBytes < Word.count
  /-- A root can start at the base. -/
  aligned : t.base.toNat % t.mode.tableBytes 0 = 0

theorem Mode.tableBytes_zero {m : Mode} (hl : l ∈ m.levels) (h : l.depth = 0) :
    m.tableBytes 0 = l.tableBytes := by
  have hplace := Mode.levels_getElem?_depth hl
  rw [h] at hplace
  unfold Mode.tableBytes
  rw [hplace]

/-- Tables are whole pages, so they end at a page. -/
theorem Packed.used_mod (h : t.Packed pages) : t.used % 4096 = 0 := by
  have hbytes : ∀ u ∈ t.tables, u.bytes % 4096 = 0 := fun u hu =>
    Mode.tableBytes_mod (h.level_mem u hu)
  rw [used_eq_total]
  generalize t.tables = l at hbytes
  induction l with
  | nil => rfl
  | cons u l ih =>
    have hu := hbytes u List.mem_cons_self
    have hl := ih fun w hw => hbytes w (List.mem_cons_of_mem _ hw)
    rw [Table.total_cons]
    omega

/-- The next table starts at a multiple of its bytes, if a root is the first of all. -/
theorem Packed.next_aligned (h : t.Packed pages) (hhost : t.Hosted pages)
    (hl : l ∈ t.mode.levels) (hfirst : l.depth = 0 → t.tables = []) :
    (t.base.toNat + t.used) % l.tableBytes = 0 := by
  by_cases hdepth : l.depth = 0
  · have hbase := hhost.aligned
    rw [Mode.tableBytes_zero hl hdepth] at hbase
    rw [used_eq_total, hfirst hdepth, Table.total_nil, Nat.add_zero]
    exact hbase
  · obtain ⟨root, hroot, hzero⟩ := Mode.exists_level hl (Nat.zero_le _)
    have hbase := hhost.aligned
    rw [Mode.tableBytes_zero hroot hzero] at hbase
    have hbase' := Nat.mod_eq_zero_of_dvd (Nat.dvd_trans
      (Nat.dvd_of_mod_eq_zero (Mode.tableBytes_mod hroot)) (Nat.dvd_of_mod_eq_zero hbase))
    have hused := h.used_mod
    rw [Mode.tableBytes_of_pos hl (by omega)]
    omega

/-- Allocation is refused only if the budget has no room. -/
theorem allocate_failsOnly (h : t.Packed pages) (hhost : t.Hosted pages)
    (hl : l ∈ t.mode.levels) (hfirst : l.depth = 0 → t.tables = []) :
    (t.allocate pages l s).FailsOnly fun e =>
      e = .refused (.budgetExhausted t.stage pages)
        ∧ pages * budgetPageBytes < t.used + l.tableBytes := by
  unfold allocate
  refine Run.FailsOnly.bind (Run.failsOnly_liftRefusal fun why hwhy => ?_) fun _ hroom => ?_
  · obtain ⟨hroom, rfl⟩ := require_eq_error_iff.mp hwhy
    exact ⟨rfl, by omega⟩
  rw [Run.liftRefusal_eq_ok_iff, require_eq_ok_iff] at hroom
  -- with room in the budget, neither of the two faults can arise
  have hpos := l.tableBytes_pos
  have hfits := hhost.fits
  refine Run.FailsOnly.bind (Run.failsOnly_liftFault fun what hwhat => ?_)
    fun address haddress => ?_
  · have hover := Word.ofNat?_eq_none_iff.mp (demand_eq_error_iff.mp hwhat).1
    omega
  rw [Run.liftFault_eq_ok_iff, demand_eq_ok_iff, Word.ofNat?_eq_some_iff] at haddress
  refine Run.FailsOnly.bind (Run.failsOnly_liftFault fun what hwhat => ?_) fun _ _ => ?_
  · rw [require_eq_error_iff, ← haddress] at hwhat
    exact absurd (h.next_aligned hhost hl hfirst) hwhat.1
  · exact Run.FailsOnly.bind (Run.failsOnly_report _) fun _ _ => Run.failsOnly_pure _

/-- A root is looked for in vain only if there are no tables. -/
theorem Packed.tables_eq_nil (h : t.Packed pages) (hkeys : ∀ u ∈ t.tables, u.key ∈ t.mode.demand ps)
    (hl : l ∈ t.mode.levels) (hs : s.toNat < t.mode.sourceCount) (hnone : t.tableAt? l s = none)
    (hdepth : l.depth = 0) : t.tables = [] := by
  rcases htables : t.tables with _ | ⟨root, rest⟩
  · rfl
  · have hmem : root ∈ t.tables := by
      rw [htables]
      exact List.mem_cons_self
    have hroot := h.root root (by rw [htables]; rfl)
    have hlevel := Mode.eq_of_depth_eq (h.level_mem root hmem) hl (hroot.trans hdepth.symm)
    have hstart : root.start = 0 := Mode.start_of_mem_demand (hkeys root hmem) hroot
    refine absurd ⟨hlevel, ?_⟩ (tableAt?_eq_none hnone root hmem)
    rw [hstart, Mode.tableStart_root hl hdepth hs]

/-- Finding or allocating a table is refused only if the tables that are needed exceed the
budget. -/
theorem tableFor_failsOnly (h : t.Packed pages) (hhost : t.Hosted pages) (hl : l ∈ t.mode.levels)
    (hs : s.toNat < t.mode.sourceCount) (hneeded : (l, l.tableStart s) ∈ t.mode.demand ps)
    (hkeys : ∀ u ∈ t.tables, u.key ∈ t.mode.demand ps) :
    (t.tableFor pages l s).FailsOnly fun e =>
      e = .refused (.budgetExhausted t.stage pages)
        ∧ pages * budgetPageBytes < demandBytes (t.mode.demand ps) := by
  unfold tableFor
  split
  next => exact Run.failsOnly_pure _
  next hnone =>
    have hfirst := h.tables_eq_nil hkeys hl hs hnone
    have hle := h.used_add_le hkeys hneeded hnone
    exact (allocate_failsOnly h hhost hl hfirst).mono fun e he =>
      ⟨he.1, Nat.lt_of_lt_of_le he.2 hle⟩

/-- **Reaching tables is refused only if the tables that are needed exceed the budget.** -/
theorem reach_failsOnly (ps : List Page) (hs : s.toNat < t.mode.sourceCount) :
    ∀ {ls : List Level} {t' : StageTables},
    t' = { t with tables := t'.tables } → t'.Packed pages → t'.Hosted pages →
    (∀ l ∈ ls, l ∈ t.mode.levels ∧ (l, l.tableStart s) ∈ t.mode.demand ps) →
    (∀ l ∈ ls.head?, l.depth = 0 ∨ t'.tables ≠ []) →
    (∀ u ∈ t'.tables, u.key ∈ t.mode.demand ps) →
    (reach pages s ls t').FailsOnly fun e =>
      e = .refused (.budgetExhausted t.stage pages)
        ∧ pages * budgetPageBytes < demandBytes (t.mode.demand ps) := by
  intro ls
  induction ls with
  | nil =>
    intro t' _ _ _ _ _ _
    exact Run.failsOnly_pure _
  | cons l ls ih =>
    intro t' hsame hpacked hhost hls hroot hkeys
    have hmode : t'.mode = t.mode := by rw [hsame]
    have hstage : t'.stage = t.stage := by rw [hsame]
    obtain ⟨hl, hneeded⟩ := hls l List.mem_cons_self
    have hl' : l ∈ t'.mode.levels := by rwa [hmode]
    have hfor : (t'.tableFor pages l s).FailsOnly fun e =>
        e = .refused (.budgetExhausted t'.stage pages)
          ∧ pages * budgetPageBytes < demandBytes (t'.mode.demand ps) :=
      tableFor_failsOnly hpacked hhost hl' (by rwa [hmode]) (by rwa [hmode]) (by rwa [hmode])
    rw [hmode, hstage] at hfor
    refine Run.FailsOnly.bind hfor fun found hfound => ?_
    obtain ⟨t₁, u⟩ := found
    obtain ⟨⟨new, rfl, hnew⟩, hpacked₁, -, hcovers⟩ :=
      tableFor_spec hpacked hl' (hroot l rfl) hfound
    refine Run.FailsOnly.bind (ih ?_ hpacked₁ ⟨hhost.fits, hhost.aligned⟩
      (fun k hk => hls k (List.mem_cons_of_mem _ hk)) ?_ ?_) fun _ _ => Run.failsOnly_pure _
    · rw [hsame]
    · intro k _
      exact .inr (List.ne_nil_of_mem hcovers.mem)
    · intro w hw
      rcases List.mem_append.mp hw with hw | hw
      · exact hkeys w hw
      · obtain ⟨hlevel, hstart⟩ := hnew w hw
        rw [List.mem_singleton] at hlevel
        rwa [Table.key, hstart, hlevel]

end StageTables

end FirmwareMap
