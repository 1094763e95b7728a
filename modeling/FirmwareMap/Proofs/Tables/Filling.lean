/-
  FirmwareMap.Proofs.Tables.Filling
  ─────────────────────────────────
  **WHAT THE TABLES HOLD AFTER SOME PAGES WERE MAPPED.**

  The invariant `Filled` says what mapping pages leaves behind, whatever the
  order in which they came: the tables are those that the pages need and no
  others, and the entries are those that the pages need and no others, but for
  zeros at the ends.

      Filled done t,  mapPage t q ends with t'  →  Filled (done ++ [q]) t'

  So tables that were built for a stage are filled with the pages of its
  mappings (`built_of_ofMap`).
-/
import FirmwareMap.Proofs.AddressMap.Pages
import FirmwareMap.Proofs.Tables.Linking
import FirmwareMap.Tables.Build

namespace FirmwareMap.StageTables

variable {t t' : StageTables} {u w : Table} {q : Page} {l : Level} {a v s r : Word} {pages : Nat}
  {done : List Page}

/-! ## §1. More tables. -/

theorem Covers.mono (h : t.Covers s u) (hsub : t.tables ⊆ t'.tables) : t'.Covers s u :=
  ⟨hsub h.mem, h.start⟩

/-- What a page needs among some tables, it needs among more. -/
theorem Writes.mono (h : t.Writes q a v) (hmode : t'.mode = t.mode)
    (hsub : t.tables ⊆ t'.tables) : t'.Writes q a v := by
  cases h with
  | leaf h =>
    obtain ⟨s, u, hplace, hu, hslot⟩ := h
    rw [← hmode] at hplace ⊢
    exact .leaf ⟨s, u, hplace, hu.mono hsub, hslot⟩
  | pointer h =>
    obtain ⟨l, s, u, hplace, hu, hw, hbelow, hle, hslot⟩ := h
    rw [← hmode] at hplace ⊢
    exact .pointer ⟨l, s, u, hplace, hu.mono hsub, hw.mono hsub, hbelow, hle, hslot⟩

/-- The tables on the way to the page's leaf are there. -/
def Reached (t : StageTables) (q : Page) : Prop :=
  ∀ l s, t.mode.Places q l s → ∀ k ∈ t.mode.levels, k.depth ≤ l.depth →
    ∃ u, t.Covers s u ∧ u.level = k

theorem Reached.mono (h : t.Reached q) (hmode : t'.mode = t.mode) (hsub : t.tables ⊆ t'.tables) :
    t'.Reached q := by
  intro l s hplace k hk hle
  rw [hmode] at hplace hk
  obtain ⟨u, hu, hlevel⟩ := h l s hplace k hk hle
  exact ⟨u, hu.mono hsub, hlevel⟩

/-- More tables are none on the way to a page whose tables were all there. -/
theorem Reached.covers (h : t.Reached q) (hpacked : t'.Packed pages) (hmode : t'.mode = t.mode)
    (hsub : t.tables ⊆ t'.tables) (hplace : t.mode.Places q l s) (hu : t'.Covers s u)
    (hle : u.level.depth ≤ l.depth) : t.Covers s u := by
  have hlevel := hpacked.level_mem u hu.mem
  rw [hmode] at hlevel
  obtain ⟨w, hw, hwu⟩ := h l s hplace u.level hlevel hle
  rwa [← hpacked.eq_of_covers (hw.mono hsub) hu hwu rfl]

/-- A page whose tables were all there needs no more entries among more tables. -/
theorem Reached.writes_iff (h : t.Reached q) (hpacked : t'.Packed pages)
    (hmode : t'.mode = t.mode) (hsub : t.tables ⊆ t'.tables) :
    t'.Writes q a v ↔ t.Writes q a v := by
  refine ⟨fun hwrites => ?_, fun hwrites => hwrites.mono hmode hsub⟩
  cases hwrites with
  | leaf h' =>
    obtain ⟨s, u, hplace, hu, hslot⟩ := h'
    rw [hmode] at hplace ⊢
    exact .leaf ⟨s, u, hplace, h.covers hpacked hmode hsub hplace hu (Nat.le_refl _), hslot⟩
  | pointer h' =>
    obtain ⟨l, s, u, hplace, hu, hw, hbelow, hle, hslot⟩ := h'
    rw [hmode] at hplace ⊢
    exact .pointer ⟨l, s, u, hplace, h.covers hpacked hmode hsub hplace hu (by omega),
      h.covers hpacked hmode hsub hplace hw hle, hbelow, hle, hslot⟩

/-- On the path of a page, the tables are those that cover it down to the level of its leaf. -/
theorem mem_path_iff {path : List Table} (hpacked : t.Packed pages) (hl : l ∈ t.mode.levels)
    (hpath : path.map (·.level) = t.mode.levels.take (l.depth + 1))
    (hcovers : ∀ u ∈ path, t.Covers s u) :
    u ∈ path ↔ t.Covers s u ∧ u.level.depth ≤ l.depth := by
  constructor
  · intro hu
    have hlevel : u.level ∈ path.map (·.level) := List.mem_map_of_mem hu
    rw [hpath, Mode.mem_take_iff hl] at hlevel
    exact ⟨hcovers u hu, hlevel.2⟩
  · intro h
    obtain ⟨hu, hle⟩ := h
    have hlevel : u.level ∈ path.map (·.level) := by
      rw [hpath, Mode.mem_take_iff hl]
      exact ⟨hpacked.level_mem u hu.mem, hle⟩
    obtain ⟨w, hw, hwu⟩ := List.mem_map.mp hlevel
    rwa [← hpacked.eq_of_covers (hcovers w hw) hu hwu rfl]

/-- **Linking the path of a page adds the entries that the page needs.** -/
theorem leads_iff_writes {path : List Table} (hpacked : t.Packed pages)
    (hplace : t.mode.Places q l s)
    (hpath : path.map (·.level) = t.mode.levels.take (l.depth + 1))
    (hcovers : ∀ u ∈ path, t.Covers s u) :
    Leads t.mode s (q.leaf.encode t.mode) path a v ↔ t.Writes q a v := by
  have hl := hplace.level_mem
  have hmem := fun u => mem_path_iff (u := u) hpacked hl hpath hcovers
  have hdepths : path.map (·.level.depth) = List.range' 0 (l.depth + 1) := by
    rw [← Mode.depths_take hl, ← hpath, List.map_map]
    rfl
  rw [leads_iff hdepths]
  constructor
  · intro hgiven
    rcases hgiven with ⟨u, hu, hdepth, hslot, rfl⟩ | ⟨u, hu, w, hw, hbelow, hslot, rfl⟩
    · have hlevel : u.level = l :=
        Mode.eq_of_depth_eq (hpacked.level_mem u (hcovers u hu).mem) hl (by omega)
      exact .leaf ⟨s, u, hlevel ▸ hplace, hcovers u hu, hslot⟩
    · obtain ⟨hw, hle⟩ := (hmem w).mp hw
      exact .pointer ⟨l, s, u, hplace, hcovers u hu, hw, hbelow, hle, hslot⟩
  · intro hwrites
    cases hwrites with
    | leaf h =>
      obtain ⟨r, u, hplace', hu, hslot⟩ := h
      obtain ⟨hlevel, rfl⟩ := hplace.unique hplace'
      have hdepth : u.level.depth = l.depth := by rw [hlevel]
      exact .inl ⟨u, (hmem u).mpr ⟨hu, by omega⟩, by omega, hslot, rfl⟩
    | pointer h =>
      obtain ⟨k, r, u, hplace', hu, hw, hbelow, hle, hslot⟩ := h
      obtain ⟨rfl, rfl⟩ := hplace.unique hplace'
      exact .inr ⟨u, (hmem u).mpr ⟨hu, by omega⟩, _, (hmem _).mpr ⟨hw, hle⟩, hbelow, hslot, rfl⟩

/-! ## §2. The invariant. -/

/-- The tables are filled with the given pages, within a budget of so many pages. -/
structure Filled (pages : Nat) (done : List Page) (t : StageTables) : Prop where
  /-- The tables lie one after the other, within the budget. -/
  packed : t.Packed pages
  /-- The mode has a place for each page. -/
  located : ∀ q ∈ done, ∃ l s, t.mode.Places q l s
  /-- Each page has the tables on the way to its leaf. -/
  reached : ∀ q ∈ done, t.Reached q
  /-- Each table is on the way to the leaf of a page. -/
  needed : ∀ u ∈ t.tables, ∃ q ∈ done, ∃ l s, t.mode.Places q l s ∧ t.Covers s u
    ∧ u.level.depth ≤ l.depth
  /-- The entries are those that the pages need. -/
  entry : ∀ a v, v ≠ 0 → (t.entries[a]? = some v ↔ ∃ q ∈ done, t.Writes q a v)
  /-- Where there is zero, there is room for an entry. -/
  blank : ∀ a, t.entries[a]? = some 0 → ∃ u ∈ t.tables, u.IsSlot a

theorem filled_start (stage : Stage) (mode : Mode) (base : Word) :
    (start stage mode base).Filled pages [] where
  packed := {
    level_mem := fun u hu => by cases hu
    packed := trivial
    aligned := fun u hu => by cases hu
    distinct := .nil
    root := fun u hu => by cases hu
    within := Nat.zero_le _ }
  located q hq := by cases hq
  reached q hq := by cases hq
  needed u hu := by cases hu
  entry a v _ := by simp [start]
  blank a h := by simp [start] at h

/-- Where tables have entries added, what is said of tables alone still holds. -/
theorem Packed.withEntries (h : t.Packed pages) (entries : Std.TreeMap Word Word) :
    Packed pages { t with entries } :=
  ⟨h.level_mem, h.packed, h.aligned, h.distinct, h.root, h.within⟩

theorem locate_eq_ok_iff : t.locate q = .ok (l, s) ↔ t.mode.Places q l s := by
  simp only [locate, bind_eq_ok_iff, demand_eq_ok_iff, pure, Except.pure, Except.ok.injEq,
    Prod.mk.injEq]
  constructor
  · intro h
    obtain ⟨k, hk, r, hr, rfl, rfl⟩ := h
    exact ⟨hk, hr⟩
  · intro h
    obtain ⟨hl, hs⟩ := h
    exact ⟨l, hl, s, hs, rfl, rfl⟩

/-- What mapping a page does: it finds the place of the page, adds the tables on the way that are
not there, and links them. -/
theorem mapPage_spec (h : t.Packed pages) (hrun : (mapPage pages t q).outcome = .ok t') :
    ∃ l s path new entries, t.mode.Places q l s ∧ t' = { t with tables := t.tables ++ new, entries }
      ∧ (∀ u ∈ new, u.level ∈ t.mode.levels.take (l.depth + 1) ∧ u.start = u.level.tableStart s)
      ∧ Packed pages { t with tables := t.tables ++ new }
      ∧ path.map (·.level) = t.mode.levels.take (l.depth + 1)
      ∧ (∀ u ∈ path, Covers { t with tables := t.tables ++ new } s u)
      ∧ ∀ a v, entries[a]? = some v
          ↔ t.entries[a]? = some v ∨ Leads t.mode s (q.leaf.encode t.mode) path a v := by
  simp only [StageTables.mapPage, Run.bind_outcome_eq_ok_iff, Run.liftRefusal_eq_ok_iff,
    mapError_eq_ok_iff, Prod.exists, locate_eq_ok_iff] at hrun
  obtain ⟨l, s, hplace, t₁, path, hreach, hlink⟩ := hrun
  have hl := hplace.level_mem
  obtain ⟨⟨new, rfl, hnew⟩, hpacked, hpath, hcovers⟩ :=
    reach_spec h (fun k hk => List.mem_of_mem_take hk)
      (fun k hk => .inl (Mode.depth_of_head_take hl hk)) hreach
  obtain ⟨entries, rfl, hentries⟩ := link_spec hlink
  exact ⟨l, s, path, new, entries, hplace, rfl, hnew, hpacked, hpath, hcovers, hentries⟩

/-- **One more page.**  Mapping a page adds the tables and the entries that it needs. -/
theorem Filled.mapPage (h : t.Filled pages done)
    (hrun : (mapPage pages t q).outcome = .ok t') :
    t'.Filled pages (done ++ [q]) ∧ t' = { t with tables := t'.tables, entries := t'.entries } := by
  obtain ⟨l, s, path, new, entries, hplace, rfl, hnew, hpacked, hpath, hcovers, hentries⟩ :=
    mapPage_spec h.packed hrun
  have hl := hplace.level_mem
  have hsub : t.tables ⊆ t.tables ++ new := List.subset_append_left _ _
  have hfull := hpacked.withEntries entries
  -- what a page needs depends on the tables, not on the entries that are there
  have hsame : ∀ a v, Writes { t with tables := t.tables ++ new, entries } q a v
      ↔ Writes { t with tables := t.tables ++ new } q a v := fun a v =>
    ⟨fun hw => hw.mono rfl fun _ hu => hu, fun hw => hw.mono rfl fun _ hu => hu⟩
  refine ⟨⟨hfull, fun r hr => ?_, fun r hr => ?_, fun u hu => ?_, fun a v hv => ?_, fun a hz => ?_⟩,
    rfl⟩
  · rcases List.mem_append.mp hr with hr | hr
    · exact h.located r hr
    · rw [List.mem_singleton.mp hr]
      exact ⟨l, s, hplace⟩
  · rcases List.mem_append.mp hr with hr | hr
    · exact (h.reached r hr).mono rfl hsub
    · rw [List.mem_singleton.mp hr]
      intro l' s' hplace' k hk hle
      obtain ⟨rfl, rfl⟩ := hplace.unique hplace'
      have hlevel : k ∈ path.map (·.level) := by
        rw [hpath, Mode.mem_take_iff hl]
        exact ⟨hk, hle⟩
      obtain ⟨u, hu, hku⟩ := List.mem_map.mp hlevel
      exact ⟨u, (hcovers u hu).mono fun _ hw => hw, hku⟩
  · -- a table that is added is one of the path
    rcases List.mem_append.mp hu with hu | hu
    · obtain ⟨r, hr, l', s', hplace', hcover, hle⟩ := h.needed u hu
      exact ⟨r, List.mem_append_left _ hr, l', s', hplace', hcover.mono hsub, hle⟩
    · obtain ⟨hlevel, hstart⟩ := hnew u hu
      rw [Mode.mem_take_iff hl] at hlevel
      exact ⟨q, by simp, l, s, hplace, ⟨List.mem_append_right _ hu, hstart⟩, hlevel.2⟩
  · -- the pages before need what they needed, and the path adds what this page needs
    rw [hentries, h.entry a v hv, leads_iff_writes hpacked hplace hpath hcovers]
    simp only [List.mem_append, List.mem_singleton, or_and_right, exists_or, exists_eq_left]
    refine or_congr (exists_congr fun r => and_congr_right fun hr => ?_) (hsame a v).symm
    exact ((h.reached r hr).writes_iff hfull rfl hsub).symm
  · -- linking writes no zeros
    rcases (hentries a 0).mp hz with hz | hz
    · obtain ⟨u, hu, hslot⟩ := h.blank a hz
      exact ⟨u, hsub hu, hslot⟩
    · rw [leads_iff_writes hpacked hplace hpath hcovers] at hz
      exact absurd rfl hz.ne_zero

/-- **All pages of a run.**  Mapping the mappings of a stage fills the tables with their pages. -/
theorem filled_of_mapAll {mappings : List Mapping} (h : t.Filled pages [])
    (hrun : (mappings.foldlM (mapPages pages) t).outcome = .ok t') :
    t'.Filled pages (mappings.flatMap Mapping.pageList)
      ∧ t' = { t with tables := t'.tables, entries := t'.entries } := by
  -- the invariant also says that stage, mode and base stay what they are
  have hpages : ∀ (done : List Page) (b : StageTables) (m : Mapping) (b' : StageTables),
      b.Filled pages done ∧ b = { t with tables := b.tables, entries := b.entries } →
      (mapPages pages b m).outcome = .ok b' →
      b'.Filled pages (done ++ m.pageList)
        ∧ b' = { t with tables := b'.tables, entries := b'.entries } := by
    intro done b m b' hb hm
    rw [mapPages, Run.bind_outcome_eq_ok_iff] at hm
    obtain ⟨l, hl, hm⟩ := hm
    rw [Run.liftFault_eq_ok_iff] at hl
    obtain rfl := Mapping.eq_pageList_of_pages hl
    refine Run.foldlM_induct (P := fun (c : StageTables) qs => c.Filled pages qs
      ∧ c = { t with tables := c.tables, entries := c.entries }) ?_ _ b b' done hb hm
    intro c qs q c' hc hq
    obtain ⟨hc, hsame⟩ := hc
    obtain ⟨hc', hsame'⟩ := hc.mapPage hq
    refine ⟨hc', ?_⟩
    rw [hsame', hsame]
  have hall := Run.foldlM_induct (P := fun (c : StageTables) (ms : List Mapping) =>
    c.Filled pages (ms.flatMap Mapping.pageList)
      ∧ c = { t with tables := c.tables, entries := c.entries })
    (fun b done m b' hb hm => by
      rw [List.flatMap_append, List.flatMap_singleton]
      exact hpages _ b m b' hb hm) mappings t t' [] ⟨h, rfl⟩ hrun
  rwa [List.nil_append] at hall

/-! ## §3. The ends. -/

/-- Zero is written only where nothing was. -/
theorem getElem?_pin (t : StageTables) (a b : Word) :
    (t.pin a).entries[b]? = some v
      ↔ t.entries[b]? = some v ∨ (b = a ∧ v = 0 ∧ t.entries[a]? = none) := by
  show (t.entries.insertIfNew a 0)[b]? = some v ↔ _
  rw [Std.TreeMap.getElem?_insertIfNew]
  simp only [Std.compare_eq_iff_eq]
  have hmem : ¬ a ∈ t.entries ↔ t.entries[a]? = none := by
    rw [Std.TreeMap.mem_iff_isSome_getElem?, Bool.not_eq_true, Option.isSome_eq_false_iff,
      Option.isNone_iff_eq_none]
  split
  next h =>
    obtain ⟨rfl, hnew⟩ := h
    rw [hmem] at hnew
    rw [hnew, Option.some.injEq]
    simp [eq_comm]
  next h =>
    refine ⟨.inl, ?_⟩
    intro hgiven
    rcases hgiven with hold | ⟨rfl, -, hnone⟩
    · exact hold
    · exact absurd ⟨rfl, hmem.mpr hnone⟩ h

/-- A zero in a slot of a table changes nothing of what is said of the entries. -/
theorem Filled.pin (h : t.Filled pages done) (hslot : ∃ u ∈ t.tables, u.IsSlot a) :
    (t.pin a).Filled pages done where
  packed := h.packed.withEntries _
  located := h.located
  reached q hq := (h.reached q hq).mono rfl fun _ hu => hu
  needed u hu := by
    obtain ⟨q, hq, l, s, hplace, hcover, hle⟩ := h.needed u hu
    exact ⟨q, hq, l, s, hplace, hcover.mono fun _ hw => hw, hle⟩
  entry b v hv := by
    have hzero : ¬ (b = a ∧ v = 0 ∧ t.entries[a]? = none) := fun hz => hv hz.2.1
    rw [getElem?_pin, or_iff_left hzero, h.entry b v hv]
    exact exists_congr fun q => and_congr_right fun _ =>
      ⟨fun hw => hw.mono rfl fun _ hu => hu, fun hw => hw.mono rfl fun _ hu => hu⟩
  blank b hb := by
    rcases (getElem?_pin t a b).mp hb with hb | ⟨rfl, -, -⟩
    · exact h.blank b hb
    · exact hslot

/-- The first and the last slot of a table. -/
theorem isSlot_first (u : Table) : u.IsSlot u.address := by
  have hroom : entryBytes ≤ u.bytes := Nat.le_trans (Nat.le_add_left _ _)
    (Table.index_add_le u.level 0)
  exact ⟨Nat.le_refl _, Nat.add_le_add_left hroom _, by simp [Table.extent]⟩

theorem isSlot_last {stop : Word} (h : u.extent.stop = stop.toNat) :
    u.IsSlot (stop - .ofNat entryBytes) := by
  have hpos := u.level.entries_pos
  have hstop : u.address.toNat + 8 * u.level.entries = stop.toNat := h
  have hlast : (stop - .ofNat entryBytes).toNat = stop.toNat - 8 := by
    rw [UInt64.toNat_sub_of_le]
    · rfl
    · rw [UInt64.le_iff_toNat_le]
      show 8 ≤ stop.toNat
      omega
  refine ⟨?_, ?_, ?_⟩
  · show u.address.toNat ≤ (stop - .ofNat entryBytes).toNat
    omega
  · show (stop - .ofNat entryBytes).toNat + 8 ≤ u.address.toNat + 8 * u.level.entries
    omega
  · show ((stop - .ofNat entryBytes).toNat - u.address.toNat) % 8 = 0
    omega

/-- The ends hold an entry, and nothing else changes. -/
theorem Filled.pinEnds (h : t.Filled pages done) (hpin : t.pinEnds = .ok t') :
    t'.Filled pages done ∧ t' = { t with entries := t'.entries } := by
  unfold StageTables.pinEnds at hpin
  split at hpin
  next first last hfirst hlast =>
    simp only [bind_eq_ok_iff, demand_eq_ok_iff, pure, Except.pure, Except.ok.injEq,
      Word.ofNat?_eq_some_iff] at hpin
    obtain ⟨stop, hstop, rfl⟩ := hpin
    refine ⟨(h.pin ?_).pin ?_, rfl⟩
    · exact ⟨first, List.mem_of_head? hfirst, isSlot_first first⟩
    · exact ⟨last, List.mem_of_getLast? hlast, isSlot_last hstop⟩
  next =>
    cases hpin
    exact ⟨h, rfl⟩

/-! ## §4. Tables that were built. -/

/-- Tables start at the base of the one region, if it can hold the budget and a root. -/
theorem startTables_eq_ok_iff {x : AddressMap} {p : Platform} {stage : Stage} :
    x.startTables p stage pages = .ok t
      ↔ p.enables stage ∧ (p.mode stage).isPaged ∧ ∃ m, x.region p stage = .ok m
          ∧ pages * budgetPageBytes ≤ m.block.bytes
          ∧ m.block.dest.toNat % (p.mode stage).tableBytes 0 = 0
          ∧ t = start stage (p.mode stage) m.block.dest := by
  simp only [AddressMap.startTables, AddressMap.tableBase, bind_eq_ok_iff, require_eq_ok_iff,
    mapError_eq_ok_iff, exists_const, pure, Except.pure, Except.ok.injEq]
  constructor
  · intro h
    obtain ⟨henabled, base, ⟨hpaged, m, hregion, hbudget, haligned, rfl⟩, rfl⟩ := h
    exact ⟨henabled, hpaged, m, hregion, hbudget, haligned, rfl⟩
  · intro h
    obtain ⟨henabled, hpaged, m, hregion, hbudget, haligned, rfl⟩ := h
    exact ⟨henabled, m.block.dest, ⟨hpaged, m, hregion, hbudget, haligned, rfl⟩, rfl⟩

/-- The tables were built for a stage of the map, on a platform and within a budget. -/
structure Built (x : AddressMap) (p : Platform) (stage : Stage) (pages : Nat) (t : StageTables) :
    Prop where
  /-- The tables are filled with the pages of the stage. -/
  filled : t.Filled pages (x.pagesOf stage)
  /-- They are for the stage. -/
  stage_eq : t.stage = stage
  /-- The mode is the one in which the platform runs the stage. -/
  mode_eq : t.mode = p.mode stage
  /-- The stage exists. -/
  enabled : p.enables stage
  /-- The mode has tables. -/
  isPaged : t.mode.isPaged
  /-- The base is that of the one region, which holds the budget. -/
  region : ∃ m, x.region p stage = .ok m ∧ t.base = m.block.dest
    ∧ pages * budgetPageBytes ≤ m.block.bytes ∧ t.base.toNat % t.mode.tableBytes 0 = 0

/-- **Tables that are built are filled with the pages of their stage.** -/
theorem built_of_ofMap {x : AddressMap} {p : Platform} {stage : Stage}
    (h : (ofMap x p stage pages).outcome = .ok t) : t.Built x p stage pages := by
  simp only [ofMap, Run.bind_outcome_eq_ok_iff, Run.liftRefusal_eq_ok_iff,
    Run.liftFault_eq_ok_iff, Run.pure_outcome_eq_ok_iff] at h
  obtain ⟨t₀, hstart, t₁, hrun, t₂, hends, -, -, rfl⟩ := h
  obtain ⟨henabled, hpaged, m, hregion, hbudget, haligned, rfl⟩ := startTables_eq_ok_iff.mp hstart
  obtain ⟨hfilled, hsame⟩ := filled_of_mapAll (filled_start _ _ _) hrun
  obtain ⟨hfilled', hsame'⟩ := hfilled.pinEnds hends
  rw [hsame] at hsame'
  exact {
    filled := hfilled'
    stage_eq := by rw [hsame']; rfl
    mode_eq := by rw [hsame']; rfl
    enabled := henabled
    isPaged := by rw [hsame']; exact hpaged
    region := ⟨m, hregion, by rw [hsame']; rfl, hbudget, by rw [hsame']; exact haligned⟩ }

/-- The region is one of the mappings of a stage that exists. -/
theorem mem_of_region {x : AddressMap} {p : Platform} {stage : Stage} {m : Mapping}
    (h : x.region p stage = .ok m) : ∃ stage', m ∈ x.entries stage' := by
  rw [AddressMap.region_eq_ok_iff] at h
  obtain ⟨henabled, -⟩ := AddressMap.mem_regions.mp (h ▸ List.mem_singleton_self m)
  obtain ⟨stage', -, hm⟩ := AddressMap.mem_enabled.mp henabled
  exact ⟨stage', hm⟩

/-- Tables end before the last address, because their region does. -/
theorem Built.fits {x : AddressMap} {p p' : Platform} {stage : Stage}
    (h : t.Built x p stage pages) (ha : x.AcceptedOn p') :
    t.base.toNat + t.used ≤ Word.count := by
  obtain ⟨m, hregion, hbase, hbudget, -⟩ := h.region
  obtain ⟨stage', hm⟩ := mem_of_region hregion
  have hstop : m.block.dest.toNat + m.block.bytes < Word.count := (ha.bounded hm).dest_lt
  have hwithin := h.filled.packed.within
  rw [hbase]
  omega

open AddressMap in
/-- The tables of the small image, which are six in a region of eight pages. -/
theorem smallImage_tables : ∃ t, (ofMap (collect smallImage) threeLevels .s 8).outcome = .ok t
    ∧ t.base.toNat + t.used ≤ Entry.reach ∧ t.tables.length = 6 := by
  have hrun : ((ofMap (collect smallImage) threeLevels .s 8).outcome.toOption.any fun t =>
      decide (t.base.toNat + t.used ≤ Entry.reach ∧ t.tables.length = 6)) = true := by
    decide +kernel
  obtain ⟨t, ht, hbounds⟩ := exists_ok_of_any hrun
  exact ⟨t, ht, of_decide_eq_true hbounds⟩

end FirmwareMap.StageTables
