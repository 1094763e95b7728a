/-
  FirmwareMap.Proofs.Tables.Slots
  ───────────────────────────────
  **WHAT STANDS IN THE SLOT OF A SOURCE ADDRESS.**

  The slot that a table has for a source address belongs to one page of the
  table's level.  In filled tables it holds

      a leaf       if a mapped page is that page,
      a pointer    if a mapped page is a smaller one within that page,
      nothing      if neither is the case,

  and never two of these at once, because an address has one entry.
-/
import FirmwareMap.Proofs.Tables.Filling

namespace FirmwareMap

/-- The page, mapped at level `l`, holds the source address with the translated bits `s`. -/
def Mode.Holds (m : Mode) (q : Page) (l : Level) (s : Word) : Prop :=
  ∃ r, m.Places q l r ∧ l.pageNumber r = l.pageNumber s

/-- The page, mapped below level `l`, lies in the same page of that level as `s`. -/
def Mode.Refines (m : Mode) (q : Page) (l : Level) (s : Word) : Prop :=
  ∃ k r, m.Places q k r ∧ l.depth < k.depth ∧ l.pageNumber r = l.pageNumber s

/-- Above the level of a leaf there is a level of each smaller depth. -/
theorem Mode.exists_level {m : Mode} {l : Level} (h : l ∈ m.levels) {d : Nat} (hd : d ≤ l.depth) :
    ∃ k ∈ m.levels, k.depth = d := by
  have hmem : d ∈ (m.levels.take (l.depth + 1)).map (·.depth) := by
    rw [Mode.depths_take h, List.mem_range'_1]
    omega
  obtain ⟨k, hk, hdepth⟩ := List.mem_map.mp hmem
  exact ⟨k, List.mem_of_mem_take hk, hdepth⟩

/-- What is within reach of an entry is within the address space. -/
theorem Entry.le_count {n : Nat} (h : n ≤ Entry.reach) : n ≤ Word.count :=
  Nat.le_trans h (by decide)

/-! ## §1. Slots of packed tables. -/

namespace StageTables.Packed

variable {t : StageTables} {u : Table} {q q' : Page} {a s : Word} {pages : Nat}

/-- A table has a slot for every source address, if the tables end within the address space. -/
theorem exists_slot (h : t.Packed pages) (hfit : t.base.toNat + t.used ≤ Word.count)
    (hu : u ∈ t.tables) (s : Word) : ∃ a, u.slot s = .ok a := by
  have hbounds := (h.packed.bounds hu).2
  have hroom := Table.index_add_le u.level s
  have hstop : u.extent.stop = u.address.toNat + u.level.tableBytes := rfl
  have hentry : 0 < entryBytes := by decide
  rw [← used_eq_total] at hbounds
  refine ⟨.ofNat (u.address.toNat + (u.level.index.extract s).toNat * entryBytes), ?_⟩
  rw [Table.slot_eq_ok_iff]
  exact Word.toNat_ofNat_of_lt (by omega)

/-- An address whose slot in some table is that of the leaf of a page lies in the page. -/
theorem mem_extent_of_slot (h : t.Packed pages) (haligned : q.source.toNat % q.size.bytes = 0)
    (hq : t.LeafSlot q a) (hu : t.Covers s u) (hslot : u.slot s = .ok a) {b : Word}
    (hb : t.mode.canonical? b = some s) : b.toNat ∈ q.extent := by
  obtain ⟨r, w, hplace, hw, hslot'⟩ := hq
  -- one slot is that of one table and of one page of its level
  obtain ⟨rfl, hpage⟩ := h.slot_injective hu hw hslot hslot'
  have hmem := (Mode.mem_page_iff hplace.level_mem hplace.source
    (by rw [hplace.page_eq]; exact haligned)).mpr ⟨s, hb, hpage.symm⟩
  rw [hplace.page_eq] at hmem
  exact hmem

/-- Pages that have their leaf in one place are one page of source addresses. -/
theorem mem_extent_of_leafSlot (h : t.Packed pages)
    (haligned : q'.source.toNat % q'.size.bytes = 0) (ha : t.LeafSlot q a)
    (ha' : t.LeafSlot q' a) : q.source.toNat ∈ q'.extent := by
  obtain ⟨s, u, hplace, hu, hslot⟩ := ha
  exact h.mem_extent_of_slot haligned ha' hu hslot hplace.source

end StageTables.Packed

namespace StageTables.Filled

variable {t : StageTables} {u w : Table} {q q' : Page} {l k : Level} {a v s r : Word}
  {pages : Nat} {done : List Page}

/-! ## §2. From pages to entries. -/

/-- Where a page holds the address, its leaf stands in the slot of the table of its level. -/
theorem leaf_slot (h : t.Filled pages done) (hu : t.Covers s u) (hq : t.mode.Holds q u.level s)
    (hslot : u.slot s = .ok a) : t.LeafSlot q a := by
  obtain ⟨r, hplace, hpage⟩ := hq
  obtain ⟨hcover, hsame⟩ := h.packed.slot_congr hu hpage.symm
  exact ⟨r, u, hplace, hcover, hsame.symm.trans hslot⟩

theorem leaf_entry (h : t.Filled pages done) (hmem : q ∈ done) (hslot : t.LeafSlot q a) :
    t.entries[a]? = some (q.leaf.encode t.mode) := by
  have hwrites : t.Writes q a (q.leaf.encode t.mode) := .leaf hslot
  exact (h.entry a _ hwrites.ne_zero).mpr ⟨q, hmem, hwrites⟩

/-- Where a smaller page lies around the address, the slot points to the table of the next level. -/
theorem pointer_slot (h : t.Filled pages done) (hmem : q ∈ done) (hu : t.Covers s u)
    (hq : t.mode.Refines q u.level s) (hslot : u.slot s = .ok a) :
    ∃ w, t.Covers s w ∧ w.level.depth = u.level.depth + 1 ∧ t.PointerSlot q w a := by
  obtain ⟨k, r, hplace, hdeep, hpage⟩ := hq
  have hlevel := h.packed.level_mem u hu.mem
  obtain ⟨hcover, hsame⟩ := h.packed.slot_congr hu hpage.symm
  have hnext : u.level.depth + 1 ≤ k.depth := hdeep
  obtain ⟨l, hl, hdepth⟩ := Mode.exists_level hplace.level_mem hnext
  obtain ⟨w, hw, rfl⟩ := h.reached q hmem k r hplace l hl (by omega)
  -- addresses of one page share the table of the next level
  have hstart := (Mode.tableStart_eq_of_pageNumber hlevel hl hdepth).mpr hpage
  refine ⟨w, ⟨hw.mem, hw.start.trans hstart⟩, hdepth, k, r, u, hplace, hcover, hw, hdepth, ?_, ?_⟩
  · omega
  · exact hsame.symm.trans hslot

theorem pointer_entry (h : t.Filled pages done) (hmem : q ∈ done) (hslot : t.PointerSlot q w a) :
    t.entries[a]? = some (Entry.pointer t.mode w.address) := by
  have hwrites : t.Writes q a (Entry.pointer t.mode w.address) := .pointer hslot
  exact (h.entry a _ hwrites.ne_zero).mpr ⟨q, hmem, hwrites⟩

/-! ## §3. From entries to pages. -/

/-- A slot that holds the leaf of a page is the slot of addresses that the page holds. -/
theorem holds_of_leafSlot (h : t.Filled pages done) (hu : t.Covers s u)
    (hslot : u.slot s = .ok a) (hleaf : t.LeafSlot q a) : t.mode.Holds q u.level s := by
  obtain ⟨r, w, hplace, hw, hslot'⟩ := hleaf
  obtain ⟨rfl, hpage⟩ := h.packed.slot_injective hw hu hslot' hslot
  exact ⟨r, hplace, hpage⟩

/-- A slot that points to a table is the slot of addresses that the table covers. -/
theorem refines_of_pointerSlot (h : t.Filled pages done) (hu : t.Covers s u)
    (hslot : u.slot s = .ok a) (hpointer : t.PointerSlot q w a) :
    t.mode.Refines q u.level s ∧ t.Covers s w ∧ w.level.depth = u.level.depth + 1 := by
  obtain ⟨k, r, x, hplace, hx, hw, hbelow, hle, hslot'⟩ := hpointer
  obtain ⟨rfl, hpage⟩ := h.packed.slot_injective hx hu hslot' hslot
  have hstart := (Mode.tableStart_eq_of_pageNumber (h.packed.level_mem x hx.mem)
    (h.packed.level_mem w hw.mem) hbelow).mpr hpage
  exact ⟨⟨k, r, hplace, by omega, hpage⟩, ⟨hw.mem, hw.start.trans hstart⟩, hbelow⟩

/-- No slot has both a leaf and a pointer. -/
theorem not_leaf_and_pointer (h : t.Filled pages done) (hq : q ∈ done) (hq' : q' ∈ done)
    (hleaf : t.LeafSlot q a) : ¬ t.PointerSlot q' w a := by
  intro hpointer
  have hpaged : t.mode.isPaged := by
    obtain ⟨s, u, hplace, -⟩ := hleaf
    exact hplace.isPaged
  -- the mark of a leaf is set in the one and not in the other
  have heq := (h.leaf_entry hq hleaf).symm.trans (h.pointer_entry hq' hpointer)
  have hmark := congrArg Entry.isLeaf (Option.some.inj heq)
  rw [Leaf.isLeaf_encode hpaged, Entry.isLeaf_pointer hpaged] at hmark
  cases hmark

/-! ## §4. One page, one level. -/

/-- There is a table of the page's level for the addresses that it holds. -/
theorem exists_covers (h : t.Filled pages done) (hmem : q ∈ done) (hq : t.mode.Holds q l s) :
    ∃ u, t.Covers s u ∧ u.level = l := by
  obtain ⟨r, hplace, hpage⟩ := hq
  obtain ⟨u, hu, rfl⟩ := h.reached q hmem l r hplace l hplace.level_mem (Nat.le_refl _)
  exact ⟨u, (h.packed.slot_congr hu hpage).1, rfl⟩

/-- A table has a slot for every source address, if the tables end within the address space. -/
theorem exists_slot (h : t.Filled pages done) (hfit : t.base.toNat + t.used ≤ Word.count)
    (hu : u ∈ t.tables) (s : Word) : ∃ a, u.slot s = .ok a :=
  h.packed.exists_slot hfit hu s

/-- Every page has a leaf. -/
theorem exists_leafSlot (h : t.Filled pages done) (hfit : t.base.toNat + t.used ≤ Word.count)
    (hmem : q ∈ done) : ∃ a, t.LeafSlot q a := by
  obtain ⟨l, s, hplace⟩ := h.located q hmem
  obtain ⟨u, hu, rfl⟩ := h.exists_covers hmem ⟨s, hplace, rfl⟩
  obtain ⟨a, hslot⟩ := h.exists_slot hfit hu.mem s
  exact ⟨a, s, u, hplace, hu, hslot⟩

/-- **Below a leaf there is no table**: a table that covers what a page holds is of the level of the
page's leaf or above. -/
theorem depth_le (h : t.Filled pages done) (hfit : t.base.toNat + t.used ≤ Word.count)
    (hmem : q ∈ done) (hq : t.mode.Holds q l s) (hu : t.Covers s u) :
    u.level.depth ≤ l.depth := by
  have hl : l ∈ t.mode.levels := by
    obtain ⟨r, hplace, -⟩ := hq
    exact hplace.level_mem
  rw [← Nat.not_lt]
  intro hlt
  -- the page that needs the table lies below the leaf's level, within the page of the leaf
  obtain ⟨q', hmem', k, r', hplace', hu', hle'⟩ := h.needed u hu.mem
  have hlevel := h.packed.level_mem u hu.mem
  obtain ⟨j, hj, hdepth⟩ := Mode.exists_level hlevel (Nat.sub_le u.level.depth 1)
  have hbelow : u.level.depth = j.depth + 1 := by omega
  have hpage : j.pageNumber r' = j.pageNumber s :=
    (Mode.tableStart_eq_of_pageNumber hj hlevel hbelow).mp (hu'.start.symm.trans hu.start)
  have hrefines : t.mode.Refines q' l s :=
    ⟨k, r', hplace', by omega, Mode.pageNumber_eq_of_le hl hj (by omega) hpage⟩
  -- so the table of the leaf's level would hold both in one slot
  obtain ⟨x, hx, rfl⟩ := h.exists_covers hmem hq
  obtain ⟨a, hslot⟩ := h.exists_slot hfit hx.mem s
  obtain ⟨w, -, -, hpointer⟩ := h.pointer_slot hmem' hx hrefines hslot
  exact h.not_leaf_and_pointer hmem hmem' (h.leaf_slot hx hq hslot) hpointer

/-- The pages that hold an address are of one level and have one entry. -/
theorem encode_eq (h : t.Filled pages done) (hfit : t.base.toNat + t.used ≤ Word.count)
    (hmem : q ∈ done) (hmem' : q' ∈ done) (hq : t.mode.Holds q l s) (hq' : t.mode.Holds q' k s) :
    l = k ∧ q.leaf.encode t.mode = q'.leaf.encode t.mode := by
  -- neither of the two leaves can lie below the other
  obtain ⟨u, hu, rfl⟩ := h.exists_covers hmem hq
  obtain ⟨w, hw, rfl⟩ := h.exists_covers hmem' hq'
  have hle := h.depth_le hfit hmem' hq' hu
  have hge := h.depth_le hfit hmem hq hw
  have hlevel := Mode.eq_of_depth_eq (h.packed.level_mem u hu.mem) (h.packed.level_mem w hw.mem)
    (by omega)
  obtain rfl := h.packed.eq_of_covers hu hw hlevel rfl
  obtain ⟨a, hslot⟩ := h.exists_slot hfit hu.mem s
  have heq := (h.leaf_entry hmem (h.leaf_slot hu hq hslot)).symm.trans
    (h.leaf_entry hmem' (h.leaf_slot hu hq' hslot))
  exact ⟨rfl, Option.some.inj heq⟩

/-! ## §5. Tables and the tables above them. -/

/-- A table of the first level covers every source address from zero on. -/
theorem start_of_depth_zero (h : t.Filled pages done) (hu : u ∈ t.tables)
    (hdepth : u.level.depth = 0) : u.start = 0 := by
  obtain ⟨q, -, l, r, hplace, hcover, -⟩ := h.needed u hu
  rw [hcover.start]
  exact Mode.tableStart_root (h.packed.level_mem u hu) hdepth hplace.source_lt

/-- Only the first table is a root. -/
theorem depth_pos_of_mem_tail (h : t.Filled pages done) {rest : List Table}
    (htables : t.tables = u :: rest) (hw : w ∈ rest) : 0 < w.level.depth := by
  have hu : u ∈ t.tables := htables ▸ List.mem_cons_self
  have hw' : w ∈ t.tables := htables ▸ List.mem_cons_of_mem _ hw
  have hroot := h.packed.root u (by rw [htables]; rfl)
  rw [Nat.pos_iff_ne_zero]
  intro hdepth
  -- two roots would be two tables of a level with one start
  have hlevel := Mode.eq_of_depth_eq (h.packed.level_mem u hu) (h.packed.level_mem w hw')
    (hroot.trans hdepth.symm)
  have hstart := (h.start_of_depth_zero hu hroot).trans (h.start_of_depth_zero hw' hdepth).symm
  have hdistinct := h.packed.distinct
  rw [htables, List.pairwise_cons] at hdistinct
  exact hdistinct.1 w hw ⟨hlevel, hstart⟩

/-- Every table but a root is pointed to, on the way to some page. -/
theorem exists_pointerSlot (h : t.Filled pages done) (hfit : t.base.toNat + t.used ≤ Word.count)
    (hw : w ∈ t.tables) (hdepth : 0 < w.level.depth) : ∃ q ∈ done, ∃ a, t.PointerSlot q w a := by
  obtain ⟨q, hmem, l, s, hplace, hcover, hle⟩ := h.needed w hw
  obtain ⟨k, hk, hparent⟩ := Mode.exists_level (h.packed.level_mem w hw)
    (show w.level.depth - 1 ≤ w.level.depth by omega)
  obtain ⟨u, hu, rfl⟩ := h.reached q hmem l s hplace k hk (by omega)
  obtain ⟨a, hslot⟩ := h.exists_slot hfit hu.mem s
  exact ⟨q, hmem, a, l, s, u, hplace, hu, hcover, by omega, hle, hslot⟩

/-- Tables start at pages. -/
theorem table_aligned (h : t.Filled pages done) (hu : u ∈ t.tables) :
    u.address.toNat % 4096 = 0 := by
  have hbytes : u.bytes % 4096 = 0 := Mode.tableBytes_mod (h.packed.level_mem u hu)
  exact Nat.mod_eq_zero_of_dvd (Nat.dvd_trans (Nat.dvd_of_mod_eq_zero hbytes)
    (Nat.dvd_of_mod_eq_zero (h.packed.aligned u hu)))

theorem table_lt (h : t.Filled pages done) (hreach : t.base.toNat + t.used ≤ Entry.reach)
    (hu : u ∈ t.tables) : u.address.toNat < Entry.reach := by
  have hbounds : u.address.toNat + u.bytes ≤ _ := (h.packed.packed.bounds hu).2
  have hpos := u.bytes_pos
  rw [← used_eq_total] at hbounds
  omega

/-- Pointers to tables within reach lead there. -/
theorem load_pointer (h : t.Filled pages done) (hm : t.mode.isPaged)
    (hreach : t.base.toNat + t.used ≤ Entry.reach) (hu : u ∈ t.tables) :
    Entry.load t.mode (Entry.pointer t.mode u.address) = u.address := by
  rw [← UInt64.toNat_inj, Entry.toNat_load_pointer hm (h.table_aligned hu),
    Nat.mod_eq_of_lt (h.table_lt hreach hu)]

end StageTables.Filled

end FirmwareMap
