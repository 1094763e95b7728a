/-
  FirmwareMap.Proofs.Tables.Tree
  ──────────────────────────────
  **THE TABLES OF A STAGE ARE A TREE.**

  The list of tables, the entries and the count of bytes used are built up by
  different steps, but in the end they describe one tree: its root is the
  first table, every other table hangs from one entry of one table of the
  level above, and every leaf of it is one page.  Hence

      entries that are not zero  =  pages of the stage + tables - 1
-/
import FirmwareMap.Proofs.Tables.Slots

namespace FirmwareMap

/-! ## §1. Counting by distinct images. -/

/-- Where every element of a list has one image and no two share it, there are as many images as
elements. -/
theorem exists_nodup_images {α β : Type} {R : α → β → Prop} : ∀ {l : List α},
    (∀ a ∈ l, ∃ b, ∀ c, R a c ↔ c = b) → l.Pairwise (fun a a' => ∀ c, R a c → ¬ R a' c) →
    ∃ images : List β, images.Nodup ∧ images.length = l.length
      ∧ ∀ c, c ∈ images ↔ ∃ a ∈ l, R a c
  | [], _, _ => ⟨[], .nil, rfl, fun c => by simp⟩
  | a :: l, himage, hdistinct => by
    obtain ⟨b, hb⟩ := himage a List.mem_cons_self
    obtain ⟨hhead, htail⟩ := List.pairwise_cons.mp hdistinct
    obtain ⟨images, hnodup, hlength, hmem⟩ :=
      exists_nodup_images (fun a' ha' => himage a' (List.mem_cons_of_mem _ ha')) htail
    refine ⟨b :: images, List.nodup_cons.mpr ⟨fun hin => ?_, hnodup⟩, by simp [hlength],
      fun c => ?_⟩
    · obtain ⟨a', ha', hR⟩ := (hmem b).mp hin
      exact hhead a' ha' b ((hb b).mpr rfl) hR
    · rw [List.mem_cons, hmem, ← hb]
      simp only [List.mem_cons, or_and_right, exists_or, exists_eq_left]

namespace StageTables

variable {x : AddressMap} {p₁ p₂ : Platform} {stage : Stage} {pages : Nat} {t : StageTables}
  {u w : Table} {q q' : Page} {a b s : Word} {done : List Page}

/-! ## §2. Pointers. -/

/-- The entry at the address leads to the table. -/
def PointsTo (t : StageTables) (a : Word) (w : Table) : Prop :=
  ∃ e, t.entries[a]? = some e ∧ Entry.isLeaf e = false ∧ Entry.isValid e = true
    ∧ Entry.load t.mode e = w.address

/-- Tables at one address are one table. -/
theorem Packed.eq_of_address_eq (h : t.Packed pages) (hu : u ∈ t.tables) (hw : w ∈ t.tables)
    (haddress : u.address = w.address) : u = w := by
  have hpos := u.bytes_pos
  have hpos' := w.bytes_pos
  refine h.packed.eq_of_mem_extent (b := u.address.toNat) hu hw ?_ ?_
  · exact ⟨Nat.le_refl _, Nat.lt_add_of_pos_right hpos⟩
  · rw [haddress]
    exact ⟨Nat.le_refl _, Nat.lt_add_of_pos_right hpos'⟩

/-- A table is pointed to from the slot of its own start. -/
theorem PointerSlot.at_start (h : t.Packed pages) (hslot : t.PointerSlot q w a) :
    w ∈ t.tables ∧ ∃ u, t.Covers w.start u ∧ w.level.depth = u.level.depth + 1
      ∧ u.slot w.start = .ok a := by
  obtain ⟨l, s, u, -, hu, hw, hbelow, -, hslot⟩ := hslot
  -- the page and the start of the table lie in one table, so in one page of the level above
  have hstart : w.level.tableStart w.start = w.level.tableStart s := by
    rw [hw.start, Level.tableStart_tableStart]
  have hpage := (Mode.tableStart_eq_of_pageNumber (h.level_mem u hu.mem) (h.level_mem w hw.mem)
    hbelow).mp hstart
  obtain ⟨hcover, hsame⟩ := h.slot_congr hu hpage.symm
  exact ⟨hw.mem, u, hcover, hbelow, hsame.symm.trans hslot⟩

namespace Filled

/-- Within reach, an entry leads to a table exactly if it stands on the way to a page there. -/
theorem pointsTo_iff (h : t.Filled pages done) (hm : t.mode.isPaged)
    (hreach : t.base.toNat + t.used ≤ Entry.reach) (hw : w ∈ t.tables) :
    t.PointsTo a w ↔ ∃ q ∈ done, t.PointerSlot q w a := by
  constructor
  · intro hgiven
    obtain ⟨e, hentry, hleaf, hvalid, hload⟩ := hgiven
    obtain ⟨q, hq, hwrites⟩ := (h.entry a e (Entry.ne_zero_of_isValid hvalid)).mp hentry
    cases hwrites with
    | leaf _ =>
      rw [Leaf.isLeaf_encode hm] at hleaf
      cases hleaf
    | pointer hslot =>
      have hw' := (hslot.at_start h.packed).1
      rw [h.load_pointer hm hreach hw'] at hload
      exact ⟨q, hq, h.packed.eq_of_address_eq hw' hw hload ▸ hslot⟩
  · intro hgiven
    obtain ⟨q, hq, hslot⟩ := hgiven
    exact ⟨_, h.pointer_entry hq hslot, Entry.isLeaf_pointer hm _, Entry.isValid_pointer hm _,
      h.load_pointer hm hreach hw⟩

/-- **Every table but the root hangs from one entry**, the one for its start in the table of the
level above. -/
theorem exists_parent (h : t.Filled pages done) (hm : t.mode.isPaged)
    (hreach : t.base.toNat + t.used ≤ Entry.reach) (hw : w ∈ t.tables)
    (hdepth : 0 < w.level.depth) :
    ∃ u a, t.Covers w.start u ∧ w.level.depth = u.level.depth + 1 ∧ u.slot w.start = .ok a
      ∧ ∀ b, t.PointsTo b w ↔ b = a := by
  obtain ⟨q, hq, a, hslot⟩ := h.exists_pointerSlot (Entry.le_count hreach) hw hdepth
  obtain ⟨-, u, hu, hbelow, hat⟩ := hslot.at_start h.packed
  refine ⟨u, a, hu, hbelow, hat, fun b => ?_⟩
  rw [h.pointsTo_iff hm hreach hw]
  constructor
  · -- whichever page the entry is for, it is the slot of the start of `w`
    intro hgiven
    obtain ⟨q', -, hslot'⟩ := hgiven
    obtain ⟨-, u', hu', hbelow', hat'⟩ := hslot'.at_start h.packed
    have hlevel := Mode.eq_of_depth_eq (h.packed.level_mem u' hu'.mem)
      (h.packed.level_mem u hu.mem) (by omega)
    obtain rfl := h.packed.eq_of_covers hu' hu hlevel rfl
    exact Except.ok.inj (hat'.symm.trans hat)
  · intro hb
    rw [hb]
    exact ⟨q, hq, hslot⟩

/-! ## §3. Leaves. -/

/-- A page has one leaf. -/
theorem leafSlot_unique (h : t.Filled pages done) (ha : t.LeafSlot q a) (hb : t.LeafSlot q b) :
    a = b := by
  obtain ⟨s, u, hplace, hu, hslot⟩ := ha
  obtain ⟨r, w, hplace', hw, hslot'⟩ := hb
  obtain ⟨hlevel, rfl⟩ := hplace.unique hplace'
  obtain rfl := h.packed.eq_of_covers hu hw hlevel rfl
  exact Except.ok.inj (hslot.symm.trans hslot')

end Filled

/-! ## §4. Entries that are not zero. -/

/-- The addresses of the entries that are not zero. -/
def nonzero (t : StageTables) : List Word :=
  (t.entries.toList.filter fun e => e.2 ≠ 0).map Prod.fst

theorem nodup_nonzero (t : StageTables) : t.nonzero.Nodup := by
  have hkeys : (t.entries.toList.map Prod.fst).Nodup := by
    rw [Std.TreeMap.map_fst_toList_eq_keys]
    exact Std.TreeMap.nodup_keys
  exact List.Nodup.sublist (List.Sublist.map _ List.filter_sublist) hkeys

theorem mem_nonzero : a ∈ t.nonzero ↔ ∃ e, e ≠ 0 ∧ t.entries[a]? = some e := by
  simp only [nonzero, List.mem_map, List.mem_filter, decide_eq_true_eq, Prod.exists,
    Std.TreeMap.mem_toList_iff_getElem?_eq_some]
  constructor
  · intro h
    obtain ⟨b, e, ⟨hentry, hne⟩, rfl⟩ := h
    exact ⟨e, hne, hentry⟩
  · intro h
    obtain ⟨e, hne, hentry⟩ := h
    exact ⟨a, e, ⟨hentry, hne⟩, rfl⟩

namespace Filled

/-- The tables after the first are those below the root. -/
theorem mem_tail_iff (h : t.Filled pages done) :
    w ∈ t.tables.tail ↔ w ∈ t.tables ∧ 0 < w.level.depth := by
  rcases htables : t.tables with _ | ⟨root, rest⟩
  · simp
  · have hroot := h.packed.root root (by rw [htables]; rfl)
    rw [List.tail_cons, List.mem_cons]
    constructor
    · intro hw
      exact ⟨.inr hw, h.depth_pos_of_mem_tail htables hw⟩
    · intro hgiven
      obtain ⟨rfl | hw, hdepth⟩ := hgiven
      · omega
      · exact hw

/-- One address for each table but the root. -/
theorem exists_pointers (h : t.Filled pages done) (hm : t.mode.isPaged)
    (hreach : t.base.toNat + t.used ≤ Entry.reach) :
    ∃ pointers : List Word, pointers.Nodup ∧ pointers.length = t.tables.length - 1
      ∧ ∀ a, a ∈ pointers ↔ ∃ w ∈ t.tables, 0 < w.level.depth ∧ t.PointsTo a w := by
  have himage : ∀ w ∈ t.tables.tail, ∃ a, ∀ b, t.PointsTo b w ↔ b = a := by
    intro w hw
    obtain ⟨hmem, hdepth⟩ := h.mem_tail_iff.mp hw
    obtain ⟨u, a, -, -, -, ha⟩ := h.exists_parent hm hreach hmem hdepth
    exact ⟨a, ha⟩
  have hdistinct : t.tables.tail.Pairwise fun u w => ∀ a, t.PointsTo a u → ¬ t.PointsTo a w := by
    refine (h.packed.packed.pairwise.sublist (List.tail_sublist _)).imp ?_
    intro u w hstop a hu hw
    obtain ⟨e, hentry, -, -, hload⟩ := hu
    obtain ⟨e', hentry', -, -, hload'⟩ := hw
    -- one entry leads to one address, and the tables are apart
    obtain rfl := Option.some.inj (hentry.symm.trans hentry')
    have haddress := congrArg UInt64.toNat (hload.symm.trans hload')
    have hpos := u.bytes_pos
    simp only [Table.extent, Extent.stop] at hstop
    omega
  obtain ⟨pointers, hnodup, hlength, hmem⟩ := exists_nodup_images himage hdistinct
  refine ⟨pointers, hnodup, by rw [hlength, List.length_tail], fun a => ?_⟩
  rw [hmem]
  simp only [h.mem_tail_iff, and_assoc]

/-- One address for each page. -/
theorem exists_leaves (h : t.Filled pages done) (hfit : t.base.toNat + t.used ≤ Word.count)
    (haligned : ∀ q ∈ done, q.source.toNat % q.size.bytes = 0)
    (hdisjoint : done.Pairwise fun q r => q.extent.Disjoint r.extent) :
    ∃ leaves : List Word, leaves.Nodup ∧ leaves.length = done.length
      ∧ ∀ a, a ∈ leaves ↔ ∃ q ∈ done, t.LeafSlot q a := by
  refine exists_nodup_images (fun q hq => ?_)
    (hdisjoint.imp_of_mem fun {q r} hq hr hqr a ha hb => ?_)
  · obtain ⟨a, hself⟩ := h.exists_leafSlot hfit hq
    exact ⟨a, fun b => ⟨fun hb => h.leafSlot_unique hb hself, fun hb => hb ▸ hself⟩⟩
  · exact hqr.not_mem q.source_mem_extent (h.packed.mem_extent_of_leafSlot (haligned r hr) ha hb)

/-- An entry that is not zero is the leaf of a page or leads to a table below the root. -/
theorem entry_cases (h : t.Filled pages done) (hm : t.mode.isPaged)
    (hreach : t.base.toNat + t.used ≤ Entry.reach) {e : Word} (hne : e ≠ 0)
    (hentry : t.entries[a]? = some e) :
    (Entry.isLeaf e = true ∧ ∃ q ∈ done, t.LeafSlot q a ∧ e = q.leaf.encode t.mode)
      ∨ (Entry.isLeaf e = false ∧ ∃ w ∈ t.tables, 0 < w.level.depth ∧ t.PointsTo a w) := by
  obtain ⟨q, hq, hwrites⟩ := (h.entry a e hne).mp hentry
  cases hwrites with
  | leaf hslot => exact .inl ⟨Leaf.isLeaf_encode hm _, q, hq, hslot, rfl⟩
  | pointer hslot =>
    obtain ⟨hw, u, -, hbelow, -⟩ := hslot.at_start h.packed
    exact .inr ⟨Entry.isLeaf_pointer hm _, _, hw, by omega,
      (h.pointsTo_iff hm hreach hw).mpr ⟨q, hq, hslot⟩⟩

/-- **One entry for each page, and one for each table but the root.** -/
theorem length_nonzero (h : t.Filled pages done) (hm : t.mode.isPaged)
    (hreach : t.base.toNat + t.used ≤ Entry.reach)
    (haligned : ∀ q ∈ done, q.source.toNat % q.size.bytes = 0)
    (hdisjoint : done.Pairwise fun q r => q.extent.Disjoint r.extent) :
    t.nonzero.length = done.length + (t.tables.length - 1) := by
  obtain ⟨leaves, hleaves, hlength, hleaf⟩ :=
    h.exists_leaves (Entry.le_count hreach) haligned hdisjoint
  obtain ⟨pointers, hpointers, hlength', hpointer⟩ := h.exists_pointers hm hreach
  -- an entry is marked as a leaf or it is not, so the two lists have nothing in common
  have hapart : (leaves ++ pointers).Nodup := by
    refine List.nodup_append.mpr ⟨hleaves, hpointers, fun a ha b hb hab => ?_⟩
    obtain ⟨q, hq, hslot⟩ := (hleaf a).mp ha
    obtain ⟨w, -, -, e, hentry, hmark, -⟩ := (hpointer b).mp hb
    rw [← hab, h.leaf_entry hq hslot, Option.some.injEq] at hentry
    rw [← hentry, Leaf.isLeaf_encode hm] at hmark
    cases hmark
  -- both lists hold the addresses of the entries that are not zero, each once
  have hperm : t.nonzero.Perm (leaves ++ pointers) := by
    refine (List.perm_ext_iff_of_nodup t.nodup_nonzero hapart).mpr fun a => ?_
    rw [mem_nonzero, List.mem_append, hleaf, hpointer]
    constructor
    · intro hgiven
      obtain ⟨e, hne, hentry⟩ := hgiven
      rcases h.entry_cases hm hreach hne hentry with ⟨-, q, hq, hslot, -⟩ | ⟨-, hw⟩
      · exact .inl ⟨q, hq, hslot⟩
      · exact .inr hw
    · intro hgiven
      rcases hgiven with ⟨q, hq, hslot⟩ | ⟨w, -, -, e, hentry, -, hvalid, -⟩
      · exact ⟨_, Leaf.encode_ne_zero hm _, h.leaf_entry hq hslot⟩
      · exact ⟨e, Entry.ne_zero_of_isValid hvalid, hentry⟩
  rw [hperm.length_eq, List.length_append, hlength, hlength']

end Filled

/-! ## §5. The tree. -/

/-- The tables of a stage are a tree with the pages of the stage's mappings for leaves. -/
structure IsTree (x : AddressMap) (stage : Stage) (pages : Nat) (t : StageTables) : Prop where
  /-- A table stands after all those that were allocated before it. -/
  address : ∀ before u after, t.tables = before ++ u :: after →
    u.address.toNat = t.base.toNat + Table.total before
  /-- The bytes used are those of the tables. -/
  used : t.used = Table.total t.tables
  /-- The tables fit the budget. -/
  within : t.used ≤ pages * budgetPageBytes
  /-- The root comes first, and nothing else is a root. -/
  root : ∀ (i : Nat) (u : Table), t.tables[i]? = some u → (u.level.depth = 0 ↔ i = 0)
  /-- No two tables of a level start at one source address. -/
  distinct : t.tables.Pairwise fun u w => ¬ (u.level.depth = w.level.depth ∧ u.start = w.start)
  /-- What a table covers starts at a multiple of its size. -/
  aligned : ∀ u ∈ t.tables, u.start.toNat % u.level.span = 0
  /-- No two tables of a level cover one source address. -/
  disjoint : t.tables.Pairwise fun u w =>
    u.level.depth = w.level.depth → u.coverage.Disjoint w.coverage
  /-- Every entry stands in one table, at a multiple of its bytes. -/
  key : ∀ a ∈ t.entries, a.toNat % entryBytes = 0
    ∧ ∃ u ∈ t.tables, u.IsSlot a ∧ ∀ w ∈ t.tables, a.toNat ∈ w.extent → w = u
  /-- Every table but the root hangs from one entry, at the index of its start in the table of the
  level above that covers its start. -/
  parent : ∀ w ∈ t.tables, 0 < w.level.depth → ∃ u ∈ t.tables, ∃ a,
    w.level.depth = u.level.depth + 1 ∧ w.start.toNat ∈ u.coverage ∧ u.slot w.start = .ok a
      ∧ ∀ b, t.PointsTo b w ↔ b = a
  /-- Every entry that is not zero leads to such a table, or is the leaf of one page of one
  mapping. -/
  entry : ∀ a e, t.entries[a]? = some e → e ≠ 0 →
    (Entry.isLeaf e = false ∧ ∃ w ∈ t.tables, 0 < w.level.depth ∧ t.PointsTo a w)
      ∨ (Entry.isLeaf e = true ∧ ∃ i j q, x.pageOf? stage i j = some q ∧ t.LeafSlot q a
          ∧ e = q.leaf.encode t.mode
          ∧ ∀ i' j' q', x.pageOf? stage i' j' = some q' → t.LeafSlot q' a → i' = i ∧ j' = j)
  /-- There is one such entry for each page and one for each table but the root. -/
  count : t.nonzero.length = AddressMap.pageTotal (x.entries stage) + (t.tables.length - 1)

namespace Filled

/-- Only the first table is a root. -/
theorem depth_eq_zero_iff (h : t.Filled pages done) {i : Nat} (hu : t.tables[i]? = some u) :
    u.level.depth = 0 ↔ i = 0 := by
  constructor
  · intro hdepth
    rcases i with _ | i
    · rfl
    · have htail : u ∈ t.tables.tail := List.mem_of_getElem? (by rw [List.getElem?_tail]; exact hu)
      have := (h.mem_tail_iff.mp htail).2
      omega
  · intro hi
    rw [hi] at hu
    exact h.packed.root u (by rw [List.head?_eq_getElem?]; exact hu)

theorem start_mod_span (h : t.Filled pages done) (hu : u ∈ t.tables) :
    u.start.toNat % u.level.span = 0 := by
  obtain ⟨q, -, l, s, -, hcover, -⟩ := h.needed u hu
  rw [hcover.start]
  exact Level.tableStart_mod_span _ _

/-- Tables of a level cover different source addresses. -/
theorem coverage_disjoint (h : t.Filled pages done) (hu : u ∈ t.tables) (hw : w ∈ t.tables)
    (hdistinct : ¬ (u.level = w.level ∧ u.start = w.start))
    (hdepth : u.level.depth = w.level.depth) : u.coverage.Disjoint w.coverage := by
  have hlevel := Mode.eq_of_depth_eq (h.packed.level_mem u hu) (h.packed.level_mem w hw) hdepth
  have hstart : u.start.toNat ≠ w.start.toNat := fun heq =>
    hdistinct ⟨hlevel, UInt64.toNat_inj.mp heq⟩
  -- multiples of the span that differ are at least one span apart
  have hdvd := Nat.dvd_of_mod_eq_zero (h.start_mod_span hu)
  have hdvd' := Nat.dvd_of_mod_eq_zero (h.start_mod_span hw)
  rw [← hlevel] at hdvd'
  show u.start.toNat + u.level.span ≤ w.start.toNat ∨ w.start.toNat + w.level.span ≤ u.start.toNat
  rw [← hlevel]
  rcases Nat.lt_or_gt_of_ne hstart with hlt | hlt
  · exact .inl (add_le_of_dvd_of_lt hdvd hdvd' hlt)
  · exact .inr (add_le_of_dvd_of_lt hdvd' hdvd hlt)

/-- Every entry stands in one table. -/
theorem key_spec (h : t.Filled pages done) (ha : a ∈ t.entries) :
    a.toNat % entryBytes = 0
      ∧ ∃ u ∈ t.tables, u.IsSlot a ∧ ∀ w ∈ t.tables, a.toNat ∈ w.extent → w = u := by
  obtain ⟨e, hentry⟩ : ∃ e, t.entries[a]? = some e :=
    Option.isSome_iff_exists.mp (Std.TreeMap.mem_iff_isSome_getElem?.mp ha)
  obtain ⟨u, hu, hslot⟩ : ∃ u ∈ t.tables, u.IsSlot a := by
    by_cases hzero : e = 0
    · exact h.blank a (hzero ▸ hentry)
    · obtain ⟨q, -, hwrites⟩ := (h.entry a e hzero).mp hentry
      exact hwrites.isSlot
  refine ⟨?_, u, hu, hslot, fun w hw hmem => ?_⟩
  · have haligned := h.table_aligned hu
    have hle : u.address.toNat ≤ a.toNat := hslot.start_le
    have hwhole : (a.toNat - u.address.toNat) % 8 = 0 := hslot.whole
    show a.toNat % 8 = 0
    omega
  · exact h.packed.packed.eq_of_mem_extent hw hu hmem hslot.mem_extent

end Filled

/-- **THE TABLES OF A STAGE ARE A TREE**, if they are built from an accepted map within the reach of
their entries. -/
theorem ofMap_isTree (ha : x.AcceptedOn p₁) (ht : (ofMap x p₂ stage pages).outcome = .ok t)
    (hreach : t.base.toNat + t.used ≤ Entry.reach) : t.IsTree x stage pages := by
  have hbuilt := built_of_ofMap ht
  have h := hbuilt.filled
  have hm := hbuilt.isPaged
  have haligned := fun q hq => (ha.page_aligned (q := q) (t := stage) hq).1
  exact {
    address := fun before u after htables => by
      have hpacked := h.packed.packed
      rw [htables] at hpacked
      exact hpacked.address_eq
    used := used_eq_total t
    within := h.packed.within
    root := fun i u hu => h.depth_eq_zero_iff hu
    distinct := h.packed.distinct.imp_of_mem fun {u w} hu hw hne hsame =>
      hne ⟨Mode.eq_of_depth_eq (h.packed.level_mem u hu) (h.packed.level_mem w hw) hsame.1, hsame.2⟩
    aligned := fun u hu => h.start_mod_span hu
    disjoint := h.packed.distinct.imp_of_mem fun hu hw hne hdepth =>
      h.coverage_disjoint hu hw hne hdepth
    key := fun a hkey => h.key_spec hkey
    parent := fun w hw hdepth => by
      obtain ⟨u, a, hu, hbelow, hslot, hpoints⟩ := h.exists_parent hm hreach hw hdepth
      exact ⟨u, hu.mem, a, hbelow, hu.mem_coverage, hslot, hpoints⟩
    entry := fun a e hentry hne => by
      rcases h.entry_cases hm hreach hne hentry with ⟨hleaf, q, hq, hslot, he⟩ | hpointer
      · obtain ⟨i, j, hij⟩ := AddressMap.mem_pagesOf_iff.mp hq
        refine .inr ⟨hleaf, i, j, q, hij, hslot, he, fun i' j' q' hij' hslot' => ?_⟩
        -- pages with one leaf share their first address, and no two pages share any
        have hmem := h.packed.mem_extent_of_leafSlot (haligned q hq) hslot' hslot
        exact ha.pageOf?_unique hij' hij q'.source_mem_extent hmem
      · exact .inl hpointer
    count := by
      rw [h.length_nonzero hm hreach haligned (ha.pagesOf_disjoint stage), AddressMap.pagesOf,
        AddressMap.length_flatMap_pageList] }

open AddressMap in
/-- The six tables of the small image hold nine entries that are not zero: four leaves and five
pointers. -/
theorem smallImage_isTree : ∃ t, (ofMap (collect smallImage) threeLevels .s 8).outcome = .ok t
    ∧ t.IsTree (collect smallImage) .s 8 ∧ t.nonzero.length = 9 := by
  obtain ⟨t, ht, htables, hlength⟩ := smallImage_tables
  have htree := ofMap_isTree ⟨_, smallImage_accepted⟩ ht htables
  refine ⟨t, ht, htree, ?_⟩
  rw [htree.count, hlength]
  decide +kernel

end StageTables

end FirmwareMap
