/-
  FirmwareMap.Proofs.Tables.Fidelity
  ──────────────────────────────────
  **WHICH ADDRESSES SURVIVE IN THE ENTRIES.**

  No check of a map or of a region asks whether an address is within the reach
  of an entry.  What the entries keep of a destination, or of a table, is

      address mod 2^56

  so they keep every address exactly if all of these lie below 2^56, and a
  mapping beyond that is accepted, built, and leads elsewhere (`farImage`).
-/
import FirmwareMap.Proofs.Tables.Slots

namespace FirmwareMap

theorem PageSize.bytes_dvd_reach (size : PageSize) : size.bytes ∣ Entry.reach := by
  cases size <;> decide

namespace StageTables

variable {x : AddressMap} {p₁ p₂ : Platform} {stage : Stage} {pages : Nat} {t : StageTables}

/-! ## §1. What the entries record. -/

/-- The entries for the pages of a stage record the destinations of the pages and the addresses of
the tables, as far as `kept` tells. -/
structure Records (x : AddressMap) (stage : Stage) (t : StageTables) (kept : Nat → Nat) : Prop where
  /-- Each page has its leaf, whose frame is the destination of the page. -/
  leaves : ∀ m ∈ x.entries stage, ∀ v ∈ m.view?, ∀ i < m.block.count.toNat, ∃ a e leaf,
    t.LeafSlot (Mapping.page v m.block i) a ∧ t.entries[a]? = some e
      ∧ Leaf.decode? t.mode e = some leaf
      ∧ leaf.frame.toNat = kept (m.block.dest.toNat + i * m.block.page.bytes)
  /-- Each pointer on the way to a page tells the address of the next table. -/
  pointers : ∀ q ∈ x.pagesOf stage, ∀ w a, t.PointerSlot q w a → ∃ e,
    t.entries[a]? = some e ∧ Entry.isLeaf e = false ∧ Entry.isValid e = true
      ∧ (Entry.load t.mode e).toNat = kept w.address.toNat

/-- Entries record addresses up to their reach. -/
theorem records_mod (ha : x.AcceptedOn p₁) (h : t.Built x p₂ stage pages) :
    t.Records x stage (· % Entry.reach) where
  leaves m hm v hv i hi := by
    have hq : Mapping.page v m.block i ∈ x.pagesOf stage :=
      List.mem_flatMap.mpr ⟨m, hm, Mapping.mem_pageList.mpr ⟨v, hv, i, hi, rfl⟩⟩
    obtain ⟨a, hslot⟩ := h.filled.exists_leafSlot (h.fits ha) hq
    refine ⟨a, _, _, hslot, h.filled.leaf_entry hq hslot,
      Leaf.decode?_encode h.isPaged (ha.frame_mod hq), ?_⟩
    have hlt : Entry.reach ≤ Word.count := by decide
    have hmod := Nat.mod_lt (Mapping.page v m.block i).leaf.frame.toNat (twoPow_pos 56)
    rw [← (ha.bounded hm).toNat_frame (v := v) hi]
    exact Word.toNat_ofNat_of_lt (Nat.lt_of_lt_of_le hmod hlt)
  pointers q hq w a hslot := by
    have hw : w ∈ t.tables := by
      obtain ⟨l, s, u, -, -, hw, -⟩ := hslot
      exact hw.mem
    exact ⟨_, h.filled.pointer_entry hq hslot, Entry.isLeaf_pointer h.isPaged _,
      Entry.isValid_pointer h.isPaged _,
      Entry.toNat_load_pointer h.isPaged (h.filled.table_aligned hw)⟩

/-! ## §2. When they record the addresses themselves. -/

/-- The last page of a mapping whose destinations are recorded ends within reach. -/
theorem Records.dest_le (h : t.Records x stage id) (ha : x.AcceptedOn p₁) (hm : t.mode.isPaged)
    {m : Mapping} (hmem : m ∈ x.entries stage) (hview : m.view?.isSome) :
    m.destExtent.stop ≤ Entry.reach := by
  have hbounded := ha.bounded hmem
  obtain ⟨v, hv⟩ := Option.isSome_iff_exists.mp hview
  have hpos := hbounded.bytes_pos
  have hcount : 0 < m.block.count.toNat := Nat.pos_of_mul_pos_right hpos
  obtain ⟨n, hn⟩ : ∃ n, m.block.count.toNat = n + 1 := ⟨m.block.count.toNat - 1, by omega⟩
  obtain ⟨a, e, leaf, -, -, hdecode, hframe⟩ := h.leaves m hmem v hv n (by omega)
  have hlt := Entry.load_lt hm e
  rw [← Leaf.frame_of_decode? hdecode, hframe] at hlt
  -- the last page starts within reach; page sizes divide the reach, so it ends there too
  have hdvd : m.block.page.bytes ∣ m.block.dest.toNat + n * m.block.page.bytes :=
    Nat.dvd_add (Nat.dvd_of_mod_eq_zero hbounded.dest_aligned) (Nat.dvd_mul_left _ _)
  have hroom := add_le_of_dvd_of_lt hdvd m.block.page.bytes_dvd_reach hlt
  show m.block.dest.toNat + m.block.count.toNat * m.block.page.bytes ≤ Entry.reach
  rw [hn, Nat.succ_mul]
  omega

/-- The last of several tables that are recorded ends within reach. -/
theorem Records.tables_le (h : t.Records x stage id) (ha : x.AcceptedOn p₁)
    (hbuilt : t.Built x p₂ stage pages) (hlength : 1 < t.tables.length) :
    t.base.toNat + t.used ≤ Entry.reach := by
  have hfilled := hbuilt.filled
  -- split off the first and the last table
  obtain ⟨first, rest, htables⟩ := List.exists_cons_of_length_pos (Nat.lt_of_succ_lt hlength)
  have hrest : rest ≠ [] := by
    intro hnil
    rw [htables, hnil] at hlength
    exact absurd hlength (by simp)
  obtain ⟨init, last, rfl⟩ : ∃ init last, rest = init ++ [last] :=
    ⟨_, _, (List.dropLast_concat_getLast hrest).symm⟩
  have hmem : last ∈ t.tables := by simp [htables]
  have hdepth := hfilled.depth_pos_of_mem_tail htables (w := last) (by simp)
  obtain ⟨q, hq, a, hslot⟩ := hfilled.exists_pointerSlot (hbuilt.fits ha) hmem hdepth
  obtain ⟨e, -, -, -, hload⟩ := h.pointers q hq last a hslot
  have hlt := Entry.load_lt hbuilt.isPaged e
  rw [hload] at hlt
  -- the last table has 4096 bytes and starts at a multiple of them
  have hbytes : last.bytes = 4096 :=
    Mode.tableBytes_of_pos (hfilled.packed.level_mem last hmem) hdepth
  have hroom := add_le_of_dvd_of_lt (Nat.dvd_of_mod_eq_zero (hfilled.table_aligned hmem))
    (show 4096 ∣ Entry.reach by decide) hlt
  have hpacked := hfilled.packed.packed
  rw [htables, ← List.cons_append] at hpacked
  have haddress := hpacked.address_eq
  rw [used_eq_total, htables, ← List.cons_append, Table.total_append, Table.total_cons last,
    Table.total_nil, hbytes, Nat.add_zero, ← Nat.add_assoc, ← haddress]
  exact hroom

/-- **Entries record the addresses themselves exactly if all of these are within reach.** -/
theorem records_id_iff (ha : x.AcceptedOn p₁) (h : t.Built x p₂ stage pages) :
    t.Records x stage id
      ↔ (∀ m ∈ x.entries stage, m.view?.isSome → m.destExtent.stop ≤ Entry.reach)
        ∧ (1 < t.tables.length → t.base.toNat + t.used ≤ Entry.reach) := by
  constructor
  · intro hrecords
    exact ⟨fun m hm hview => hrecords.dest_le ha h.isPaged hm hview,
      fun hlength => hrecords.tables_le ha h hlength⟩
  · intro hgiven
    obtain ⟨hdest, htables⟩ := hgiven
    have hmod := records_mod ha h
    refine ⟨fun m hm v hv i hi => ?_, fun q hq w a hslot => ?_⟩
    · obtain ⟨a, e, leaf, hslot, hentry, hdecode, hframe⟩ := hmod.leaves m hm v hv i hi
      refine ⟨a, e, leaf, hslot, hentry, hdecode, hframe.trans (Nat.mod_eq_of_lt ?_)⟩
      have hstop : m.block.dest.toNat + m.block.bytes ≤ Entry.reach :=
        hdest m hm (Option.isSome_of_mem hv)
      have hroom := Mapping.Bounded.mul_add_le hi
      have hpos := m.block.page.bytes_pos
      omega
    · obtain ⟨e, hentry, hleaf, hvalid, hload⟩ := hmod.pointers q hq w a hslot
      refine ⟨e, hentry, hleaf, hvalid, hload.trans (Nat.mod_eq_of_lt ?_)⟩
      obtain ⟨l, s, u, -, hu, hw, hbelow, -⟩ := hslot
      refine h.filled.table_lt (htables ?_) hw.mem
      -- the table that points and the one that is pointed to are two
      rw [← Nat.not_le]
      intro hle
      rcases htables' : t.tables with _ | ⟨first, _ | ⟨second, rest⟩⟩
      · have := hu.mem
        rw [htables'] at this
        cases this
      · have hu' := hu.mem
        have hw' := hw.mem
        rw [htables', List.mem_singleton] at hu' hw'
        rw [hu', hw'] at hbelow
        omega
      · rw [htables'] at hle
        simp at hle

/-- **WHAT ENTRIES KEEP OF ADDRESSES**: the entries of tables that are built from an accepted map
record every destination and every table modulo their reach; they record the addresses themselves
exactly if the destinations of the stage's views, and the tables if there are several, end within
that reach. -/
theorem entries_keep_addresses_iff (ha : x.AcceptedOn p₁)
    (ht : (ofMap x p₂ stage pages).outcome = .ok t) :
    t.Records x stage (· % Entry.reach)
      ∧ (t.Records x stage id
        ↔ (∀ m ∈ x.entries stage, m.view?.isSome → m.destExtent.stop ≤ Entry.reach)
          ∧ (1 < t.tables.length → t.base.toNat + t.used ≤ Entry.reach)) :=
  ⟨records_mod ha (built_of_ofMap ht), records_id_iff ha (built_of_ofMap ht)⟩

open AddressMap in
/-- Of a map that is read from records no more is asked either: the entries keep the addresses that
the records give exactly if these lie within reach. -/
theorem entries_keep_addresses_of_ofRecords {partitions : List (Stage × List Record)}
    (hx : (ofRecords p₁ partitions).outcome = .ok x)
    (ht : (ofMap x p₂ stage pages).outcome = .ok t) :
    t.Records x stage (· % Entry.reach)
      ∧ (t.Records x stage id
        ↔ (∀ m ∈ x.entries stage, m.view?.isSome → m.destExtent.stop ≤ Entry.reach)
          ∧ (1 < t.tables.length → t.base.toNat + t.used ≤ Entry.reach)) :=
  have ha := acceptedOn_of_ofRecords hx
  ⟨records_mod ha (built_of_ofMap ht), records_id_iff ha (built_of_ofMap ht)⟩

open AddressMap in
/-- The small image lies within reach, and its entries record its addresses. -/
theorem smallImage_records : ∃ t, (ofMap (collect smallImage) threeLevels .s 8).outcome = .ok t
    ∧ t.Records (collect smallImage) .s id := by
  obtain ⟨t, ht, htables, -⟩ := smallImage_tables
  have hkept := entries_keep_addresses_iff ⟨_, smallImage_accepted⟩ ht
  exact ⟨t, ht, hkept.2.mpr ⟨by decide +kernel, fun _ => htables⟩⟩

/-! ## §3. A mapping beyond reach. -/

/-- One page of code at 2^60, and a region for tables. -/
def farImage : List (Stage × List Mapping) :=
  [(.s,
      [.translated ⟨.s, 0x80000000, .rx, false, true, none⟩ ⟨0x1000000000000000, .size4K, 1⟩ none
        [".text"],
       .direct .pa ⟨0x90000000, .size4K, 4⟩ none [".rodata.s_stage.pagetables"]])]

open AddressMap in
theorem farImage_accepted :
    (ofPartitions threeLevels farImage).outcome = .ok (collect farImage) :=
  Admissible.outcome_eq (by decide +kernel)

open AddressMap in
/-- **An accepted mapping is built and leads elsewhere**: the leaf of the page at 2^60 is read as
that of the page at zero. -/
theorem farImage_frame_lost :
    (ofPartitions threeLevels farImage).outcome = .ok (collect farImage)
      ∧ ∃ t, (ofMap (collect farImage) threeLevels .s 4).outcome = .ok t
          ∧ t.entries[(0x90002000 : Word)]? = some 0xcb
          ∧ (Leaf.decode? t.mode 0xcb).map (·.frame) = some 0
          ∧ ¬ t.Records (collect farImage) .s id := by
  have hrun : ((ofMap (collect farImage) threeLevels .s 4).outcome.toOption.any fun t =>
      decide (t.entries[(0x90002000 : Word)]? = some 0xcb
        ∧ (Leaf.decode? t.mode 0xcb).map (·.frame) = some 0)) = true := by
    decide +kernel
  obtain ⟨t, ht, hentry⟩ := exists_ok_of_any hrun
  obtain ⟨hstored, hdecode⟩ := of_decide_eq_true hentry
  refine ⟨farImage_accepted, t, ht, hstored, hdecode, fun hrecords => ?_⟩
  have hdest := ((records_id_iff ⟨_, farImage_accepted⟩ (built_of_ofMap ht)).mp hrecords).1
  have hbeyond : ¬ ∀ m ∈ (collect farImage).entries .s, m.view?.isSome →
      m.destExtent.stop ≤ Entry.reach := by decide +kernel
  exact hbeyond hdest

end StageTables

end FirmwareMap
