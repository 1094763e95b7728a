/-
  FirmwareMap.Proofs.Tables.Packing
  ─────────────────────────────────
  **HOW TABLES LIE IN THEIR REGION.**

  Tables are allocated one after the other, so none shares a byte with
  another, and the address of a slot tells both its table and the place in it:

      slot of u for s  =  slot of w for r
          →  u = w  and  s, r lie in the same page of u's level

  Allocating the tables for a source address keeps this up (`reach_spec`):
  tables are added at the end, and only where none was.
-/
import FirmwareMap.Proofs.Address.Disjoint
import FirmwareMap.Proofs.Paging.Levels
import FirmwareMap.Proofs.Report.Sequence
import FirmwareMap.Tables.Fill

namespace FirmwareMap

/-! ## §1. Slots. -/

namespace Table

variable {u w : Table} {a s : Word}

theorem slotAt_eq_ok_iff {l : Level} {address : Word} :
    slotAt l address s = .ok a
      ↔ a.toNat = address.toNat + (l.index.extract s).toNat * entryBytes := by
  rw [slotAt, demand_eq_ok_iff, Word.ofNat?_eq_some_iff]
  exact eq_comm

/-- The index of an address leaves room for an entry. -/
theorem index_add_le (l : Level) (s : Word) :
    (l.index.extract s).toNat * entryBytes + entryBytes ≤ l.tableBytes := by
  have hlt : (l.index.extract s).toNat < l.entries := l.index.extract_lt s
  rw [Level.tableBytes, ← Nat.succ_mul, Nat.mul_comm entryBytes]
  exact Nat.mul_le_mul_right _ hlt

/-- A slot stands at the index of the source address; that it lies in the table needs no check. -/
theorem slot_eq_ok_iff :
    u.slot s = .ok a
      ↔ a.toNat = u.address.toNat + (u.level.index.extract s).toNat * entryBytes := by
  have hroom := index_add_le u.level s
  rw [slot, bind_eq_ok_iff]
  simp only [slotAt_eq_ok_iff, require_bind_eq_ok_iff, pure, Except.pure, Except.ok.injEq]
  constructor
  · intro h
    obtain ⟨b, hb, -, rfl⟩ := h
    exact hb
  · intro ha
    refine ⟨a, ha, ?_, rfl⟩
    show a.toNat + entryBytes ≤ u.address.toNat + u.level.tableBytes
    omega

/-- An address is that of an entry of the table. -/
structure IsSlot (u : Table) (a : Word) : Prop where
  /-- The entry starts in the table. -/
  start_le : u.extent.start ≤ a.toNat
  /-- The entry ends in the table. -/
  le_stop : a.toNat + entryBytes ≤ u.extent.stop
  /-- The entry is a whole number of entries from the start. -/
  whole : (a.toNat - u.extent.start) % entryBytes = 0

theorem isSlot_of_slot (h : u.slot s = .ok a) : u.IsSlot a := by
  have hroom := index_add_le u.level s
  rw [slot_eq_ok_iff] at h
  refine ⟨?_, ?_, ?_⟩
  · show u.address.toNat ≤ a.toNat
    omega
  · show a.toNat + entryBytes ≤ u.address.toNat + u.level.tableBytes
    omega
  · show (a.toNat - u.address.toNat) % entryBytes = 0
    rw [h, Nat.add_sub_cancel_left, Nat.mul_mod_left]

theorem IsSlot.mem_extent (h : u.IsSlot a) : a.toNat ∈ u.extent := by
  have := h.le_stop
  have hpos : 0 < entryBytes := by decide
  exact ⟨h.start_le, by omega⟩

/-! ## §2. Tables one after the other. -/

/-- The tables follow each other from `n` on. -/
def PackedFrom (n : Nat) : List Table → Prop
  | [] => True
  | u :: rest => u.address.toNat = n ∧ PackedFrom (n + u.bytes) rest

/-- The bytes of some tables. -/
def total (l : List Table) : Nat :=
  l.foldr (fun u n => u.bytes + n) 0

@[simp] theorem total_nil : total [] = 0 := rfl

@[simp] theorem total_cons (u : Table) (l : List Table) : total (u :: l) = u.bytes + total l := rfl

@[simp] theorem total_append (l k : List Table) : total (l ++ k) = total l + total k := by
  induction l with
  | nil => rw [List.nil_append, total_nil, Nat.zero_add]
  | cons u l ih => rw [List.cons_append, total_cons, total_cons, ih, Nat.add_assoc]

theorem bytes_pos (u : Table) : 0 < u.bytes :=
  u.level.tableBytes_pos

theorem packedFrom_append : ∀ {l k : List Table} {n : Nat},
    PackedFrom n (l ++ k) ↔ PackedFrom n l ∧ PackedFrom (n + total l) k
  | [], k, n => by simp [PackedFrom]
  | u :: l, k, n => by
    rw [List.cons_append, PackedFrom, PackedFrom, packedFrom_append, total_cons, and_assoc,
      Nat.add_assoc]

namespace PackedFrom

variable {l before after : List Table} {n : Nat}

/-- A table starts where those before it end. -/
theorem address_eq (h : PackedFrom n (before ++ u :: after)) :
    u.address.toNat = n + total before :=
  (packedFrom_append.mp h).2.1

/-- The tables lie between where they start and where they end together. -/
theorem bounds (h : PackedFrom n l) (hu : u ∈ l) :
    n ≤ u.extent.start ∧ u.extent.stop ≤ n + total l := by
  obtain ⟨before, after, rfl⟩ := List.append_of_mem hu
  have haddress := h.address_eq
  rw [total_append, total_cons]
  show n ≤ u.address.toNat ∧ u.address.toNat + u.bytes ≤ _
  omega

/-- Each table ends before the later ones start. -/
theorem pairwise : ∀ {l : List Table} {n : Nat}, PackedFrom n l →
    l.Pairwise fun u w => u.extent.stop ≤ w.extent.start
  | [], _, _ => .nil
  | u :: l, n, ⟨hu, hl⟩ => by
    refine List.pairwise_cons.mpr ⟨fun w hw => ?_, hl.pairwise⟩
    have := (hl.bounds hw).1
    show u.address.toNat + u.bytes ≤ w.extent.start
    omega

/-- A byte belongs to one table. -/
theorem eq_of_mem_extent (h : PackedFrom n l) (hu : u ∈ l) (hw : w ∈ l) {b : Nat}
    (hub : b ∈ u.extent) (hwb : b ∈ w.extent) : u = w := by
  obtain ⟨hu₁, hu₂⟩ := hub
  obtain ⟨hw₁, hw₂⟩ := hwb
  rcases eq_or_rel_of_pairwise h.pairwise hu hw with heq | hlt | hlt
  · exact heq
  · omega
  · omega

end PackedFrom

end Table

/-! ## §3. The tables of a stage. -/

namespace StageTables

open Table (total PackedFrom)

variable {t t' : StageTables} {u w : Table} {a s r : Word} {pages : Nat}

theorem used_eq_total (t : StageTables) : t.used = total t.tables := rfl

theorem used_pos (h : t.tables ≠ []) : 0 < t.used := by
  obtain ⟨u, rest, htables⟩ := List.exists_cons_of_ne_nil h
  rw [used_eq_total, htables, Table.total_cons]
  exact Nat.add_pos_left u.bytes_pos _

/-- The table of its level for a source address. -/
structure Covers (t : StageTables) (s : Word) (u : Table) : Prop where
  /-- The table is one of the stage. -/
  mem : u ∈ t.tables
  /-- The table starts where the one for the source address does. -/
  start : u.start = u.level.tableStart s

/-- A table covers the addresses of which it is the table. -/
theorem Covers.mem_coverage (h : t.Covers s u) : s.toNat ∈ u.coverage := by
  have hle := u.level.tableStart_le s
  have hlt := u.level.lt_tableStart_add_span s
  rw [← h.start] at hle hlt
  exact ⟨hle, hlt⟩

/-- The tables lie one after the other in a budget of so many pages, the root first, each aligned
and the only one for its source addresses. -/
structure Packed (pages : Nat) (t : StageTables) : Prop where
  /-- The levels are those of the mode. -/
  level_mem : ∀ u ∈ t.tables, u.level ∈ t.mode.levels
  /-- The tables follow each other from the base. -/
  packed : PackedFrom t.base.toNat t.tables
  /-- Each table starts at a multiple of its bytes. -/
  aligned : ∀ u ∈ t.tables, u.address.toNat % u.bytes = 0
  /-- No two tables of a level cover the same source addresses. -/
  distinct : t.tables.Pairwise fun u w => ¬ (u.level = w.level ∧ u.start = w.start)
  /-- The first table is a root. -/
  root : ∀ u ∈ t.tables.head?, u.level.depth = 0
  /-- The tables fit the budget. -/
  within : t.used ≤ pages * budgetPageBytes

namespace Packed

/-- A source address has one table of a level. -/
theorem eq_of_covers (h : t.Packed pages) (hu : t.Covers s u) (hw : t.Covers r w)
    (hlevel : u.level = w.level) (hstart : u.level.tableStart s = u.level.tableStart r) :
    u = w := by
  have hsame : u.start = w.start := by rw [hu.start, hw.start, hstart, hlevel]
  rcases eq_or_rel_of_pairwise h.distinct hu.mem hw.mem with heq | hne | hne
  · exact heq
  · exact absurd ⟨hlevel, hsame⟩ hne
  · exact absurd ⟨hlevel.symm, hsame.symm⟩ hne

/-- **A slot tells its table and the page of its level that it is for.** -/
theorem slot_injective (h : t.Packed pages) (hu : t.Covers s u) (hw : t.Covers r w)
    (hs : u.slot s = .ok a) (hr : w.slot r = .ok a) :
    u = w ∧ u.level.pageNumber s = u.level.pageNumber r := by
  -- the slot lies in both tables, and no two tables share a byte
  have heq : u = w := h.packed.eq_of_mem_extent hu.mem hw.mem
    (Table.isSlot_of_slot hs).mem_extent (Table.isSlot_of_slot hr).mem_extent
  subst heq
  rw [Table.slot_eq_ok_iff] at hs hr
  -- with the table, the place in it is the same too: that is the index, and with the start of the
  -- table the index gives the page
  have hpos : 0 < entryBytes := by decide
  have hindex : (u.level.index.extract s).toNat = (u.level.index.extract r).toNat :=
    Nat.eq_of_mul_eq_mul_right hpos (by omega)
  exact ⟨rfl, (Mode.pageNumber_eq_iff (h.level_mem u hu.mem)).mpr
    ⟨hu.start.symm.trans hw.start, hindex⟩⟩

/-- Addresses that share a page of a table's level share a slot of the table. -/
theorem slot_congr (h : t.Packed pages) (hu : t.Covers s u)
    (hpage : u.level.pageNumber s = u.level.pageNumber r) :
    t.Covers r u ∧ u.slot s = u.slot r := by
  obtain ⟨hstart, hindex⟩ := (Mode.pageNumber_eq_iff (h.level_mem u hu.mem)).mp hpage
  refine ⟨⟨hu.mem, hu.start.trans hstart⟩, ?_⟩
  rw [Table.slot, Table.slot, Table.slotAt, Table.slotAt, hindex]

end Packed

/-! ## §4. Allocation. -/

/-- Allocation succeeds where the budget has room and the next address is aligned. -/
theorem allocate_eq_ok_iff {l : Level} :
    (t.allocate pages l s).outcome = .ok (t', u)
      ↔ t.used + l.tableBytes ≤ pages * budgetPageBytes
        ∧ u.level = l ∧ u.start = l.tableStart s ∧ u.address.toNat = t.base.toNat + t.used
        ∧ u.address.toNat % l.tableBytes = 0 ∧ t' = { t with tables := t.tables ++ [u] } := by
  unfold allocate
  simp only [Run.bind_outcome_eq_ok_iff, Run.liftRefusal_eq_ok_iff, Run.liftFault_eq_ok_iff,
    Run.pure_outcome_eq_ok_iff, Run.outcome_report, require_eq_ok_iff, demand_eq_ok_iff,
    Word.ofNat?_eq_some_iff, Prod.mk.injEq]
  constructor
  · intro h
    obtain ⟨-, hfits, address, haddress, -, halign, -, -, rfl, rfl⟩ := h
    exact ⟨hfits, rfl, rfl, haddress.symm, halign, rfl⟩
  · intro h
    obtain ⟨hfits, hlevel, hstart, haddress, halign, rfl⟩ := h
    have hu : (⟨l, u.address, l.tableStart s⟩ : Table) = u := by
      rw [← hstart, ← hlevel]
    exact ⟨(), hfits, u.address, haddress.symm, (), halign, (), trivial, by rw [hu], hu⟩

theorem tableAt?_eq_some {l : Level} (h : t.tableAt? l s = some u) :
    u ∈ t.tables ∧ u.level = l ∧ u.start = l.tableStart s := by
  have hfound := List.find?_some h
  rw [decide_eq_true_iff] at hfound
  exact ⟨List.mem_of_find?_eq_some h, hfound.2, hfound.1⟩

theorem tableAt?_eq_none {l : Level} (h : t.tableAt? l s = none) :
    ∀ u ∈ t.tables, ¬ (u.level = l ∧ u.start = l.tableStart s) := by
  intro u hu ⟨hlevel, hstart⟩
  have := List.find?_eq_none.mp h u hu
  rw [decide_eq_true_iff] at this
  exact this ⟨hstart, hlevel⟩

/-- One more table, where there was none, keeps the tables packed. -/
theorem Packed.allocate {l : Level} (h : t.Packed pages) (hl : l ∈ t.mode.levels)
    (hroot : l.depth = 0 ∨ t.tables ≠ []) (hnone : t.tableAt? l s = none)
    (halloc : (t.allocate pages l s).outcome = .ok (t', u)) : t'.Packed pages := by
  obtain ⟨hfits, hlevel, hstart, haddress, halign, rfl⟩ := allocate_eq_ok_iff.mp halloc
  have hbytes : u.bytes = l.tableBytes := by rw [Table.bytes, hlevel]
  have hold := tableAt?_eq_none hnone
  have hmem : ∀ w ∈ t.tables ++ [u], w ∈ t.tables ∨ w = u := fun w hw => by
    simpa using hw
  refine ⟨fun w hw => ?_, ?_, fun w hw => ?_, ?_, fun w hw => ?_, ?_⟩
  · rcases hmem w hw with hw | rfl
    · exact h.level_mem w hw
    · rwa [hlevel]
  · -- the next address is where the tables so far end
    rw [used_eq_total] at haddress
    exact Table.packedFrom_append.mpr ⟨h.packed, haddress, trivial⟩
  · rcases hmem w hw with hw | rfl
    · exact h.aligned w hw
    · rwa [hbytes]
  · -- allocation comes after a search that found no such table
    refine List.pairwise_append.mpr ⟨h.distinct, List.pairwise_singleton _ _, fun w hw v hv => ?_⟩
    rw [List.mem_singleton.mp hv, hlevel, hstart]
    exact hold w hw
  · -- the new table comes first only if it is the root
    rcases htables : t.tables with _ | ⟨first, rest⟩
    · rw [htables] at hw
      obtain rfl : u = w := Option.some.inj hw
      rw [hlevel]
      exact hroot.resolve_right fun hne => hne htables
    · rw [htables] at hw
      exact h.root w (by rw [htables]; exact hw)
  · rw [used_eq_total] at hfits ⊢
    rw [Table.total_append, Table.total_cons, Table.total_nil, hbytes]
    exact hfits

/-- The tables of `t'` are those of `t` and more of the given levels for a source address. -/
def Extends (s : Word) (levels : List Level) (t t' : StageTables) : Prop :=
  ∃ new, t' = { t with tables := t.tables ++ new }
    ∧ ∀ u ∈ new, u.level ∈ levels ∧ u.start = u.level.tableStart s

theorem tableFor_spec {l : Level} (h : t.Packed pages) (hl : l ∈ t.mode.levels)
    (hroot : l.depth = 0 ∨ t.tables ≠ [])
    (hfor : (t.tableFor pages l s).outcome = .ok (t', u)) :
    Extends s [l] t t' ∧ t'.Packed pages ∧ u.level = l ∧ t'.Covers s u := by
  unfold tableFor at hfor
  split at hfor
  next found hfound =>
    obtain ⟨rfl, rfl⟩ := Prod.mk.inj (Run.pure_outcome_eq_ok_iff.mp hfor)
    obtain ⟨hmem, hlevel, hstart⟩ := tableAt?_eq_some hfound
    refine ⟨⟨[], ?_, fun u hu => by cases hu⟩, h, hlevel, hmem, by rw [hlevel, hstart]⟩
    rw [List.append_nil]
  next hnone =>
    have hpacked := h.allocate hl hroot hnone hfor
    obtain ⟨-, hlevel, hstart, -, -, rfl⟩ := allocate_eq_ok_iff.mp hfor
    have hcover : u.start = u.level.tableStart s := by rw [hlevel, hstart]
    refine ⟨⟨[u], rfl, fun w hw => ?_⟩, hpacked, hlevel, by simp, hcover⟩
    rw [List.mem_singleton.mp hw, hlevel]
    exact ⟨List.mem_singleton_self _, hlevel ▸ hcover⟩

/-- **The tables for a source address are there once they have been reached**, one of each level in
order, and the rest is as it was. -/
theorem reach_spec : ∀ {ls : List Level} {t t' : StageTables} {path : List Table},
    t.Packed pages → (∀ l ∈ ls, l ∈ t.mode.levels) →
    (∀ l ∈ ls.head?, l.depth = 0 ∨ t.tables ≠ []) →
    (reach pages s ls t).outcome = .ok (t', path) →
    Extends s ls t t' ∧ t'.Packed pages ∧ path.map (·.level) = ls ∧ ∀ u ∈ path, t'.Covers s u
  | [], t, t', path, h, _, _, hreach => by
    obtain ⟨rfl, rfl⟩ := Prod.mk.inj (Run.pure_outcome_eq_ok_iff.mp hreach)
    refine ⟨⟨[], ?_, fun u hu => by cases hu⟩, h, rfl, fun u hu => by cases hu⟩
    rw [List.append_nil]
  | l :: ls, t, t', path, h, hls, hroot, hreach => by
    simp only [reach, Run.bind_outcome_eq_ok_iff, Run.pure_outcome_eq_ok_iff, Prod.mk.injEq,
      Prod.exists] at hreach
    obtain ⟨t₁, u, hfor, t₂, path, hrest, rfl, rfl⟩ := hreach
    obtain ⟨⟨new, rfl, hnew⟩, hpacked, hlevel, hcovers⟩ :=
      tableFor_spec h (hls l List.mem_cons_self) (hroot l rfl) hfor
    -- now that there is a table, none of the further ones comes first
    have hne : t.tables ++ new ≠ [] := List.ne_nil_of_mem hcovers.mem
    obtain ⟨⟨more, rfl, hmore⟩, hpacked', hpath, hcovers'⟩ :=
      reach_spec hpacked (fun k hk => hls k (List.mem_cons_of_mem _ hk)) (fun _ _ => .inr hne) hrest
    refine ⟨⟨new ++ more, ?_, fun w hw => ?_⟩, hpacked', ?_, fun w hw => ?_⟩
    · simp only [List.append_assoc]
    · rcases List.mem_append.mp hw with hw | hw
      · obtain ⟨hwl, hws⟩ := hnew w hw
        exact ⟨List.mem_cons.mpr (.inl (List.mem_singleton.mp hwl)), hws⟩
      · exact ⟨List.mem_cons_of_mem _ (hmore w hw).1, (hmore w hw).2⟩
    · rw [List.map_cons, hlevel, hpath]
    · rcases List.mem_cons.mp hw with rfl | hw
      · exact ⟨List.mem_append_left _ hcovers.mem, hcovers.start⟩
      · exact hcovers' w hw

end StageTables

end FirmwareMap
