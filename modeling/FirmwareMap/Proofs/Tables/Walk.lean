/-
  FirmwareMap.Proofs.Tables.Walk
  ──────────────────────────────
  **WHAT A WALK DEPENDS ON, AND THAT IT ENDS.**

  A walk reads slots, and the slots of tables that start at pages stand at
  multiples of eight bytes.  To a walk a zero there is as good as nothing:

      the readers find the same words other than zero at multiples of eight
          →  walk read  =  walk read'

  Whatever a reader finds, frames and tables that entries lead to are within
  the reach of entries, so no sum that a walk makes leaves the words.
-/
import FirmwareMap.Proofs.Tables.Translation

namespace FirmwareMap

variable {m : Mode} {read read' : Word → Option Word} {l : Level} {a s table : Word}
  {levels : List Level}

/-! ## §1. Readers that find the same. -/

/-- The readers find the same entries, where zero counts as no entry. -/
def SameEntries (read read' : Word → Option Word) : Prop :=
  ∀ a : Word, a.toNat % entryBytes = 0 → ∀ v, v ≠ 0 → (read a = some v ↔ read' a = some v)

theorem Table.slotAt_mod (h : Table.slotAt l table s = .ok a)
    (htable : table.toNat % entryBytes = 0) : a.toNat % entryBytes = 0 := by
  rw [Table.slotAt_eq_ok_iff.mp h, Nat.add_mul_mod_self_right]
  exact htable

/-- A table that an entry leads to starts at a page. -/
theorem Entry.load_mod (hm : m.isPaged) (e : Word) : (Entry.load m e).toNat % entryBytes = 0 := by
  rw [Entry.toNat_load hm]
  show _ * (512 * entryBytes) % entryBytes = 0
  rw [← Nat.mul_assoc]
  exact Nat.mul_mod_left _ _

/-- **Readers that find the same entries lead a walk to the same end.** -/
theorem walk_congr (hm : m.isPaged) (h : SameEntries read read')
    (htable : table.toNat % entryBytes = 0) :
    walk m read s levels table = walk m read' s levels table := by
  induction levels generalizing table with
  | nil => rfl
  | cons l rest ih =>
    cases hslot : Table.slotAt l table s with
    | error fault =>
      simp only [walk, hslot]
      rfl
    | ok a =>
      have hsame := h a (Table.slotAt_mod hslot htable)
      by_cases hentry : ∃ v, v ≠ 0 ∧ read a = some v
      · obtain ⟨v, hv, hread⟩ := hentry
        have hread' := (hsame v hv).mp hread
        have hrest := ih (Entry.load_mod hm v)
        simp only [walk, hslot, bind, Except.bind, hread, hread', hrest]
      · -- neither reader finds anything but zero
        have hblank : ∀ v, v ≠ 0 → read a ≠ some v := fun v hv hread => hentry ⟨v, hv, hread⟩
        rw [walk_blank hslot hblank, walk_blank hslot fun v hv hread' =>
          hblank v hv ((hsame v hv).mpr hread')]

/-! ## §2. Walks that end. -/

theorem Mode.tableBytes_le (hl : l ∈ m.levels) : l.tableBytes ≤ 16384 := by
  revert l
  cases m <;> decide

/-- A walk starts with a level that has none above it. -/
theorem Mode.depth_of_head? (hl : l ∈ m.levels.head?) : l.depth = 0 := by
  revert l
  cases m <;> decide

/-- A table that ends within the address space has a slot for every source address. -/
theorem Table.exists_slotAt (h : table.toNat + l.tableBytes ≤ Word.count) (s : Word) :
    ∃ a, Table.slotAt l table s = .ok a := by
  have hroom := Table.index_add_le l s
  have hentry : 0 < entryBytes := by decide
  refine ⟨.ofNat (table.toNat + (l.index.extract s).toNat * entryBytes), ?_⟩
  rw [Table.slotAt_eq_ok_iff]
  exact Word.toNat_ofNat_of_lt (by omega)

/-- **A walk from a table within the address space ends with an answer**, whatever it reads. -/
theorem walk_eq_ok (hm : m.isPaged) (hlevels : levels ⊆ m.levels)
    (htable : ∀ l ∈ levels.head?, table.toNat + l.tableBytes ≤ Word.count) :
    ∃ o, walk m read s levels table = .ok o := by
  induction levels generalizing table with
  | nil => exact ⟨none, rfl⟩
  | cons l rest ih =>
    obtain ⟨a, hslot⟩ := Table.exists_slotAt (htable l rfl) s
    cases hread : read a with
    | none =>
      refine ⟨none, walk_blank hslot fun v _ => ?_⟩
      rw [hread]
      exact nofun
    | some e =>
      have hload := Entry.load_lt hm e
      cases hleaf : Entry.isLeaf e with
      | true =>
        cases hdecode : Leaf.decode? m e with
        | none =>
          refine ⟨none, ?_⟩
          simp only [walk, hslot, bind, Except.bind, hread, hleaf, if_true, hdecode]
          rfl
        | some leaf =>
          rw [← Leaf.frame_of_decode? hdecode] at hload
          obtain ⟨d, hlocate, -⟩ := Leaf.locate_eq_ok (l := l) (s := s) hload
          refine ⟨some ⟨d, leaf⟩, ?_⟩
          rw [walk_leaf hslot hread hleaf hdecode, hlocate]
          rfl
      | false =>
        cases hvalid : Entry.isValid e with
        | true =>
          rw [walk_pointer hslot hread hleaf hvalid]
          refine ih (fun k hk => hlevels (List.mem_cons_of_mem _ hk)) fun k hk => ?_
          -- the next table starts within the reach of entries, far from the last address
          have hmem : k ∈ l :: rest := List.mem_cons_of_mem l (List.mem_of_head? hk)
          have hbytes := Mode.tableBytes_le (hlevels hmem)
          have hroom : Entry.reach + 16384 ≤ Word.count := by decide
          omega
        | false =>
          refine ⟨none, ?_⟩
          simp only [walk, hslot, bind, Except.bind, hread, hleaf, hvalid, Bool.false_eq_true,
            if_false]
          rfl

/-- Translation through tables within the address space ends with an answer. -/
theorem StageTables.Packed.translate_eq_ok {t : StageTables} {pages : Nat} (h : t.Packed pages)
    (hm : t.mode.isPaged) (hfits : t.base.toNat + t.used ≤ Word.count) (b : Word) :
    ∃ o, t.translate b = .ok o := by
  unfold StageTables.translate
  split
  next s root _ hroot =>
    refine walk_eq_ok hm (List.Subset.refl _) fun l hl => ?_
    have hmem := List.mem_of_head? hroot
    have hlevel := Mode.eq_of_depth_eq (h.level_mem root hmem) (List.mem_of_head? hl)
      ((h.root root hroot).trans (Mode.depth_of_head? hl).symm)
    have hbounds : root.address.toNat + root.level.tableBytes ≤ _ := (h.packed.bounds hmem).2
    rw [← StageTables.used_eq_total] at hbounds
    rw [← hlevel]
    omega
  next => exact ⟨none, rfl⟩

end FirmwareMap
