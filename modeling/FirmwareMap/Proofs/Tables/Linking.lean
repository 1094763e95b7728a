/-
  FirmwareMap.Proofs.Tables.Linking
  ─────────────────────────────────
  **THE ENTRIES THAT A PAGE NEEDS.**

  A page needs a table at each level from the root to its leaf.  Each of these
  tables but the last points to the next one, and the last has the leaf:

      Writes q a v  ↔  a is the slot of q in the table of its leaf,
                       and v encodes the leaf
                     ∨ a is the slot of q in a table above,
                       and v points to the table below

  Linking a path of tables adds these entries and no others (`link_spec`,
  `leads_iff`).
-/
import FirmwareMap.Proofs.Paging.Codec
import FirmwareMap.Proofs.Tables.Packing

namespace FirmwareMap

/-! ## §1. Where a mode places a page. -/

/-- The mode has leaves of level `l` for the page and translates its source address to `s`. -/
structure Mode.Places (m : Mode) (q : Page) (l : Level) (s : Word) : Prop where
  /-- The level maps pages of this size. -/
  level : m.leafLevel? q.size = some l
  /-- The translated bits of the page's source address. -/
  source : m.canonical? q.source = some s

namespace Mode.Places

variable {m : Mode} {q : Page} {l k : Level} {s r : Word}

theorem level_mem (h : m.Places q l s) : l ∈ m.levels :=
  List.mem_of_find?_eq_some h.level

theorem page_eq (h : m.Places q l s) : l.page = q.size := by
  have := List.find?_some h.level
  rwa [decide_eq_true_iff] at this

theorem isPaged (h : m.Places q l s) : m.isPaged :=
  isPaged_iff.mpr (List.ne_nil_of_mem h.level_mem)

theorem source_lt (h : m.Places q l s) : s.toNat < m.sourceCount :=
  (canonical?_eq_some_iff.mp h.source).2

theorem unique (h : m.Places q l s) (h' : m.Places q k r) : l = k ∧ s = r :=
  ⟨Option.some.inj (h.level.symm.trans h'.level), Option.some.inj (h.source.symm.trans h'.source)⟩

end Mode.Places

/-- Levels of increasing depth down to the level of a leaf. -/
theorem Mode.depths_take {m : Mode} {l : Level} (h : l ∈ m.levels) :
    (m.levels.take (l.depth + 1)).map (·.depth) = List.range' 0 (l.depth + 1) := by
  revert l
  cases m <;> decide

/-- The first level on the way to a leaf is that of the root. -/
theorem Mode.depth_of_head_take {m : Mode} {l k : Level} (h : l ∈ m.levels)
    (hk : k ∈ (m.levels.take (l.depth + 1)).head?) : k.depth = 0 := by
  have hdepth := congrArg List.head? (Mode.depths_take h)
  rw [List.head?_map, hk, List.range'_succ] at hdepth
  exact Option.some.inj hdepth

theorem Mode.mem_take_iff {m : Mode} {l k : Level} (h : l ∈ m.levels) :
    k ∈ m.levels.take (l.depth + 1) ↔ k ∈ m.levels ∧ k.depth ≤ l.depth := by
  constructor
  · intro hk
    have hdepth : k.depth ∈ (m.levels.take (l.depth + 1)).map (·.depth) := List.mem_map_of_mem hk
    rw [Mode.depths_take h, List.mem_range'_1] at hdepth
    exact ⟨List.mem_of_mem_take hk, by omega⟩
  · intro hgiven
    obtain ⟨hk, hle⟩ := hgiven
    rw [List.mem_take_iff_getElem]
    have hplace := levels_getElem?_depth hk
    obtain ⟨hlt, heq⟩ := List.getElem?_eq_some_iff.mp hplace
    exact ⟨k.depth, by omega, heq⟩

namespace StageTables

variable {t t' : StageTables} {u w : Table} {q : Page} {l : Level} {a v s r : Word} {pages : Nat}
  {done : List Page}

/-! ## §2. The entries that a page needs. -/

/-- The leaf of the page stands at the address. -/
def LeafSlot (t : StageTables) (q : Page) (a : Word) : Prop :=
  ∃ s u, t.mode.Places q u.level s ∧ t.Covers s u ∧ u.slot s = .ok a

/-- The path to the page's leaf goes through the address to the table `w`. -/
def PointerSlot (t : StageTables) (q : Page) (w : Table) (a : Word) : Prop :=
  ∃ l s u, t.mode.Places q l s ∧ t.Covers s u ∧ t.Covers s w
    ∧ w.level.depth = u.level.depth + 1 ∧ w.level.depth ≤ l.depth ∧ u.slot s = .ok a

/-- The page needs an entry. -/
inductive Writes (t : StageTables) (q : Page) (a : Word) : Word → Prop where
  /-- The entry is its leaf. -/
  | leaf (h : t.LeafSlot q a) : Writes t q a (q.leaf.encode t.mode)
  /-- The entry leads to a table on the way to its leaf. -/
  | pointer {w : Table} (h : t.PointerSlot q w a) : Writes t q a (Entry.pointer t.mode w.address)

/-- An entry that a page needs says something. -/
theorem Writes.ne_zero (h : t.Writes q a v) : v ≠ 0 := by
  cases h with
  | leaf h =>
    obtain ⟨s, u, hplace, -⟩ := h
    exact Leaf.encode_ne_zero hplace.isPaged _
  | pointer h =>
    obtain ⟨l, s, u, hplace, -⟩ := h
    exact Entry.pointer_ne_zero hplace.isPaged _

/-- An entry that a page needs is a slot of a table. -/
theorem Writes.isSlot (h : t.Writes q a v) : ∃ u ∈ t.tables, u.IsSlot a := by
  cases h with
  | leaf h =>
    obtain ⟨s, u, -, hu, hslot⟩ := h
    exact ⟨u, hu.mem, Table.isSlot_of_slot hslot⟩
  | pointer h =>
    obtain ⟨l, s, u, -, hu, -, -, -, hslot⟩ := h
    exact ⟨u, hu.mem, Table.isSlot_of_slot hslot⟩

/-! ## §3. Writing entries. -/

/-- One entry is added, if it was not there. -/
theorem write_spec (h : (t.write a v).outcome = .ok t') :
    ∃ entries, t' = { t with entries }
      ∧ ∀ b x, entries[b]? = some x ↔ t.entries[b]? = some x ∨ (b = a ∧ x = v) := by
  unfold write at h
  split at h
  next hnone =>
    rw [Run.report_bind_eq_ok_iff, Run.pure_outcome_eq_ok_iff] at h
    refine ⟨_, h.symm, fun b x => ?_⟩
    rw [Std.TreeMap.getElem?_insert]
    simp only [Std.compare_eq_iff_eq]
    split
    next hab => rw [← hab, hnone, Option.some.injEq]; simp [eq_comm]
    next hab => simp [Ne.symm hab]
  next existing hsome =>
    split at h
    next heq =>
      rw [Run.report_bind_eq_ok_iff, Run.pure_outcome_eq_ok_iff] at h
      refine ⟨t.entries, h.symm, fun b x => ⟨.inl, ?_⟩⟩
      intro hgiven
      rcases hgiven with hold | ⟨rfl, rfl⟩
      · exact hold
      · rw [hsome, heq]
    next => cases h

/-- The entries that lead along a path of tables to a leaf. -/
inductive Leads (m : Mode) (s leaf : Word) : List Table → Word → Word → Prop where
  /-- The last table has the leaf. -/
  | last {u : Table} {a : Word} (slot : u.slot s = .ok a) : Leads m s leaf [u] a leaf
  /-- A table points to the next one. -/
  | here {u w : Table} {rest : List Table} {a : Word} (slot : u.slot s = .ok a) :
    Leads m s leaf (u :: w :: rest) a (Entry.pointer m w.address)
  /-- The entries of the tables after the first. -/
  | later {u w : Table} {rest : List Table} {a v : Word} (h : Leads m s leaf (w :: rest) a v) :
    Leads m s leaf (u :: w :: rest) a v

/-- Linking a path adds the entries that lead along it, and nothing else changes. -/
theorem link_spec {leaf : Word} : ∀ {path : List Table} {t t' : StageTables},
    (link s leaf path t).outcome = .ok t' →
    ∃ entries, t' = { t with entries }
      ∧ ∀ a v, entries[a]? = some v ↔ t.entries[a]? = some v ∨ Leads t.mode s leaf path a v
  | [], t, t', h => by
    rw [link, Run.pure_outcome_eq_ok_iff] at h
    refine ⟨t.entries, h.symm, fun a v => ⟨.inl, ?_⟩⟩
    intro hgiven
    rcases hgiven with hold | hnew
    · exact hold
    · cases hnew
  | [u], t, t', h => by
    rw [link, Run.bind_outcome_eq_ok_iff] at h
    obtain ⟨b, hslot, hwrite⟩ := h
    rw [Run.liftFault_eq_ok_iff] at hslot
    obtain ⟨entries, rfl, hentries⟩ := write_spec hwrite
    refine ⟨entries, rfl, fun a v => ?_⟩
    rw [hentries]
    refine or_congr_right ⟨?_, ?_⟩
    · intro hgiven
      obtain ⟨rfl, rfl⟩ := hgiven
      exact .last hslot
    · intro hleads
      cases hleads with
      | last hlast => exact ⟨(Except.ok.inj (hslot.symm.trans hlast)).symm, rfl⟩
  | u :: w :: rest, t, t', h => by
    simp only [link, Run.bind_outcome_eq_ok_iff, Run.liftFault_eq_ok_iff] at h
    obtain ⟨b, hslot, t₁, hwrite, hrest⟩ := h
    obtain ⟨entries₁, rfl, hentries₁⟩ := write_spec hwrite
    obtain ⟨entries, rfl, hentries⟩ := link_spec hrest
    refine ⟨entries, rfl, fun a v => ?_⟩
    rw [hentries, hentries₁, or_assoc]
    refine or_congr_right ⟨?_, ?_⟩
    · intro hgiven
      rcases hgiven with ⟨rfl, rfl⟩ | hlater
      · exact .here hslot
      · exact .later hlater
    · intro hleads
      cases hleads with
      | here hhere => exact .inl ⟨(Except.ok.inj (hslot.symm.trans hhere)).symm, rfl⟩
      | later hlater => exact .inr hlater

/-- On a path of tables whose depths increase by one, each table points to the one below, and the
deepest one has the leaf. -/
theorem leads_iff {m : Mode} {leaf : Word} : ∀ {path : List Table} {d n : Nat},
    path.map (·.level.depth) = List.range' d (n + 1) →
    (Leads m s leaf path a v
      ↔ (∃ u ∈ path, u.level.depth = d + n ∧ u.slot s = .ok a ∧ v = leaf)
        ∨ ∃ u ∈ path, ∃ w ∈ path, w.level.depth = u.level.depth + 1 ∧ u.slot s = .ok a
            ∧ v = Entry.pointer m w.address)
  | [], d, n, h => by simp [List.range'_succ] at h
  | [u], d, n, h => by
    obtain rfl : n = 0 := by
      have := congrArg List.length h
      simpa using this.symm
    have hu : u.level.depth = d := by simpa using h
    constructor
    · intro hleads
      cases hleads with
      | last hslot => exact .inl ⟨u, List.mem_singleton_self u, hu, hslot, rfl⟩
    · intro hgiven
      rcases hgiven with ⟨w, hw, -, hslot, rfl⟩ | ⟨w, hw, x, hx, hdepth, -⟩
      · rw [List.mem_singleton.mp hw] at hslot
        exact .last hslot
      · rw [List.mem_singleton.mp hw, List.mem_singleton.mp hx] at hdepth
        omega
  | u :: w :: rest, d, n, h => by
    obtain ⟨k, rfl⟩ : ∃ k, n = k + 1 := by
      have hlength := congrArg List.length h
      simp only [List.length_map, List.length_cons, List.length_range'] at hlength
      exact ⟨rest.length, by omega⟩
    rw [List.range'_succ, List.map_cons, List.cons.injEq] at h
    obtain ⟨hu, htail⟩ := h
    have hw : w.level.depth = d + 1 := by
      rw [List.range'_succ, List.map_cons, List.cons.injEq] at htail
      exact htail.1
    -- a table after the first is deeper than it, and only the second is deeper by one
    have hdeep : ∀ x ∈ w :: rest, d + 1 ≤ x.level.depth := fun x hx => by
      have := List.mem_map_of_mem (f := fun u : Table => u.level.depth) hx
      rw [htail, List.mem_range'_1] at this
      exact this.1
    have hsecond : ∀ x ∈ w :: rest, x.level.depth = d + 1 → x = w := by
      intro x hx hdepth
      rcases List.mem_cons.mp hx with rfl | hx
      · rfl
      · rw [List.range'_succ, List.map_cons, List.cons.injEq] at htail
        have := List.mem_map_of_mem (f := fun u : Table => u.level.depth) hx
        rw [htail.2, List.mem_range'_1] at this
        omega
    -- the induction is on the path: the first table points to the second, the rest is the tail's
    have ih : Leads m s leaf (w :: rest) a v ↔ _ := leads_iff htail
    constructor
    · intro hleads
      cases hleads with
      | here hslot =>
        exact .inr ⟨u, List.mem_cons_self, w, by simp, by omega, hslot, rfl⟩
      | later hlater =>
        rcases ih.mp hlater with ⟨x, hx, hdepth, hslot⟩ | ⟨x, hx, y, hy, hpair⟩
        · exact .inl ⟨x, List.mem_cons_of_mem _ hx, by omega, hslot⟩
        · exact .inr ⟨x, List.mem_cons_of_mem _ hx, y, List.mem_cons_of_mem _ hy, hpair⟩
    · intro hgiven
      rcases hgiven with ⟨x, hx, hdepth, hslot, rfl⟩ | ⟨x, hx, y, hy, hdepth, hslot, rfl⟩
      · rcases List.mem_cons.mp hx with rfl | hx
        · omega
        · exact .later (ih.mpr (.inl ⟨x, hx, by omega, hslot, rfl⟩))
      · rcases List.mem_cons.mp hx with rfl | hx
        · rcases List.mem_cons.mp hy with rfl | hy
          · omega
          · rw [hsecond y hy (by omega)]
            exact .here hslot
        · have := hdeep x hx
          rcases List.mem_cons.mp hy with rfl | hy
          · omega
          · exact .later (ih.mpr (.inr ⟨x, hx, y, hy, hdepth, hslot, rfl⟩))

end StageTables

end FirmwareMap
