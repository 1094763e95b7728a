/-
  FirmwareMap.Proofs.Tables.Agreement
  ───────────────────────────────────
  **NO TWO PAGES ASK FOR DIFFERENT ENTRIES AT ONE ADDRESS.**

  In packed tables a slot is that of one table and one page of its level.  So
  pages of which none starts within another never ask for different entries:

      leaf of q, leaf of r          →  q = r
      leaf of q, pointer for r      →  r starts in q, so r = q, and q's leaf
                                       does not lie above itself
      pointer for q, pointer for r  →  they lead to one table

  Entries that agree can be linked one after the other in any order.  Nothing
  here asks whether the platform that the pages were checked on is the one
  that the tables are for.
-/
import FirmwareMap.Proofs.Report.Failures
import FirmwareMap.Proofs.Tables.Slots

namespace FirmwareMap.StageTables

variable {t : StageTables} {u w w' : Table} {q q' : Page} {a v v' s : Word} {pages : Nat}
  {ps : List Page}

/-! ## §1. What two pages ask for at one address. -/

namespace Packed

/-- No slot is for the leaf of one page and on the path of another, or of the same one. -/
theorem not_leaf_and_pointer (h : t.Packed pages) (hapart : Page.Apart ps) (hq : q ∈ ps)
    (hq' : q' ∈ ps) (hleaf : t.LeafSlot q a) : ¬ t.PointerSlot q' w a := by
  intro hpointer
  obtain ⟨l, s, u, hplace, hu, -, hbelow, hle, hslot⟩ := hpointer
  -- the page on whose path the slot is starts within the page that has its leaf there
  have hmem := h.mem_extent_of_slot (hapart.aligned q hq) hleaf hu hslot hplace.source
  have hsame : q' = q := hapart.eq_of_mem q hq q' hq' hmem
  subst hsame
  -- but the leaf of a page lies below all tables that lead to it
  obtain ⟨r, x, hplace', hx, hslot'⟩ := hleaf
  obtain ⟨hlevel, rfl⟩ := hplace.unique hplace'
  obtain ⟨rfl, -⟩ := h.slot_injective hu hx hslot hslot'
  rw [hlevel] at hle
  omega

/-- Paths that share a slot go on to one table. -/
theorem pointerSlot_unique (h : t.Packed pages) (hw : t.PointerSlot q w a)
    (hw' : t.PointerSlot q' w' a) : w = w' := by
  obtain ⟨l, s, u, -, hu, hw, hbelow, -, hslot⟩ := hw
  obtain ⟨l', s', u', -, hu', hw', hbelow', -, hslot'⟩ := hw'
  obtain ⟨rfl, hpage⟩ := h.slot_injective hu hu' hslot hslot'
  have hw_level := h.level_mem w hw.mem
  have hlevel := Mode.eq_of_depth_eq hw_level (h.level_mem w' hw'.mem) (by omega)
  have hstart := (Mode.tableStart_eq_of_pageNumber (h.level_mem u hu.mem) hw_level hbelow).mpr hpage
  exact h.eq_of_covers hw hw' hlevel hstart

/-- **Pages that are apart agree on the entry at every address.** -/
theorem writes_agree (h : t.Packed pages) (hapart : Page.Apart ps) (hq : q ∈ ps) (hq' : q' ∈ ps)
    (hv : t.Writes q a v) (hv' : t.Writes q' a v') : v = v' := by
  cases hv with
  | leaf hleaf =>
    cases hv' with
    | leaf hleaf' =>
      have hmem := h.mem_extent_of_leafSlot (hapart.aligned q hq) hleaf' hleaf
      rw [hapart.eq_of_mem q hq q' hq' hmem]
    | pointer hpointer' =>
      exact absurd hpointer' (h.not_leaf_and_pointer hapart hq hq' hleaf)
  | pointer hpointer =>
    cases hv' with
    | leaf hleaf' => exact absurd hpointer (h.not_leaf_and_pointer hapart hq' hq hleaf')
    | pointer hpointer' => rw [h.pointerSlot_unique hpointer hpointer']

end Packed

/-- The pages of the stage never meet in a slot of the tables, but for pointers that are the
same. -/
structure SlotsApart (x : AddressMap) (stage : Stage) (t : StageTables) : Prop where
  /-- A slot has the leaf of one page of one mapping. -/
  leaves : ∀ i j i' j' q q' a, x.pageOf? stage i j = some q → x.pageOf? stage i' j' = some q' →
    t.LeafSlot q a → t.LeafSlot q' a → i = i' ∧ j = j'
  /-- A slot that has the leaf of a page is on no path. -/
  paths : ∀ q ∈ x.pagesOf stage, ∀ q' ∈ x.pagesOf stage, ∀ a w,
    t.LeafSlot q a → ¬ t.PointerSlot q' w a
  /-- Paths that share a slot share the table that it points to. -/
  pointers : ∀ q ∈ x.pagesOf stage, ∀ q' ∈ x.pagesOf stage, ∀ a w w',
    t.PointerSlot q w a → t.PointerSlot q' w' a → w = w'
  /-- So what two pages need at one address is one value. -/
  values : ∀ q ∈ x.pagesOf stage, ∀ q' ∈ x.pagesOf stage, ∀ a v v',
    t.Writes q a v → t.Writes q' a v' → v = v'

/-- Packed tables of any mode keep the pages of an accepted map apart. -/
theorem Packed.slotsApart (h : t.Packed pages) {x : AddressMap} {p : Platform}
    (ha : x.AcceptedOn p) (stage : Stage) : t.SlotsApart x stage where
  leaves i j i' j' q q' a hq hq' hleaf hleaf' := by
    have haligned := (ha.page_aligned (AddressMap.mem_pagesOf_iff.mpr ⟨i', j', hq'⟩)).1
    exact ha.pageOf?_unique hq hq' q.source_mem_extent
      (h.mem_extent_of_leafSlot haligned hleaf hleaf')
  paths q hq q' hq' a w hleaf := h.not_leaf_and_pointer (ha.apart stage) hq hq' hleaf
  pointers q _ q' _ a w w' hw hw' := h.pointerSlot_unique hw hw'
  values q hq q' hq' a v v' hv hv' := h.writes_agree (ha.apart stage) hq hq' hv hv'

/-! ## §2. Linking where entries agree. -/

/-- An entry can be written where there is none, or the same one. -/
theorem write_failsOnly {E : Failure → Prop} (h : ∀ b, t.entries[a]? = some b → b = v) :
    (t.write a v).FailsOnly E := by
  unfold write
  split
  next => exact Run.FailsOnly.bind (Run.failsOnly_report _) fun _ _ => Run.failsOnly_pure _
  next existing hexisting =>
    rw [if_pos (h existing hexisting)]
    exact Run.FailsOnly.bind (Run.failsOnly_report _) fun _ _ => Run.failsOnly_pure _

/-- **A path can be linked if its entries agree with each other and with those that are there.** -/
theorem link_failsOnly {E : Failure → Prop} {leaf : Word} {path : List Table} :
    ∀ {t : StageTables}, (∀ u ∈ path, ∃ a, u.slot s = .ok a) →
    (∀ a v b, Leads t.mode s leaf path a v →
      t.entries[a]? = some b ∨ Leads t.mode s leaf path a b → b = v) →
    (link s leaf path t).FailsOnly E := by
  -- writing the entry of the first table leaves the others' as they were, but for this one
  induction path with
  | nil =>
    intro t _ _
    exact Run.failsOnly_pure _
  | cons u rest ih =>
    intro t hslots hagree
    obtain ⟨a, hslot⟩ := hslots u List.mem_cons_self
    cases rest with
    | nil =>
      unfold link
      refine Run.FailsOnly.bind (Run.failsOnly_of_ok (Run.liftFault_eq_ok_iff.mpr hslot))
        fun b hb => ?_
      rw [Run.liftFault_eq_ok_iff] at hb
      exact write_failsOnly fun c hc => hagree b leaf c (.last hb) (.inl hc)
    | cons w rest =>
      unfold link
      refine Run.FailsOnly.bind (Run.failsOnly_of_ok (Run.liftFault_eq_ok_iff.mpr hslot))
        fun b hb => ?_
      rw [Run.liftFault_eq_ok_iff] at hb
      refine Run.FailsOnly.bind (write_failsOnly fun c hc => hagree b _ c (.here hb) (.inl hc))
        fun t₁ ht₁ => ?_
      obtain ⟨entries, rfl, hentries⟩ := write_spec ht₁
      refine ih (fun x hx => hslots x (List.mem_cons_of_mem _ hx)) fun c x y hx hy => ?_
      refine hagree c x y (.later hx) ?_
      rcases hy with hy | hy
      · rcases (hentries c y).mp hy with hold | ⟨rfl, rfl⟩
        · exact .inl hold
        · exact .inr (.here hb)
      · exact .inr (.later hy)

end FirmwareMap.StageTables
