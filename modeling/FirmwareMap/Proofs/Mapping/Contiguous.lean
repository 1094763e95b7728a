/-
  FirmwareMap.Proofs.Mapping.Contiguous
  ─────────────────────────────────────
  **TWO ENDS DECIDE FOR ALL ADDRESSES BETWEEN THEM.**

  The check of a source range looks at its first and its last address only:
  both are canonical, and their translated bits lie as far apart as they do.
  Between such ends no address crosses into the addresses that the mode leaves
  out, so each of them is canonical too, and lies as far from the first one as
  its translated bits do:

      canonical? a = some s,  canonical? b = some t,  s + (b - a) = t
          →  canonical? c = some (s + (c - a))        for a ≤ c ≤ b

  Conversely a range of canonical addresses has such ends.  So the check of a
  mapping is a law about each of its addresses (`check_accepts_iff`), and the
  mode translates the source range of a mapping that obeys it one to one.
-/
import FirmwareMap.Proofs.Mapping.Check
import FirmwareMap.Proofs.Paging.Canonical

namespace FirmwareMap

/-! ## §1. From the ends to the addresses between them. -/

namespace Mode

variable {m : Mode} {a b c s t : Word}

/-- **Between ends whose translated bits lie as far apart as they do, every address is
canonical.** -/
theorem canonical?_between (ha : m.canonical? a = some s) (hb : m.canonical? b = some t)
    (hapart : s.toNat + (b.toNat - a.toNat) = t.toNat) (hac : a.toNat ≤ c.toNat)
    (hcb : c.toNat ≤ b.toNat) :
    m.canonical? c = some (.ofNat (s.toNat + (c.toNat - a.toNat))) := by
  obtain ⟨ha, -⟩ := canonical?_eq_some_iff.mp ha
  obtain ⟨hb, ht⟩ := canonical?_eq_some_iff.mp hb
  have hle := m.sourceCount_le
  have hlt : s.toNat + (c.toNat - a.toNat) < m.sourceCount := by omega
  rw [canonical?_eq_some_iff, Word.toNat_ofNat_of_lt (Nat.lt_of_lt_of_le hlt hle)]
  refine ⟨?_, hlt⟩
  unfold extend IsNegative at ha hb ⊢
  by_cases hwide : m.isWidened = true
  · simp only [hwide, Bool.true_eq_false, false_and, if_false] at ha hb ⊢
    omega
  · -- a range that runs into the negative half comes from it, or the mode leaves nothing out
    simp only [hwide, true_and] at ha hb ⊢
    split at ha <;> split at hb <;> split <;> omega

end Mode

namespace Mapping

variable {m : Mode} {first last : Word}

theorem endsContiguous_iff :
    endsContiguous m first last = true
      ↔ ∃ s t, m.canonical? first = some s ∧ m.canonical? last = some t
          ∧ s.toNat + (last.toNat - first.toNat) = t.toNat := by
  unfold endsContiguous
  constructor
  · intro h
    split at h
    next s t hs ht => exact ⟨s, t, hs, ht, of_decide_eq_true h⟩
    next => cases h
  · intro h
    obtain ⟨s, t, hs, ht, hapart⟩ := h
    rw [hs, ht]
    exact decide_eq_true hapart

/-- A mapping that fits the platform has a leaf level for its pages, and all addresses of its
source range are canonical. -/
theorem canonical_of_check {p : Platform} {m : Mapping} (h : m.check p = .ok ()) {v : View}
    (hv : v ∈ m.view?) (hpaged : (p.mode v.stage).isPaged) {a : Word}
    (ha : a.toNat ∈ m.extentFrom v) :
    (p.mode v.stage).leafLevel? m.block.page ≠ none
      ∧ ((p.mode v.stage).canonical? a).isSome := by
  have hpos := (bounded_of_check h).bytes_pos
  obtain ⟨-, hfits, hmode⟩ := checkView_eq_ok_iff.mp ((check_eq_ok_iff.mp h).2 v hv)
  obtain ⟨hlevel, hends⟩ := hmode hpaged
  obtain ⟨s, t, hs, ht, hapart⟩ := endsContiguous_iff.mp hends
  have hlast : (UInt64.ofNat (v.source.toNat + (m.block.bytes - 1))).toNat
      = v.source.toNat + (m.block.bytes - 1) := Word.toNat_ofNat_of_lt (by omega)
  obtain ⟨hle, hlt⟩ := Extent.mem_iff.mp ha
  simp only [extentFrom] at hle hlt
  refine ⟨hlevel, ?_⟩
  rw [Mode.canonical?_between hs ht hapart hle (by omega)]
  rfl

end Mapping

/-! ## §2. The check as a law about each address. -/

/-- A mode has a leaf level for each of its page sizes. -/
theorem Mode.leafLevel?_ne_none_iff {m : Mode} {size : PageSize} :
    m.leafLevel? size ≠ none ↔ size ∈ m.pageSizes := by
  rw [leafLevel?, pageSizes, ← Option.isSome_iff_ne_none, List.find?_isSome, List.mem_map]
  simp only [decide_eq_true_eq]

namespace Mapping

variable {p : Platform} {m : Mapping} {v : View}

/-- **The ends of a range lie as far apart as their translated bits exactly when every address
between them is canonical.** -/
theorem endsContiguous_iff_forall {mode : Mode} {first last : Word}
    (hle : first.toNat ≤ last.toNat) :
    endsContiguous mode first last = true
      ↔ ∀ c : Word, first.toNat ≤ c.toNat → c.toNat ≤ last.toNat → mode.IsCanonical c := by
  rw [endsContiguous_iff]
  constructor
  · intro h c hfirst hlast
    obtain ⟨s, t, hs, ht, hapart⟩ := h
    rw [← Mode.isSome_canonical?_iff, Mode.canonical?_between hs ht hapart hfirst hlast]
    rfl
  · intro h
    have hstrip := mode.strip_add_of_run hle h
    refine ⟨_, _, (h first (Nat.le_refl _) hle).canonical?_eq,
      (h last hle (Nat.le_refl _)).canonical?_eq, ?_⟩
    have hword : ∀ a : Word, (UInt64.ofNat (mode.strip a.toNat)).toNat = mode.strip a.toNat :=
      fun a => Word.toNat_ofNat_of_lt (Nat.lt_of_lt_of_le (mode.strip_lt _) mode.sourceCount_le)
    rw [hword, hword]
    exact hstrip

/-- A stage can see the pages of a mapping from the source address of the view. -/
structure Seen (p : Platform) (m : Mapping) (v : View) : Prop where
  /-- The source starts at a page. -/
  aligned : m.block.page.Aligned v.source
  /-- The source ends no later than the addresses do. -/
  stop_le : v.source.toNat + m.block.bytes ≤ Word.count
  /-- A paged mode has leaves for the pages. -/
  page_mem : (p.mode v.stage).isPaged → m.block.page ∈ (p.mode v.stage).pageSizes
  /-- Every address of the source is canonical in a paged mode. -/
  canonical : (p.mode v.stage).isPaged →
    ∀ a : Word, a.toNat ∈ m.extentFrom v → (p.mode v.stage).IsCanonical a

/-- A view passes its check if the pages can be seen, provided that there are pages. -/
theorem checkView_eq_ok_iff_seen (hpos : 0 < m.block.bytes) :
    checkView p v m.block = .ok () ↔ m.Seen p v := by
  rw [checkView_eq_ok_iff]
  -- the last address is one, because the range is not empty and ends in time
  have hends (hstop : v.source.toNat + m.block.bytes ≤ Word.count) :
      endsContiguous (p.mode v.stage) v.source (.ofNat (v.source.toNat + (m.block.bytes - 1)))
          = true
        ↔ ∀ a : Word, a.toNat ∈ m.extentFrom v → (p.mode v.stage).IsCanonical a := by
    have hlast : (UInt64.ofNat (v.source.toNat + (m.block.bytes - 1))).toNat
        = v.source.toNat + (m.block.bytes - 1) := Word.toNat_ofNat_of_lt (by omega)
    rw [endsContiguous_iff_forall (by omega), hlast]
    refine forall_congr' fun a => ?_
    have hmem : a.toNat ∈ m.extentFrom v
        ↔ v.source.toNat ≤ a.toNat ∧ a.toNat ≤ v.source.toNat + (m.block.bytes - 1) := by
      show (v.source.toNat ≤ a.toNat ∧ a.toNat < v.source.toNat + m.block.bytes) ↔ _
      omega
    rw [hmem, and_imp]
  constructor
  · intro h
    obtain ⟨haligned, hstop, hmode⟩ := h
    exact {
      aligned := haligned
      stop_le := hstop
      page_mem := fun hpaged => Mode.leafLevel?_ne_none_iff.mp (hmode hpaged).1
      canonical := fun hpaged => (hends hstop).mp (hmode hpaged).2 }
  · intro h
    exact ⟨h.aligned, h.stop_le, fun hpaged =>
      ⟨Mode.leafLevel?_ne_none_iff.mpr (h.page_mem hpaged),
        (hends h.stop_le).mpr (h.canonical hpaged)⟩⟩

theorem check_eq_ok_iff_seen :
    m.check p = .ok ()
      ↔ 1 ≤ m.block.count.toNat ∧ m.block.page.Aligned m.block.dest
        ∧ m.block.dest.toNat + m.block.bytes < Word.count ∧ ∀ v ∈ m.view?, m.Seen p v := by
  have hcount : m.block.count ≠ 0 ↔ 1 ≤ m.block.count.toNat := by
    rw [Ne, ← UInt64.toNat_inj, UInt64.toNat_zero]
    omega
  rw [check_eq_ok_iff, checkBlock_eq_ok_iff, hcount, and_assoc, and_assoc]
  refine and_congr_right fun hpages => and_congr_right fun _ => and_congr_right fun _ => ?_
  exact forall₂_congr fun v _ =>
    checkView_eq_ok_iff_seen (Nat.mul_pos hpages m.block.page.bytes_pos)

/-- The source of a mapping that can be seen is translated one to one, whatever the mode. -/
theorem Seen.exists_translates (h : m.Seen p v) (hpos : 0 < m.block.bytes) :
    ∃ f, (p.mode v.stage).Translates (m.extentFrom v) f := by
  refine Mode.exists_translates hpos h.stop_le fun a ha => ?_
  by_cases hpaged : (p.mode v.stage).isPaged
  · exact h.canonical hpaged a ha
  · have hbare : p.mode v.stage = .bare := by simpa [Mode.isPaged] using hpaged
    rw [hbare]
    exact Mode.isCanonical_bare a

/-- **The check of a mapping is a law about each of its addresses.**  A mapping fits a platform if
it has a page, if both sides start at a page and stay within the address space, and if every source
address is canonical in a paged mode that has leaves for the pages.  The mode then translates the
source range one to one to a range of translated bits. -/
theorem check_accepts_iff (p : Platform) (m : Mapping) :
    (m.check p = .ok ()
        ↔ 1 ≤ m.block.count.toNat
          ∧ m.block.page.Aligned m.block.dest
          ∧ m.block.dest.toNat + m.block.bytes < Word.count
          ∧ ∀ v ∈ m.view?,
              m.block.page.Aligned v.source
              ∧ v.source.toNat + m.block.bytes ≤ Word.count
              ∧ ((p.mode v.stage).isPaged →
                  m.block.page ∈ (p.mode v.stage).pageSizes
                  ∧ ∀ a : Word, a.toNat ∈ m.extentFrom v → (p.mode v.stage).IsCanonical a))
      ∧ (m.check p = .ok () →
          ∀ v ∈ m.view?, ∃ f, (p.mode v.stage).Translates (m.extentFrom v) f) := by
  refine ⟨?_, fun h v hv => ?_⟩
  · rw [check_eq_ok_iff_seen]
    refine and_congr_right fun _ => and_congr_right fun _ => and_congr_right fun _ => ?_
    refine forall₂_congr fun v _ => ⟨fun h => ?_, fun h => ?_⟩
    · exact ⟨h.aligned, h.stop_le, fun hpaged => ⟨h.page_mem hpaged, h.canonical hpaged⟩⟩
    · obtain ⟨haligned, hstop, hmode⟩ := h
      exact ⟨haligned, hstop, fun hpaged => (hmode hpaged).1, fun hpaged => (hmode hpaged).2⟩
  · exact ((check_eq_ok_iff_seen.mp h).2.2.2 v hv).exists_translates (bounded_of_check h).bytes_pos

/-- A platform on which the source addresses of the hypervisor have two halves. -/
def hostLevels : Platform where
  virtualization := true
  mode t := if t = .hs then .sv48 else .bare
  supported t := by cases t <;> decide

/-- A page of code at the very end of the source addresses. -/
def lastPage : Mapping :=
  .translated ⟨.hs, 0xffff_ffff_ffff_f000, .rx, false, true, none⟩ ⟨0x8000_0000, .size4K, 1⟩ none []

/-- The source of the last page ends where the addresses do, and is translated. -/
theorem lastPage_translated :
    lastPage.check hostLevels = .ok ()
      ∧ ∃ f, Mode.sv48.Translates ⟨0xffff_ffff_ffff_f000, 0x1000⟩ f := by
  obtain ⟨-, htranslates⟩ := check_accepts_iff hostLevels lastPage
  have hcheck : lastPage.check hostLevels = .ok () := rfl
  exact ⟨hcheck, htranslates hcheck _ rfl⟩

end Mapping

end FirmwareMap
