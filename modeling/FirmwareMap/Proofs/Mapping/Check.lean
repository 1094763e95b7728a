/-
  FirmwareMap.Proofs.Mapping.Check
  ────────────────────────────────
  **WHAT A MAPPING THAT FITS A PLATFORM IS LIKE.**

  A mapping that passes its check has at least one page, starts at a page on
  either side, ends before the last address of its destinations and no later
  than the end of its sources:

      m.check p = .ok ()  →  count ≠ 0,  dest + bytes < 2^64,
                             source + bytes ≤ 2^64

  These bounds hold whatever the modes of the platform are, so they still hold
  on another platform than the one that the mapping was checked on.
-/
import FirmwareMap.Mapping.Check
import FirmwareMap.Proofs.Report.Sequence

namespace FirmwareMap.Mapping

/-! ## §1. Each check, as the conditions that it asks for. -/

theorem requireAligned_eq_ok_iff {kind : AddressKind} {a : Word} {page : PageSize} :
    requireAligned kind a page = .ok () ↔ a.toNat % page.bytes = 0 :=
  require_eq_ok_iff

theorem checkBlock_eq_ok_iff {kind : AddressKind} {b : Block} :
    checkBlock kind b = .ok ()
      ↔ b.count ≠ 0 ∧ b.dest.toNat % b.page.bytes = 0 ∧ b.extent.stop < Word.count := by
  rw [checkBlock, require_bind_eq_ok_iff, check_bind_eq_ok_iff, requireAligned_eq_ok_iff,
    require_bind_eq_ok_iff, require_eq_ok_iff]
  refine and_congr_right fun _ => and_congr_right fun _ => ⟨fun h => h.2, fun h => ⟨?_, h⟩⟩
  -- the sum fits, so each summand does
  exact Nat.lt_of_le_of_lt (Nat.le_add_left _ _) h

theorem checkMode_eq_ok_iff {m : Mode} {kind : AddressKind} {first last : Word} {page : PageSize} :
    checkMode m kind first last page = .ok ()
      ↔ m.leafLevel? page ≠ none ∧ endsContiguous m first last = true := by
  rw [checkMode, require_bind_eq_ok_iff, require_eq_ok_iff]

theorem checkView_eq_ok_iff {p : Platform} {v : View} {b : Block} :
    checkView p v b = .ok ()
      ↔ v.source.toNat % b.page.bytes = 0 ∧ v.source.toNat + b.bytes ≤ Word.count
        ∧ ((p.mode v.stage).isPaged →
            (p.mode v.stage).leafLevel? b.page ≠ none
              ∧ endsContiguous (p.mode v.stage) v.source
                  (.ofNat (v.source.toNat + (b.bytes - 1))) = true) := by
  rw [checkView, check_bind_eq_ok_iff, requireAligned_eq_ok_iff, require_bind_eq_ok_iff]
  refine and_congr_right fun _ => and_congr_right fun _ => ?_
  dsimp only
  split
  next h => simp only [checkMode_eq_ok_iff, h, true_imp_iff]
  next h => simp [h, pure, Except.pure]

theorem check_eq_ok_iff {p : Platform} {m : Mapping} :
    m.check p = .ok ()
      ↔ checkBlock m.destKind m.block = .ok () ∧ ∀ v ∈ m.view?, checkView p v m.block = .ok () := by
  rw [check, check_bind_eq_ok_iff]
  refine and_congr_right fun _ => ?_
  cases m.view? with
  | none => simp
  | some v => simp

/-! ## §2. Bounds that no mode takes part in. -/

/-- The pages of the mapping, and the view of them if there is one, are aligned and stay within the
address space. -/
structure Bounded (m : Mapping) : Prop where
  /-- There is a page. -/
  count_ne_zero : m.block.count ≠ 0
  /-- The destination starts at a page. -/
  dest_aligned : m.block.dest.toNat % m.block.page.bytes = 0
  /-- The destination ends before the last address. -/
  dest_lt : m.destExtent.stop < Word.count
  /-- The source starts at a page. -/
  source_aligned : ∀ v ∈ m.view?, v.source.toNat % m.block.page.bytes = 0
  /-- The source ends no later than the addresses do. -/
  source_le : ∀ v ∈ m.view?, (m.extentFrom v).stop ≤ Word.count

theorem bounded_of_check {p : Platform} {m : Mapping} (h : m.check p = .ok ()) : m.Bounded := by
  obtain ⟨hblock, hview⟩ := check_eq_ok_iff.mp h
  obtain ⟨hcount, hdest, hstop⟩ := checkBlock_eq_ok_iff.mp hblock
  exact {
    count_ne_zero := hcount
    dest_aligned := hdest
    dest_lt := hstop
    source_aligned := fun v hv => (checkView_eq_ok_iff.mp (hview v hv)).1
    source_le := fun v hv => (checkView_eq_ok_iff.mp (hview v hv)).2.1 }

theorem Bounded.bytes_pos {m : Mapping} (h : m.Bounded) : 0 < m.block.bytes := by
  have hcount : 0 < m.block.count.toNat := by
    have hne := h.count_ne_zero
    rw [Ne, ← UInt64.toNat_inj, UInt64.toNat_zero] at hne
    omega
  exact Nat.mul_pos hcount m.block.page.bytes_pos

end FirmwareMap.Mapping
