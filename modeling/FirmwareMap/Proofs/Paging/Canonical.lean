/-
  FirmwareMap.Proofs.Paging.Canonical
  ───────────────────────────────────
  **CANONICAL ADDRESSES, AND RUNS OF THEM.**

  An address is canonical in a mode if it is what its low bits extend to, by
  copies of the uppermost of them or, in the widened modes, by zeros.  These
  are the addresses that the mode translates (`isSome_canonical?_iff`).

  Where signs are copied, canonical addresses are a low and a high half with a
  hole between them.  A run of addresses that are all canonical does not cross
  the hole, so it lies in one half and is moved as a whole:

      every address from a to b is canonical  →  strip a + (b - a) = strip b

  Hence a run is translated one to one, to a run of translated bits.
-/
import FirmwareMap.Address.Extent
import FirmwareMap.Paging.Canonical

namespace FirmwareMap.Mode

variable {m : Mode} {a b : Word}

/-! ## §1. Extension. -/

/-- What the low bits of an address extend to: copies of their uppermost bit, or zeros in the
widened modes. -/
def extension (m : Mode) (a : Word) : Word :=
  let low := a.toBitVec.setWidth m.sourceBits
  .ofBitVec (if m.isWidened then low.setWidth 64 else low.signExtend 64)

/-- The address is what its low bits extend to. -/
def IsCanonical (m : Mode) (a : Word) : Prop :=
  a = m.extension a

instance (m : Mode) (a : Word) : Decidable (m.IsCanonical a) :=
  inferInstanceAs (Decidable (a = m.extension a))

/-- Half of the source addresses are those without the uppermost bit. -/
theorem twoPow_pred_sourceBits (m : Mode) : twoPow (m.sourceBits - 1) = m.sourceCount / 2 := by
  cases m <;> rfl

theorem toNat_extension (m : Mode) (a : Word) :
    (m.extension a).toNat = m.extend (m.strip a.toNat) := by
  have hlow : (a.toBitVec.setWidth m.sourceBits).toNat = m.strip a.toNat := by
    rw [BitVec.toNat_setWidth]
    rfl
  have hsign : (a.toBitVec.setWidth m.sourceBits).msb
      = decide (m.sourceCount / 2 ≤ m.strip a.toNat) := by
    rw [BitVec.msb_eq_decide, hlow, ← twoPow_pred_sourceBits]
    rfl
  have hwide : m.strip a.toNat % 2 ^ 64 = m.strip a.toNat :=
    Nat.mod_eq_of_lt (Nat.lt_of_lt_of_le (m.strip_lt a.toNat) m.sourceCount_le)
  unfold extension extend
  by_cases h : m.isWidened = true
  · simp only [h, if_true, Bool.true_eq_false, false_and, if_false]
    show (BitVec.setWidth 64 _).toNat = _
    rw [BitVec.toNat_setWidth, hlow, hwide]
  · rw [Bool.not_eq_true] at h
    simp only [h, Bool.false_eq_true, if_false, true_and]
    show (BitVec.signExtend 64 _).toNat = _
    rw [BitVec.toNat_signExtend, BitVec.toNat_setWidth, hlow, hwide, hsign]
    -- the uppermost bit is set in the upper half of the translated bits
    by_cases hs : m.sourceCount / 2 ≤ m.strip a.toNat
    · have hnegative : m.IsNegative (m.strip a.toNat) := hs
      rw [if_pos hnegative, if_pos (decide_eq_true hs)]
      rfl
    · have hnegative : ¬ m.IsNegative (m.strip a.toNat) := hs
      rw [if_neg hnegative, if_neg (mt of_decide_eq_true hs), Nat.add_zero]

theorem isCanonical_iff : m.IsCanonical a ↔ m.extend (m.strip a.toNat) = a.toNat := by
  rw [IsCanonical, ← UInt64.toNat_inj, toNat_extension, eq_comm]

/-- **The addresses that a mode translates are the canonical ones.** -/
theorem isSome_canonical?_iff : (m.canonical? a).isSome ↔ m.IsCanonical a := by
  rw [isCanonical_iff]
  unfold canonical?
  by_cases h : m.extend (m.strip a.toNat) = a.toNat
  · simp [h]
  · simp [h]

/-- The first address above the low half has a bit set that is not copied. -/
example : sv39.IsCanonical 0x3f_ffff_ffff ∧ ¬ sv39.IsCanonical 0x40_0000_0000 := by decide

theorem IsCanonical.canonical?_eq (h : m.IsCanonical a) :
    m.canonical? a = some (.ofNat (m.strip a.toNat)) := by
  unfold canonical?
  rw [if_pos (isCanonical_iff.mp h)]

/-- Without translation every address is canonical. -/
theorem isCanonical_bare (a : Word) : bare.IsCanonical a := by
  have hlt : a.toNat < Word.count := a.toNat_lt_size
  have hcount : bare.sourceCount = Word.count := rfl
  rw [isCanonical_iff, strip, hcount, Nat.mod_eq_of_lt hlt]
  unfold extend
  rw [hcount, Nat.sub_self, Nat.add_zero, ite_self]

/-! ## §2. Runs. -/

/-- **A run of canonical addresses is moved as a whole.** -/
theorem strip_add_of_run (hle : a.toNat ≤ b.toNat)
    (h : ∀ c : Word, a.toNat ≤ c.toNat → c.toNat ≤ b.toNat → m.IsCanonical c) :
    m.strip a.toNat + (b.toNat - a.toNat) = m.strip b.toNat := by
  have ha := isCanonical_iff.mp (h a (Nat.le_refl _) hle)
  have hb := isCanonical_iff.mp (h b hle (Nat.le_refl _))
  have hcount := m.sourceCount_le
  have hpos := m.sourceCount_pos
  by_cases hwide : m.isWidened = true
  · have hlow : ∀ n, ¬ (m.isWidened = false ∧ m.IsNegative n) := by simp [hwide]
    rw [extend, if_neg (hlow _)] at ha hb
    omega
  rw [Bool.not_eq_true] at hwide
  unfold extend at ha hb
  simp only [hwide, true_and] at ha hb
  by_cases hsa : m.IsNegative (m.strip a.toNat)
  · by_cases hsb : m.IsNegative (m.strip b.toNat)
    · rw [if_pos hsa] at ha
      rw [if_pos hsb] at hb
      omega
    · -- the upper half is not followed by the lower one
      rw [if_pos hsa] at ha
      rw [if_neg hsb] at hb
      unfold IsNegative at hsa hsb
      omega
  · by_cases hsb : m.IsNegative (m.strip b.toNat)
    · -- the first address above the low half lies in the run, so the mode leaves nothing out
      rw [if_neg hsa] at ha
      rw [if_pos hsb] at hb
      unfold IsNegative at hsa hsb
      have hmid : (UInt64.ofNat (m.sourceCount / 2)).toNat = m.sourceCount / 2 :=
        Word.toNat_ofNat_of_lt (by omega)
      have hstrip : m.strip (m.sourceCount / 2) = m.sourceCount / 2 :=
        Nat.mod_eq_of_lt (by omega)
      have hnegative : m.isWidened = false ∧ m.IsNegative (m.sourceCount / 2) :=
        ⟨hwide, Nat.le_refl _⟩
      have hcanon := isCanonical_iff.mp (h (.ofNat (m.sourceCount / 2)) (by omega) (by omega))
      rw [hmid, hstrip, extend, if_pos hnegative] at hcanon
      omega
    · rw [if_neg hsa] at ha
      rw [if_neg hsb] at hb
      omega

section

variable {e : Extent} (hstop : e.stop ≤ Word.count)
  (h : ∀ a : Word, a.toNat ∈ e → m.IsCanonical a)
include hstop h

/-- As far as an address of a run lies from the first one, its translated bits lie from those. -/
theorem strip_add_of_mem {n : Nat} (hn : n ∈ e) :
    m.strip e.start + (n - e.start) = m.strip n := by
  obtain ⟨hle, hlt⟩ := Extent.mem_iff.mp hn
  have hword : ∀ k ≤ n, (UInt64.ofNat k).toNat = k := by
    intro k hk
    apply Word.toNat_ofNat_of_lt
    unfold Extent.stop at hstop
    omega
  have hadd := strip_add_of_run (m := m) (a := .ofNat e.start) (b := .ofNat n)
  rw [hword e.start hle, hword n (Nat.le_refl n)] at hadd
  apply hadd hle
  intro c hac hcb
  apply h
  exact Extent.mem_iff.mpr (by omega)

theorem canonical?_of_mem {a : Word} (ha : a.toNat ∈ e) :
    m.canonical? a = some (.ofNat (m.strip e.start + (a.toNat - e.start))) := by
  rw [(h a ha).canonical?_eq, strip_add_of_mem hstop h ha]

end

/-- The mode translates the addresses of `e` to the numbers of `f`, one to one. -/
structure Translates (m : Mode) (e f : Extent) : Prop where
  /-- There are as many. -/
  size_eq : f.size = e.size
  /-- The numbers are translated bits. -/
  stop_le : f.stop ≤ m.sourceCount
  /-- Every address is translated, to one of the numbers. -/
  maps : ∀ a : Word, a.toNat ∈ e → ∃ s, m.canonical? a = some s ∧ s.toNat ∈ f
  /-- No two addresses are translated to one number. -/
  injective : ∀ a b : Word, a.toNat ∈ e → b.toNat ∈ e → m.canonical? a = m.canonical? b → a = b
  /-- Every number is that of an address. -/
  onto : ∀ s : Word, s.toNat ∈ f → ∃ a : Word, a.toNat ∈ e ∧ m.canonical? a = some s

/-- **A run of canonical addresses is translated one to one, to a run.** -/
theorem exists_translates {e : Extent} (hpos : 0 < e.size) (hstop : e.stop ≤ Word.count)
    (h : ∀ a : Word, a.toNat ∈ e → m.IsCanonical a) : ∃ f, m.Translates e f := by
  have hlast : m.strip e.start + e.size ≤ m.sourceCount := by
    have hmem : e.start + (e.size - 1) ∈ e := Extent.mem_iff.mpr (by omega)
    have hlt := m.strip_lt (e.start + (e.size - 1))
    rw [← strip_add_of_mem hstop h hmem] at hlt
    omega
  have hcount := m.sourceCount_le
  have hbits : ∀ i < e.size, (UInt64.ofNat (m.strip e.start + i)).toNat = m.strip e.start + i := by
    intro i hi
    apply Word.toNat_ofNat_of_lt
    omega
  refine ⟨⟨m.strip e.start, e.size⟩, rfl, hlast, fun a ha => ?_, fun a b ha hb heq => ?_,
    fun s hs => ?_⟩
  · obtain ⟨hle, hlt⟩ := Extent.mem_iff.mp ha
    refine ⟨_, canonical?_of_mem hstop h ha, ?_⟩
    rw [hbits _ (by omega)]
    show m.strip e.start ≤ _ ∧ _ < m.strip e.start + e.size
    omega
  · obtain ⟨hale, halt⟩ := Extent.mem_iff.mp ha
    obtain ⟨hble, hblt⟩ := Extent.mem_iff.mp hb
    rw [canonical?_of_mem hstop h ha, canonical?_of_mem hstop h hb, Option.some.injEq,
      ← UInt64.toNat_inj, hbits _ (by omega), hbits _ (by omega)] at heq
    apply UInt64.toNat_inj.mp
    omega
  · -- the address that lies as far into its run as the number does
    replace hs : m.strip e.start ≤ s.toNat ∧ s.toNat < m.strip e.start + e.size := hs
    have hword : (UInt64.ofNat (e.start + (s.toNat - m.strip e.start))).toNat
        = e.start + (s.toNat - m.strip e.start) := by
      apply Word.toNat_ofNat_of_lt
      unfold Extent.stop at hstop
      omega
    have hmem : (UInt64.ofNat (e.start + (s.toNat - m.strip e.start))).toNat ∈ e := by
      rw [hword]
      exact Extent.mem_iff.mpr (by omega)
    refine ⟨_, hmem, ?_⟩
    rw [canonical?_of_mem hstop h hmem, hword, Nat.add_sub_cancel_left, Nat.add_sub_cancel' hs.1,
      UInt64.ofNat_toNat]

end FirmwareMap.Mode
