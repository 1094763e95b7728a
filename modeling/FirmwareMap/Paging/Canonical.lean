/-
  FirmwareMap.Paging.Canonical
  ────────────────────────────
  **WHICH SOURCE ADDRESSES A MODE CAN TRANSLATE.**

  A mode translates the low `sourceBits` bits of an address.  The bits above
  have to be what those bits extend to: copies of the sign, or zeros in the
  widened modes.

      canonical? m a = some s  ↔  a = extend m s  and  s < 2 ^ sourceBits
-/
import FirmwareMap.Paging.Mode

namespace FirmwareMap.Mode

/-! ## §1. Stripping and extending. -/

/-- The number of values that the translated bits can take. -/
def sourceCount (m : Mode) : Nat :=
  twoPow m.sourceBits

/-- The translated bits of an address. -/
def strip (m : Mode) (a : Nat) : Nat :=
  a % m.sourceCount

/-- Whether the uppermost translated bit is set. -/
def IsNegative (m : Mode) (s : Nat) : Prop :=
  m.sourceCount / 2 ≤ s

instance (m : Mode) (s : Nat) : Decidable (m.IsNegative s) :=
  inferInstanceAs (Decidable (_ ≤ _))

/-- The address that the translated bits extend to. -/
def extend (m : Mode) (s : Nat) : Nat :=
  if m.isWidened = false ∧ m.IsNegative s then s + (Word.count - m.sourceCount) else s

/-- The translated bits of an address, if the other bits are what they extend to. -/
def canonical? (m : Mode) (a : Word) : Option Word :=
  if m.extend (m.strip a.toNat) = a.toNat then some (.ofNat (m.strip a.toNat)) else none

/-! ## §2. Their values. -/

theorem sourceBits_le (m : Mode) : m.sourceBits ≤ 64 := by
  cases m <;> decide

theorem sourceCount_le (m : Mode) : m.sourceCount ≤ Word.count :=
  twoPow_le_twoPow m.sourceBits_le

theorem sourceCount_pos (m : Mode) : 0 < m.sourceCount :=
  twoPow_pos _

theorem strip_lt (m : Mode) (a : Nat) : m.strip a < m.sourceCount :=
  Nat.mod_lt _ m.sourceCount_pos

/-- Stripping undoes extending. -/
theorem strip_extend {m : Mode} {s : Nat} (h : s < m.sourceCount) : m.strip (m.extend s) = s := by
  have hdvd : m.sourceCount ∣ Word.count - m.sourceCount :=
    Nat.dvd_sub (twoPow_dvd_twoPow m.sourceBits_le) (Nat.dvd_refl _)
  unfold strip extend
  split
  · rw [Nat.add_mod, Nat.mod_eq_zero_of_dvd hdvd, Nat.add_zero, Nat.mod_mod,
      Nat.mod_eq_of_lt h]
  · exact Nat.mod_eq_of_lt h

theorem canonical?_eq_some_iff {m : Mode} {a s : Word} :
    m.canonical? a = some s ↔ a.toNat = m.extend s.toNat ∧ s.toNat < m.sourceCount := by
  have hs := m.strip_lt a.toNat
  have hw : (UInt64.ofNat (m.strip a.toNat)).toNat = m.strip a.toNat := by
    rw [Word.toNat_ofNat_of_lt (Nat.lt_of_lt_of_le hs m.sourceCount_le)]
  unfold canonical?
  constructor
  · intro h
    split at h
    next he =>
      injection h with h
      subst h
      rw [hw]
      exact ⟨he.symm, hs⟩
    next => exact absurd h (by simp)
  · intro hgiven
    obtain ⟨ha, hlt⟩ := hgiven
    have hstrip : m.strip a.toNat = s.toNat := by rw [ha, strip_extend hlt]
    rw [hstrip, if_pos ha.symm, UInt64.ofNat_toNat]

end FirmwareMap.Mode
