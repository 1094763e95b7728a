/-
  FirmwareMap.Word.Basic
  ──────────────────────
  **64-BIT WORDS, AND SUMS THAT LEAVE THEM.**

  Addresses, page counts and table entries are 64-bit words.  Sums and
  products of addresses are taken among the natural numbers and brought back:

      ofNat? n = some w  ↔  n = w.toNat        ofNat? n = none  ↔  2^64 ≤ n

  so no sum ever wraps around unnoticed.  `twoPow n` is 2^n, the number of
  values that `n` bits can take.
-/
namespace FirmwareMap

/-! ## §1. Powers of two. -/

/-- Two to the power `n`. -/
def twoPow (n : Nat) : Nat :=
  Nat.pow 2 n

theorem twoPow_pos (n : Nat) : 0 < twoPow n :=
  Nat.two_pow_pos n

theorem twoPow_add (m n : Nat) : twoPow (m + n) = twoPow m * twoPow n :=
  Nat.pow_add 2 m n

theorem twoPow_le_twoPow {m n : Nat} (h : m ≤ n) : twoPow m ≤ twoPow n :=
  Nat.pow_le_pow_right (by decide) h

theorem twoPow_dvd_twoPow {m n : Nat} (h : m ≤ n) : twoPow m ∣ twoPow n :=
  Nat.pow_dvd_pow 2 h

/-! ## §2. Words. -/

/-- A 64-bit word: an address, a count of pages, or a table entry. -/
abbrev Word := UInt64

namespace Word

/-- The number of words. -/
abbrev count : Nat := UInt64.size

/-- The word `n`, if there is one. -/
def ofNat? (n : Nat) : Option Word :=
  if n < count then some (.ofNat n) else none

theorem toNat_ofNat_of_lt {n : Nat} (h : n < count) : (UInt64.ofNat n).toNat = n :=
  UInt64.toNat_ofNat_of_lt h

theorem ofNat?_eq_some_iff {n : Nat} {w : Word} : ofNat? n = some w ↔ n = w.toNat := by
  unfold ofNat?
  constructor
  · intro h
    split at h
    next hn =>
      injection h with h
      rw [← h, toNat_ofNat_of_lt hn]
    next => exact absurd h (by simp)
  · intro h
    rw [h, if_pos w.toNat_lt_size, UInt64.ofNat_toNat]

theorem ofNat?_eq_none_iff {n : Nat} : ofNat? n = none ↔ count ≤ n := by
  unfold ofNat?
  split
  next h => simp [Nat.not_le.mpr h]
  next h => simp [Nat.not_lt.mp h]

/-- Bringing back the number of a word gives the word. -/
@[simp] theorem ofNat?_toNat (w : Word) : ofNat? w.toNat = some w :=
  ofNat?_eq_some_iff.mpr rfl

end Word

end FirmwareMap
