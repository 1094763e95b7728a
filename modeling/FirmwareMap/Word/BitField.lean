/-
  FirmwareMap.Word.BitField
  ─────────────────────────
  **NAMED BITS OF A WORD.**

  A `BitRun` is a run of consecutive bits, most significant bit first.
  `extract` reads the number that the bits spell, `place` moves a number to
  the bits.  The upper bits of a run may lie above the word: they read as zero,
  and what is placed there is dropped.  A `BitField` is a run within the word,
  so nothing of what fits its width is dropped:

      (r.extract w).toNat = w.toNat / 2^lsb % 2^width
      (f.place v).toNat   = v.toNat % 2^width * 2^lsb

  A word made of several fields is the sum of its placed fields: the fields of
  one word have no bit in common, so no carry crosses from one to the next.
-/
import FirmwareMap.Word.Basic

namespace FirmwareMap

/-! ## §1. Runs of bits. -/

/-- The bits `lsb` to `msb`, both included, of which the upper ones may lie above the word. -/
structure BitRun where
  msb : Nat
  lsb : Nat
  /-- The run has at least one bit. -/
  lsb_le_msb : lsb ≤ msb
  /-- The run starts within a word. -/
  lsb_lt : lsb < 64
  deriving DecidableEq, Repr

namespace BitRun

/-- The number of bits, those above the word included. -/
def width (r : BitRun) : Nat :=
  r.msb - r.lsb + 1

/-- The number that the bits of `w` in this run spell. -/
def extract (r : BitRun) (w : Word) : Word :=
  .ofNat (w.toNat / twoPow r.lsb % twoPow r.width)

/-- The word that has the low bits of `v` in this run and zero elsewhere. -/
def place (r : BitRun) (v : Word) : Word :=
  .ofNat (v.toNat % twoPow r.width * twoPow r.lsb)

theorem width_add_lsb (r : BitRun) : r.width + r.lsb = r.msb + 1 := by
  have := r.lsb_le_msb
  unfold width
  omega

/-- What a word has from some bit on is a word. -/
@[simp] theorem toNat_extract (r : BitRun) (w : Word) :
    (r.extract w).toNat = w.toNat / twoPow r.lsb % twoPow r.width := by
  have hmod := Nat.mod_le (w.toNat / twoPow r.lsb) (twoPow r.width)
  have hdiv := Nat.div_le_self w.toNat (twoPow r.lsb)
  exact Word.toNat_ofNat_of_lt
    (Nat.lt_of_le_of_lt (Nat.le_trans hmod hdiv) w.toNat_lt_size)

/-- What is placed above the word is dropped. -/
theorem toNat_place (r : BitRun) (v : Word) :
    (r.place v).toNat = v.toNat % twoPow r.width * twoPow r.lsb % Word.count :=
  UInt64.toNat_ofNat'

theorem extract_lt (r : BitRun) (w : Word) : (r.extract w).toNat < twoPow r.width := by
  rw [toNat_extract]
  exact Nat.mod_lt _ (twoPow_pos _)

end BitRun

/-! ## §2. Fields. -/

/-- A run of bits within a word. -/
structure BitField extends BitRun where
  /-- The field ends within a word. -/
  msb_lt : msb < 64
  deriving DecidableEq, Repr

namespace BitField

/-- The field between two bits that are known to bound one. -/
def bits (msb lsb : Nat) (lsb_le_msb : lsb ≤ msb := by decide) (msb_lt : msb < 64 := by decide) :
    BitField :=
  ⟨⟨msb, lsb, lsb_le_msb, Nat.lt_of_le_of_lt lsb_le_msb msb_lt⟩, msb_lt⟩

theorem twoPow_width_mul_le (f : BitField) : twoPow f.width * twoPow f.lsb ≤ Word.count := by
  rw [← twoPow_add, f.width_add_lsb]
  exact twoPow_le_twoPow f.msb_lt

/-- A field drops nothing of what fits its width. -/
@[simp] theorem toNat_place (f : BitField) (v : Word) :
    (f.place v).toNat = v.toNat % twoPow f.width * twoPow f.lsb := by
  have h := Nat.mod_lt v.toNat (twoPow_pos f.width)
  have h' := Nat.mul_lt_mul_of_pos_right h (twoPow_pos f.lsb)
  rw [BitRun.toNat_place]
  exact Nat.mod_eq_of_lt (Nat.lt_of_lt_of_le h' f.twoPow_width_mul_le)

end BitField

end FirmwareMap
