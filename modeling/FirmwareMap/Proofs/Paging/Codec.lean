/-
  FirmwareMap.Proofs.Paging.Codec
  ───────────────────────────────
  **WHAT AN ENTRY KEEPS OF AN ADDRESS.**

  The levels of a mode cut an address into fields, and an entry keeps each
  field two bits lower than it stood.  The fields of one mode follow on from
  each other without a gap, so together they move one run of 44 bits:

      store a  =  a / 4096 mod 2^44 · 1024
      load w   =  w / 1024 mod 2^44 · 4096

  An entry therefore keeps an address of a page up to a multiple of 2^56, the
  number of addresses within its reach, and keeps all that is said of a leaf:

      load (pointer a)         =  a mod 2^56
      decode? (encode leaf)    =  leaf with its frame mod 2^56
-/
import FirmwareMap.Paging.Entry

namespace FirmwareMap

/-! ## §1. Runs of fields that move together. -/

/-- The number of bits of the first fields. -/
def runWidth : List (BitField × BitField) → Nat
  | [] => 0
  | (f, _) :: rest => runWidth rest + f.width

/-- The first fields follow on from each other down to bit `p` and the second ones down to bit `q`,
each as wide as its partner. -/
def Aligned (p q : Nat) : List (BitField × BitField) → Prop
  | [] => True
  | (f, g) :: rest =>
    f.lsb = p + runWidth rest ∧ g.lsb = q + runWidth rest ∧ g.width = f.width ∧ Aligned p q rest

/-- Moving each field on its own moves the whole run. -/
theorem toNat_sum_place_extract {p q : Nat} (w : Word) :
    ∀ {pairs : List (BitField × BitField)}, Aligned p q pairs → q + runWidth pairs ≤ 64 →
      (Entry.sum (pairs.map fun (f, g) => g.place (f.extract w))).toNat
        = w.toNat / twoPow p % twoPow (runWidth pairs) * twoPow q
  | [], _, _ => by
    show (0 : Word).toNat = w.toNat / twoPow p % 1 * twoPow q
    rw [Nat.mod_one, Nat.zero_mul]
    rfl
  | (f, g) :: rest, ⟨hf, hg, hw, hrest⟩, hn => by
    simp only [runWidth] at hn ⊢
    have ih := toNat_sum_place_extract w hrest (by omega)
    -- the lower fields end where this one begins, so the sum is one remainder split in two
    have hsum : w.toNat / twoPow p % twoPow (runWidth rest + f.width) * twoPow q
        = (g.place (f.extract w)).toNat
          + w.toNat / twoPow p % twoPow (runWidth rest) * twoPow q := by
      rw [BitField.toNat_place, BitRun.toNat_extract, hf, hg, hw, Nat.mod_mod, twoPow_add p,
        ← Nat.div_div_eq_div_mul, twoPow_add (runWidth rest), Nat.mod_mul, twoPow_add q,
        Nat.add_mul, Nat.mul_comm (twoPow (runWidth rest)) (_ % _), Nat.mul_assoc,
        Nat.mul_comm (twoPow (runWidth rest)) (twoPow q)]
      exact Nat.add_comm _ _
    have hlt : w.toNat / twoPow p % twoPow (runWidth rest + f.width) * twoPow q < Word.count := by
      have hmod := Nat.mod_lt (w.toNat / twoPow p) (twoPow_pos (runWidth rest + f.width))
      calc w.toNat / twoPow p % twoPow (runWidth rest + f.width) * twoPow q
          < twoPow (runWidth rest + f.width) * twoPow q :=
            Nat.mul_lt_mul_of_pos_right hmod (twoPow_pos q)
        _ = twoPow (q + (runWidth rest + f.width)) := by rw [← twoPow_add, Nat.add_comm]
        _ ≤ Word.count := twoPow_le_twoPow hn
    show (g.place (f.extract w) + Entry.sum _).toNat = _
    rw [UInt64.toNat_add, ih, ← hsum]
    exact Nat.mod_eq_of_lt hlt

/-! ## §2. Addresses in an entry. -/

namespace Entry

/-- The number of addresses that an entry can tell apart. -/
def reach : Nat := twoPow 56

/-- The fields of a mode are the 44 bits from bit 12 of an address, and from bit 10 of an entry. -/
theorem runs_of_levels {m : Mode} (hm : m.isPaged) :
    Aligned 12 10 (m.levels.map fun l => (l.frame, l.stored))
      ∧ Aligned 10 12 (m.levels.map fun l => (l.stored, l.frame))
      ∧ runWidth (m.levels.map fun l => (l.frame, l.stored)) = 44
      ∧ runWidth (m.levels.map fun l => (l.stored, l.frame)) = 44 := by
  cases m with
  | bare => exact absurd hm (by decide)
  | sv39 | sv39x4 =>
    exact ⟨⟨rfl, rfl, rfl, rfl, rfl, rfl, rfl, rfl, rfl, trivial⟩,
      ⟨rfl, rfl, rfl, rfl, rfl, rfl, rfl, rfl, rfl, trivial⟩, rfl, rfl⟩
  | sv48 | sv48x4 =>
    exact ⟨⟨rfl, rfl, rfl, rfl, rfl, rfl, rfl, rfl, rfl, rfl, rfl, rfl, trivial⟩,
      ⟨rfl, rfl, rfl, rfl, rfl, rfl, rfl, rfl, rfl, rfl, rfl, rfl, trivial⟩, rfl, rfl⟩

theorem toNat_store {m : Mode} (hm : m.isPaged) (a : Word) :
    (store m a).toNat = a.toNat / twoPow 12 % twoPow 44 * twoPow 10 := by
  obtain ⟨hstore, -, hwidth, -⟩ := runs_of_levels hm
  rw [← hwidth, ← toNat_sum_place_extract a hstore (by omega), List.map_map]
  rfl

theorem toNat_load {m : Mode} (hm : m.isPaged) (w : Word) :
    (load m w).toNat = w.toNat / twoPow 10 % twoPow 44 * twoPow 12 := by
  obtain ⟨-, hload, -, hwidth⟩ := runs_of_levels hm
  rw [← hwidth, ← toNat_sum_place_extract w hload (by omega), List.map_map]
  rfl

/-- An entry tells no address beyond its reach. -/
theorem load_lt {m : Mode} (hm : m.isPaged) (w : Word) : (load m w).toNat < reach := by
  have h := Nat.mod_lt (w.toNat / twoPow 10) (twoPow_pos 44)
  rw [toNat_load hm]
  simp only [reach, twoPow, Nat.pow_eq, Nat.reducePow] at h ⊢
  omega

/-! ## §3. Pointers. -/

/-- Flags as numbers. -/
@[simp] theorem toNat_placeFlag (f : BitField) (hf : f.width = 1) (b : Bool) :
    (placeFlag f b).toNat = b.toNat * twoPow f.lsb := by
  rw [placeFlag, BitField.toNat_place, hf]
  cases b <;> rfl

/-- A pointer is the number of the table's page above ten bits, of which only the lowest is set. -/
theorem toNat_pointer {m : Mode} (hm : m.isPaged) (a : Word) :
    (pointer m a).toNat = a.toNat / twoPow 12 % twoPow 44 * twoPow 10 + 1 := by
  rw [pointer, UInt64.toNat_add, toNat_store hm, toNat_placeFlag _ rfl]
  have h := Nat.mod_lt (a.toNat / twoPow 12) (twoPow_pos 44)
  simp only [twoPow, Nat.pow_eq, Nat.reducePow, validField, BitField.bits, Bool.toNat_true] at h ⊢
  omega

/-- Whether a field is set, as arithmetic. -/
theorem isSet_iff (f : BitField) (w : Word) :
    isSet f w = true ↔ w.toNat / twoPow f.lsb % twoPow f.width ≠ 0 := by
  rw [isSet, decide_eq_true_iff, Ne, ← UInt64.toNat_inj, BitRun.toNat_extract, UInt64.toNat_zero]

@[simp] theorem isValid_pointer {m : Mode} (hm : m.isPaged) (a : Word) :
    isValid (pointer m a) = true := by
  rw [isValid, isSet_iff, toNat_pointer hm]
  simp only [twoPow, Nat.pow_eq, Nat.reducePow, validField, BitField.bits, BitRun.width]
  omega

@[simp] theorem isLeaf_pointer {m : Mode} (hm : m.isPaged) (a : Word) :
    isLeaf (pointer m a) = false := by
  rw [Bool.eq_false_iff, isLeaf, Ne, isSet_iff, toNat_pointer hm]
  simp only [twoPow, Nat.pow_eq, Nat.reducePow, permissionField, BitField.bits, BitRun.width]
  omega

/-- A pointer leads to the start of the page that it was made for, up to the reach of entries. -/
theorem toNat_load_pointer {m : Mode} (hm : m.isPaged) {a : Word} (ha : a.toNat % 4096 = 0) :
    (load m (pointer m a)).toNat = a.toNat % reach := by
  rw [toNat_load hm, toNat_pointer hm]
  simp only [reach, twoPow, Nat.pow_eq, Nat.reducePow]
  omega

@[simp] theorem pointer_ne_zero {m : Mode} (hm : m.isPaged) (a : Word) : pointer m a ≠ 0 := by
  intro h
  have := congrArg UInt64.toNat h
  rw [toNat_pointer hm] at this
  exact absurd this (Nat.succ_ne_zero _)

@[simp] theorem isLeaf_zero : isLeaf 0 = false := by decide

@[simp] theorem isValid_zero : isValid 0 = false := by decide

theorem ne_zero_of_isValid {w : Word} (h : isValid w = true) : w ≠ 0 := by
  intro hzero
  rw [hzero, isValid_zero] at h
  cases h

end Entry

/-! ## §4. Leaves. -/

namespace Leaf

/-- The flags, permissions and memory type of a leaf, where an entry keeps them. -/
def marks (leaf : Leaf) : Nat :=
  leaf.valid.toNat + 2 * leaf.permissions.bits + 16 * leaf.user.toNat + 64 * leaf.accessed.toNat
    + 128 * leaf.dirty.toNat

theorem marks_lt (leaf : Leaf) : leaf.marks < 1024 := by
  have hp := leaf.permissions.bits_lt
  have hb : ∀ b : Bool, b.toNat ≤ 1 := Bool.toNat_le
  have h₁ := hb leaf.valid
  have h₂ := hb leaf.user
  have h₃ := hb leaf.accessed
  have h₄ := hb leaf.dirty
  unfold marks
  omega

/-- A leaf entry is the sum of its fields, and no sum of them leaves the word. -/
theorem toNat_encode {m : Mode} (hm : m.isPaged) (leaf : Leaf) :
    (leaf.encode m).toNat
      = leaf.frame.toNat / twoPow 12 % twoPow 44 * twoPow 10 + leaf.marks
        + leaf.pbmt.bits * twoPow 61 := by
  have hframe := Nat.mod_lt (leaf.frame.toNat / twoPow 12) (twoPow_pos 44)
  have hmarks := leaf.marks_lt
  have hpbmt := leaf.pbmt.bits_lt
  have hbits := leaf.permissions.bits_lt
  have hxwr : (UInt64.ofNat leaf.permissions.bits).toNat = leaf.permissions.bits :=
    Word.toNat_ofNat_of_lt (Nat.lt_trans hbits (by decide))
  have hmem : (UInt64.ofNat leaf.pbmt.bits).toNat = leaf.pbmt.bits :=
    Word.toNat_ofNat_of_lt (Nat.lt_trans hpbmt (by decide))
  simp only [encode, Entry.sum, List.foldr, UInt64.toNat_add, UInt64.toNat_zero,
    Entry.toNat_store hm, Entry.toNat_placeFlag Entry.validField rfl,
    Entry.toNat_placeFlag Entry.userField rfl, Entry.toNat_placeFlag Entry.accessedField rfl,
    Entry.toNat_placeFlag Entry.dirtyField rfl, BitField.toNat_place, hxwr, hmem]
  simp only [marks, Entry.validField, Entry.permissionField, Entry.userField, Entry.accessedField,
    Entry.dirtyField, Entry.pbmtField, BitField.bits, BitRun.width, twoPow, Nat.pow_eq,
    Nat.reducePow, Nat.reduceSub, Nat.reduceAdd] at hframe hmarks ⊢
  omega

/-- The permissions are read back, and they mark the entry as a leaf. -/
theorem toNat_permissions_encode {m : Mode} (hm : m.isPaged) (leaf : Leaf) :
    (Entry.permissionField.extract (leaf.encode m)).toNat = leaf.permissions.bits := by
  have hbits := leaf.permissions.bits_lt
  have hvalid := Bool.toNat_le leaf.valid
  rw [BitRun.toNat_extract, toNat_encode hm]
  simp only [marks, Entry.permissionField, BitField.bits, BitRun.width, twoPow, Nat.pow_eq,
    Nat.reducePow, Nat.reduceSub, Nat.reduceAdd]
  omega

theorem toNat_pbmt_encode {m : Mode} (hm : m.isPaged) (leaf : Leaf) :
    (Entry.pbmtField.extract (leaf.encode m)).toNat = leaf.pbmt.bits := by
  have hframe := Nat.mod_lt (leaf.frame.toNat / twoPow 12) (twoPow_pos 44)
  have hmarks := leaf.marks_lt
  have hpbmt := leaf.pbmt.bits_lt
  rw [BitRun.toNat_extract, toNat_encode hm]
  simp only [Entry.pbmtField, BitField.bits, BitRun.width, twoPow, Nat.pow_eq, Nat.reducePow,
    Nat.reduceSub, Nat.reduceAdd] at hframe ⊢
  omega

@[simp] theorem isLeaf_encode {m : Mode} (hm : m.isPaged) (leaf : Leaf) :
    Entry.isLeaf (leaf.encode m) = true := by
  rw [Entry.isLeaf, Entry.isSet, decide_eq_true_iff, Ne, ← UInt64.toNat_inj,
    toNat_permissions_encode hm, UInt64.toNat_zero]
  exact Nat.ne_of_gt leaf.permissions.bits_pos

theorem encode_ne_zero {m : Mode} (hm : m.isPaged) (leaf : Leaf) : leaf.encode m ≠ 0 := by
  intro h
  have hleaf := isLeaf_encode hm leaf
  rw [h, Entry.isLeaf_zero] at hleaf
  cases hleaf

/-- The flag of a leaf in a field of one bit is read back, whichever field it is. -/
theorem isSet_encode {m : Mode} (hm : m.isPaged) (leaf : Leaf) :
    Entry.isSet Entry.validField (leaf.encode m) = leaf.valid
      ∧ Entry.isSet Entry.userField (leaf.encode m) = leaf.user
      ∧ Entry.isSet Entry.accessedField (leaf.encode m) = leaf.accessed
      ∧ Entry.isSet Entry.dirtyField (leaf.encode m) = leaf.dirty := by
  have hbits := leaf.permissions.bits_lt
  have hvalid := Bool.toNat_le leaf.valid
  have huser := Bool.toNat_le leaf.user
  have haccessed := Bool.toNat_le leaf.accessed
  have hdirty := Bool.toNat_le leaf.dirty
  -- a flag is set when its number is not zero
  have hflag : ∀ b : Bool, (b = true ↔ b.toNat ≠ 0) := by decide
  refine ⟨?_, ?_, ?_, ?_⟩ <;>
    rw [Bool.eq_iff_iff, Entry.isSet_iff, toNat_encode hm, hflag] <;>
    simp only [marks, Entry.validField, Entry.userField, Entry.accessedField, Entry.dirtyField,
      BitField.bits, BitRun.width, twoPow, Nat.pow_eq, Nat.reducePow, Nat.reduceSub,
      Nat.reduceAdd] <;>
    omega

/-- The frame of a leaf that is read is what the entry tells of an address. -/
theorem frame_of_decode? {m : Mode} {w : Word} {leaf : Leaf} (h : decode? m w = some leaf) :
    leaf.frame = Entry.load m w := by
  simp only [decode?, Option.bind_eq_bind, Option.bind_eq_some_iff, Option.pure_def,
    Option.some.injEq] at h
  obtain ⟨_, -, _, -, rfl⟩ := h
  rfl

/-- The frame is read back up to the reach of entries. -/
theorem toNat_load_encode {m : Mode} (hm : m.isPaged) {leaf : Leaf}
    (ha : leaf.frame.toNat % 4096 = 0) :
    (Entry.load m (leaf.encode m)).toNat = leaf.frame.toNat % Entry.reach := by
  have hmarks := leaf.marks_lt
  rw [Entry.toNat_load hm, toNat_encode hm]
  simp only [Entry.reach, twoPow, Nat.pow_eq, Nat.reducePow]
  omega

/-- **A leaf entry says all that the leaf says**, but for the bits of the frame beyond the reach of
entries. -/
theorem decode?_encode {m : Mode} (hm : m.isPaged) {leaf : Leaf}
    (ha : leaf.frame.toNat % 4096 = 0) :
    decode? m (leaf.encode m)
      = some { leaf with frame := .ofNat (leaf.frame.toNat % Entry.reach) } := by
  have hp : Permissions.ofBits? (Entry.permissionField.extract (leaf.encode m))
      = some leaf.permissions :=
    Permissions.ofBits?_eq_some_iff.mpr (toNat_permissions_encode hm leaf).symm
  have ht : Pbmt.ofBits? (Entry.pbmtField.extract (leaf.encode m)) = some leaf.pbmt :=
    Pbmt.ofBits?_eq_some_iff.mpr (toNat_pbmt_encode hm leaf).symm
  have hf : Entry.load m (leaf.encode m) = .ofNat (leaf.frame.toNat % Entry.reach) := by
    rw [← toNat_load_encode hm ha, UInt64.ofNat_toNat]
  obtain ⟨hvalid, huser, haccessed, hdirty⟩ := isSet_encode hm leaf
  simp only [decode?, hp, ht, hf, huser, haccessed, hdirty, Entry.isValid, hvalid]
  rfl

end Leaf

end FirmwareMap
