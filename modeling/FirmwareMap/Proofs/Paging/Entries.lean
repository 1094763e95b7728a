/-
  FirmwareMap.Proofs.Paging.Entries
  ─────────────────────────────────
  **ENTRIES AS NUMBERS.**

  The tables hold two kinds of entries: pointers to tables, and leaves of pages
  that count as used and as written.  An address within the reach of entries is
  kept whole, so an entry for the frame or the table at `d` is the number

      leaf     = d / 4096 · 2^10 + memory type · 2^61 + 2^7 + 2^6 + user · 2^4
                   + permissions · 2 + valid
      pointer  = d / 4096 · 2^10 + 1

  in every paged mode, whatever fields its levels cut the address into.  The
  number tells all that went into it, but for whether the memory type of the
  region was asked for or is what a leaf has that asks for none.
-/
import FirmwareMap.Proofs.Paging.Codec

namespace FirmwareMap

/-! ## §1. Addresses within the reach of entries. -/

namespace Entry

variable {m : Mode} {d : Word}

/-- The bits of an entry that stand for nothing. -/
def reservedBits : List Nat :=
  [5, 8, 9, 54, 55, 56, 57, 58, 59, 60, 63]

/-- An address within reach is kept whole, two bits lower. -/
theorem toNat_store_of_lt (hm : m.isPaged) (hd : d.toNat < reach) :
    (store m d).toNat = d.toNat / 4096 * twoPow 10 := by
  rw [toNat_store hm]
  simp only [reach, twoPow, Nat.pow_eq, Nat.reducePow] at hd ⊢
  omega

theorem toNat_pointer_of_lt (hm : m.isPaged) (hd : d.toNat < reach) :
    (pointer m d).toNat = d.toNat / 4096 * twoPow 10 + 1 := by
  rw [toNat_pointer hm]
  simp only [reach, twoPow, Nat.pow_eq, Nat.reducePow] at hd ⊢
  omega

/-- A pointer to a table within reach leads to the table. -/
theorem load_pointer_of_lt (hm : m.isPaged) (halign : d.toNat % 4096 = 0)
    (hd : d.toNat < reach) : load m (pointer m d) = d := by
  rw [← UInt64.toNat_inj, toNat_load_pointer hm halign, Nat.mod_eq_of_lt hd]

end Entry

/-! ## §2. The leaves of pages. -/

namespace Leaf

variable {m : Mode} {d d' : Word} {permissions permissions' : Permissions}
  {user user' valid valid' : Bool} {pbmt pbmt' : Option Pbmt}

theorem toNat_encode_mapped (hm : m.isPaged) (hd : d.toNat < Entry.reach) :
    ((mapped d permissions user pbmt valid).encode m).toNat
      = d.toNat / 4096 * twoPow 10 + (pbmt.getD .pma).bits * twoPow 61 + twoPow 7
        + twoPow 6 + user.toNat * twoPow 4 + permissions.bits * 2 + valid.toNat := by
  rw [toNat_encode hm]
  simp only [mapped, marks, Bool.toNat_true, Entry.reach, twoPow, Nat.pow_eq,
    Nat.reducePow] at hd ⊢
  omega

/-- **Nothing of a leaf stands in the reserved bits.** -/
theorem testBit_encode_mapped (hm : m.isPaged) (hd : d.toNat < Entry.reach) {i : Nat}
    (hi : i ∈ Entry.reservedBits) :
    ((mapped d permissions user pbmt valid).encode m).toNat.testBit i = false := by
  have hbits := permissions.bits_lt
  have huser := Bool.toNat_le user
  have hvalid := Bool.toNat_le valid
  -- no memory type has both bits of its field, so the sum ends below the uppermost bit
  have htype : (pbmt.getD .pma).bits ≤ 2 := by
    cases pbmt.getD .pma <;> decide
  rw [toNat_encode_mapped hm hd, Nat.testBit_eq_decide_div_mod_eq, decide_eq_false_iff_not]
  simp only [Entry.reservedBits, List.mem_cons, List.not_mem_nil, or_false] at hi
  simp only [Entry.reach, twoPow, Nat.pow_eq, Nat.reducePow] at hd ⊢
  rcases hi with rfl | rfl | rfl | rfl | rfl | rfl | rfl | rfl | rfl | rfl | rfl <;>
    simp only [Nat.reducePow] <;>
    omega

theorem decode?_encode_mapped (hm : m.isPaged) (halign : d.toNat % 4096 = 0)
    (hd : d.toNat < Entry.reach) :
    decode? m ((mapped d permissions user pbmt valid).encode m)
      = some (mapped d permissions user pbmt valid) := by
  rw [decode?_encode hm halign]
  show some { mapped d permissions user pbmt valid with
    frame := .ofNat (d.toNat % Entry.reach) } = _
  rw [Nat.mod_eq_of_lt hd, UInt64.ofNat_toNat]
  rfl

/-- **Leaves are told apart by their entries**, up to asking for the memory type of the region. -/
theorem encode_mapped_inj (hm : m.isPaged) (halign : d.toNat % 4096 = 0)
    (hd : d.toNat < Entry.reach) (halign' : d'.toNat % 4096 = 0) (hd' : d'.toNat < Entry.reach) :
    (mapped d permissions user pbmt valid).encode m
        = (mapped d' permissions' user' pbmt' valid').encode m
      ↔ d = d' ∧ permissions = permissions' ∧ user = user' ∧ pbmt.getD .pma = pbmt'.getD .pma
        ∧ valid = valid' := by
  constructor
  · intro h
    have hsame := congrArg (decode? m) h
    rw [decode?_encode_mapped hm halign hd, decode?_encode_mapped hm halign' hd',
      Option.some.injEq, mapped, mapped, Leaf.mk.injEq] at hsame
    obtain ⟨hframe, hpermissions, huser, -, -, hpbmt, hvalid⟩ := hsame
    exact ⟨hframe, hpermissions, huser, hpbmt, hvalid⟩
  · intro h
    obtain ⟨rfl, rfl, rfl, hpbmt, rfl⟩ := h
    rw [mapped, mapped, hpbmt]

end Leaf

/-! ## §3. The codec. -/

/-- **Entries as numbers.**  In every paged mode the entry of a leaf, and that of a pointer, is the
number of the frame or the table above ten bits with the marks of the entry in their places and
zeros in all others, and is read back as what went into it. -/
theorem Entry.encodes_exactly {m : Mode} (hm : m.isPaged) {d : Word}
    (halign : d.toNat % 4096 = 0) (hd : d.toNat < twoPow 56) :
    (Entry.store m d).toNat = d.toNat / 4096 * twoPow 10
      ∧ (∀ permissions user pbmt valid,
          let w := (Leaf.mapped d permissions user pbmt valid).encode m
          w.toNat = d.toNat / 4096 * twoPow 10 + (pbmt.getD .pma).bits * twoPow 61 + twoPow 7
              + twoPow 6 + user.toNat * twoPow 4 + permissions.bits * 2 + valid.toNat
            ∧ (∀ i ∈ Entry.reservedBits, w.toNat.testBit i = false)
            ∧ Entry.isLeaf w = true
            ∧ Leaf.decode? m w
                = some {
                    frame := d
                    permissions
                    user
                    accessed := true
                    dirty := true
                    pbmt := pbmt.getD .pma
                    valid }
            ∧ ∀ (d' : Word) permissions' user' pbmt' valid',
                d'.toNat % 4096 = 0 → d'.toNat < twoPow 56 →
                (w = (Leaf.mapped d' permissions' user' pbmt' valid').encode m
                  ↔ d = d' ∧ permissions = permissions' ∧ user = user'
                    ∧ pbmt.getD .pma = pbmt'.getD .pma ∧ valid = valid'))
      ∧ (Entry.pointer m d).toNat = d.toNat / 4096 * twoPow 10 + 1
      ∧ Entry.isValid (Entry.pointer m d) = true
      ∧ Entry.isLeaf (Entry.pointer m d) = false
      ∧ Entry.load m (Entry.pointer m d) = d := by
  refine ⟨toNat_store_of_lt hm hd, fun permissions user pbmt valid => ?_,
    toNat_pointer_of_lt hm hd, isValid_pointer hm d, isLeaf_pointer hm d,
    load_pointer_of_lt hm halign hd⟩
  exact ⟨Leaf.toNat_encode_mapped hm hd, fun i hi => Leaf.testBit_encode_mapped hm hd hi,
    Leaf.isLeaf_encode hm _, Leaf.decode?_encode_mapped hm halign hd,
    fun d' _ _ _ _ halign' hd' => Leaf.encode_mapped_inj hm halign hd halign' hd'⟩

/-- The last page within reach, mapped for devices but not in force. -/
theorem Entry.topPage_encodes :
    Mode.sv48.isPaged ∧ (0xff_ffff_ffff_f000 : Word).toNat % 4096 = 0
      ∧ (0xff_ffff_ffff_f000 : Word).toNat < twoPow 56
      ∧ (Leaf.mapped 0xff_ffff_ffff_f000 .rw true (some .io) false).encode .sv48
          = 0x403f_ffff_ffff_fcd6 := by
  refine ⟨by decide, by decide, by decide, ?_⟩
  obtain ⟨-, hleaf, -⟩ := Entry.encodes_exactly (m := .sv48) (d := 0xff_ffff_ffff_f000)
    (by decide) (by decide) (by decide)
  rw [← UInt64.toNat_inj, (hleaf .rw true (some .io) false).1]
  rfl

end FirmwareMap
