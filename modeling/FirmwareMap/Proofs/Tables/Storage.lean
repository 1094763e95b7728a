/-
  FirmwareMap.Proofs.Tables.Storage
  ─────────────────────────────────
  **WHEN TWO STAGES HAVE STORAGE OF THEIR OWN.**

  The tables of each stage are built on their own: no build asks where another
  one puts its tables.  What keeps them apart is the map.  The storage of a
  stage lies in the region that the map reserves for it, and every entry lies
  in the storage:

      entry  ⊆  storage = [base, base + used)  ⊆  region

  Regions that are different mappings of one partition are disjoint.  Mappings
  of different partitions are never compared, so two regions can meet, and
  then two tables can want one address for different entries.
-/
import FirmwareMap.Proofs.Layout.Region
import FirmwareMap.Proofs.Tables.Tree

namespace FirmwareMap

/-! ## §1. Ranges in disjoint ranges. -/

namespace Extent

variable {e e' f f' : Extent}

theorem Within.trans (h : e.Within f) (h' : f.Within f') : e.Within f' :=
  ⟨Nat.le_trans h'.1 h.1, Nat.le_trans h.2 h'.2⟩

/-- What lies in disjoint ranges is disjoint. -/
theorem Disjoint.of_within (h : f.Disjoint f') (he : e.Within f) (he' : e'.Within f') :
    e.Disjoint e' := by
  unfold Disjoint Within at *
  omega

end Extent

namespace StageTables

open AddressMap (collect Admissible)

variable {a : AddressMap} {p₁ p : Platform} {t u : Stage} {b c : Budget} {pages : Nat}
  {x y : StageTables} {done : List Page} {m n : Mapping}

/-! ## §2. Storage. -/

/-- The range of addresses that the tables take up. -/
def storage (x : StageTables) : Extent :=
  ⟨x.base.toNat, x.used⟩

theorem Packed.table_within (h : x.Packed pages) : ∀ w ∈ x.tables, w.extent.Within x.storage := by
  intro w hw
  exact h.packed.bounds hw

/-- All bytes of an entry lie in the storage. -/
theorem Filled.entry_within (h : x.Filled pages done) :
    ∀ address ∈ x.entries, (Extent.mk address.toNat entryBytes).Within x.storage := by
  intro address haddress
  obtain ⟨-, w, hw, hslot, -⟩ := h.key_spec haddress
  have hentry : (Extent.mk address.toNat entryBytes).Within w.extent :=
    ⟨hslot.start_le, hslot.le_stop⟩
  exact hentry.trans (h.packed.table_within w hw)

/-- Tables that are built lie in the region of their stage, with all of their entries. -/
theorem exists_region (h : (build a p t b).outcome = .ok x) :
    ∃ m, a.region p t = .ok m ∧ x.storage.Within m.destExtent
      ∧ ∀ address ∈ x.entries, (Extent.mk address.toNat entryBytes).Within x.storage := by
  obtain ⟨pages, hpages⟩ := exists_attempt a p t b
  have hbuilt := built_of_ofMap (hpages ▸ h)
  obtain ⟨m, hregion, hbase, hbudget, -⟩ := hbuilt.region
  have hused := hbuilt.filled.packed.within
  refine ⟨m, hregion, ⟨?_, ?_⟩, hbuilt.filled.entry_within⟩
  · show m.block.dest.toNat ≤ x.base.toNat
    rw [hbase]
  · show x.base.toNat + x.used ≤ m.block.dest.toNat + m.block.bytes
    rw [hbase]
    omega

/-- Regions that are two mappings of one partition are disjoint. -/
theorem regions_disjoint (ha : a.AcceptedOn p₁) (hm : a.region p t = .ok m)
    (hn : a.region p u = .ok n) {part : Stage} (hms : m ∈ a.entries part)
    (hns : n ∈ a.entries part) (hne : m ≠ n) : m.destExtent.Disjoint n.destExtent := by
  have hplaced := fun {k : Mapping} (hk : k ∈ a.declaring p) =>
    AddressMap.isAlias_eq_false (AddressMap.sections_ne_nil hk)
  exact (ha.coherent part).disjoint hms hns hne (hplaced (AddressMap.declares_of_region hm).1)
    (hplaced (AddressMap.declares_of_region hn).1)

/-- **STORAGE OF TWO STAGES**: if the tables of two stages are built from an accepted map, the
tables of each lie in the one region of their stage; where these regions are disjoint, the storages
are, and no address has an entry in both; and regions that are different mappings of one partition
are disjoint. -/
theorem storage_apart (ha : a.AcceptedOn p₁) (hx : (build a p t b).outcome = .ok x)
    (hy : (build a p u c).outcome = .ok y) :
    ∃ m n, a.region p t = .ok m ∧ a.region p u = .ok n
      ∧ x.storage.Within m.destExtent ∧ y.storage.Within n.destExtent
      ∧ (m.destExtent.Disjoint n.destExtent → x.storage.Disjoint y.storage
          ∧ ∀ address ∈ x.entries, address ∉ y.entries)
      ∧ ∀ part, m ∈ a.entries part → n ∈ a.entries part → m ≠ n →
          m.destExtent.Disjoint n.destExtent := by
  obtain ⟨m, hm, hxm, hxentries⟩ := exists_region hx
  obtain ⟨n, hn, hyn, hyentries⟩ := exists_region hy
  refine ⟨m, n, hm, hn, hxm, hyn, fun hdisjoint => ?_, fun part hms hns hne => ?_⟩
  · have hapart : x.storage.Disjoint y.storage := hdisjoint.of_within hxm hyn
    refine ⟨hapart, fun address hxa hya => ?_⟩
    have hpos : 0 < entryBytes := by decide
    -- an address with entries in both would be an address of both storages
    have hfirst : address.toNat ∈ Extent.mk address.toNat entryBytes :=
      ⟨Nat.le_refl _, Nat.lt_add_of_pos_right hpos⟩
    exact hapart.not_mem (Extent.mem_of_within (hxentries address hxa) hfirst)
      (Extent.mem_of_within (hyentries address hya) hfirst)
  · exact regions_disjoint ha hm hn hms hns hne

/-! ## §3. Regions in one partition and in two. -/

/-- A platform on which a hypervisor and its guest have three levels of tables each. -/
def hostAndGuest : Platform where
  virtualization := true
  mode t := match t with
    | .hs | .vs => .sv39
    | .s | .g => .bare
  supported t := by cases t <;> decide

/-- Code of the hypervisor. -/
def hostCode : Mapping :=
  .translated ⟨.hs, 0x80000000, .rx, false, true, none⟩ ⟨0x80000000, .size4K, 1⟩ none [".text"]

/-- Data of the guest. -/
def guestData : Mapping :=
  .translated ⟨.vs, 0x80000000, .rw, false, true, none⟩ ⟨0x80000000, .size4K, 1⟩ none []

/-- Memory of four pages for the tables of a stage. -/
def tableRoom (dest : Word) (t : Stage) : Mapping :=
  .direct .pa ⟨dest, .size4K, 4⟩ none [".rodata." ++ t.token]

/-- An image in which the hypervisor's partition reserves memory for both stages. -/
def jointImage : List (Stage × List Mapping) :=
  [(.hs, [hostCode, tableRoom 0x90000000 .hs, tableRoom 0x90004000 .vs]), (.vs, [guestData])]

/-- An image in which each partition reserves memory for its stage, without regard to the other. -/
def splitImage : List (Stage × List Mapping) :=
  [(.hs, [hostCode, tableRoom 0x90000000 .hs]), (.vs, [guestData, tableRoom 0x90001000 .vs])]

theorem jointImage_accepted : (collect jointImage).AcceptedOn hostAndGuest :=
  ⟨_, Admissible.outcome_eq (by decide +kernel)⟩

theorem splitImage_accepted : (collect splitImage).AcceptedOn hostAndGuest :=
  ⟨_, Admissible.outcome_eq (by decide +kernel)⟩

/-- Two regions of one partition: both stages have tables, and no byte is in both storages. -/
theorem jointImage_storage_apart :
    ∃ x y, (build (collect jointImage) hostAndGuest .hs (.fixed 4)).outcome = .ok x
      ∧ (build (collect jointImage) hostAndGuest .vs (.fixed 4)).outcome = .ok y
      ∧ x.used = 0x3000 ∧ y.used = 0x3000 ∧ x.storage.Disjoint y.storage
      ∧ ∀ address ∈ x.entries, address ∉ y.entries := by
  have hhost : ((build (collect jointImage) hostAndGuest .hs (.fixed 4)).outcome.toOption.any
      fun x => decide (x.used = 0x3000)) = true := by
    decide +kernel
  have hguest : ((build (collect jointImage) hostAndGuest .vs (.fixed 4)).outcome.toOption.any
      fun y => decide (y.used = 0x3000)) = true := by
    decide +kernel
  obtain ⟨x, hx, hxused⟩ := exists_ok_of_any hhost
  obtain ⟨y, hy, hyused⟩ := exists_ok_of_any hguest
  obtain ⟨m, n, hm, hn, -, -, hapart, hdisjoint⟩ := storage_apart jointImage_accepted hx hy
  have hregion : (collect jointImage).region hostAndGuest .hs
      = .ok (tableRoom 0x90000000 .hs) := by
    decide +kernel
  have hregion' : (collect jointImage).region hostAndGuest .vs
      = .ok (tableRoom 0x90004000 .vs) := by
    decide +kernel
  obtain rfl := Except.ok.inj (hregion.symm.trans hm)
  obtain rfl := Except.ok.inj (hregion'.symm.trans hn)
  have hboth := hapart (hdisjoint .hs (by decide) (by decide) (by decide))
  exact ⟨x, y, hx, hy, of_decide_eq_true hxused, of_decide_eq_true hyused, hboth⟩

/-- Two regions in two partitions: at one address the hypervisor's tables have a leaf and the
guest's tables a pointer. -/
theorem splitImage_storage_meets :
    (collect splitImage).AcceptedOn hostAndGuest ∧ hostAndGuest.virtualization = true
      ∧ (∀ t ∈ [Stage.hs, .vs], hostAndGuest.enables t ∧ (hostAndGuest.mode t).isPaged
          ∧ ∃ m, (collect splitImage).region hostAndGuest t = .ok m ∧ m.destKind = .pa)
      ∧ ∃ x y, (build (collect splitImage) hostAndGuest .hs (.fixed 4)).outcome = .ok x
          ∧ (build (collect splitImage) hostAndGuest .vs (.fixed 4)).outcome = .ok y
          ∧ x.storage = ⟨0x90000000, 0x3000⟩ ∧ y.storage = ⟨0x90001000, 0x3000⟩
          ∧ ¬ x.storage.Disjoint y.storage
          ∧ x.entries[(0x90002000 : Word)]? = some 0x200000cb
          ∧ y.entries[(0x90002000 : Word)]? = some 0x24000c01 := by
  have hhost : ((build (collect splitImage) hostAndGuest .hs (.fixed 4)).outcome.toOption.any
      fun x => decide (x.storage = ⟨0x90000000, 0x3000⟩
        ∧ x.entries[(0x90002000 : Word)]? = some 0x200000cb)) = true := by
    decide +kernel
  have hguest : ((build (collect splitImage) hostAndGuest .vs (.fixed 4)).outcome.toOption.any
      fun y => decide (y.storage = ⟨0x90001000, 0x3000⟩
        ∧ y.entries[(0x90002000 : Word)]? = some 0x24000c01)) = true := by
    decide +kernel
  obtain ⟨x, hx, hxfacts⟩ := exists_ok_of_any hhost
  obtain ⟨y, hy, hyfacts⟩ := exists_ok_of_any hguest
  obtain ⟨hxstorage, hxentry⟩ := of_decide_eq_true hxfacts
  obtain ⟨hystorage, hyentry⟩ := of_decide_eq_true hyfacts
  have hregion : (collect splitImage).region hostAndGuest .hs
      = .ok (tableRoom 0x90000000 .hs) := by
    decide +kernel
  have hregion' : (collect splitImage).region hostAndGuest .vs
      = .ok (tableRoom 0x90001000 .vs) := by
    decide +kernel
  refine ⟨splitImage_accepted, rfl, fun t ht => ?_, x, y, hx, hy, hxstorage, hystorage, ?_, hxentry,
    hyentry⟩
  · rcases List.mem_pair.mp ht with rfl | rfl
    · exact ⟨by decide, by decide, _, hregion, rfl⟩
    · exact ⟨by decide, by decide, _, hregion', rfl⟩
  · rw [hxstorage, hystorage]
    decide

end StageTables

end FirmwareMap
