/-
  FirmwareMap.Address.Extent
  ──────────────────────────
  **HALF-OPEN RANGES OF ADDRESSES.**

  An `Extent` is the range of `size` numbers from `start`.  Its bounds are
  natural numbers, because a range of addresses may end at 2^64, which is no
  address.  Two extents are disjoint when one ends before the other starts.

  Main statement (`firstCollision?_eq_none_iff`): the search for a collision
  finds none exactly when each entry of the list ends before the next starts.
-/
namespace FirmwareMap

/-- The `size` numbers from `start`. -/
structure Extent where
  /-- The first number. -/
  start : Nat
  /-- How many there are. -/
  size : Nat
  deriving DecidableEq, Repr

namespace Extent

/-! ## §1. Ends, members, containment. -/

/-- The number just past the range. -/
def stop (e : Extent) : Nat :=
  e.start + e.size

instance : Membership Nat Extent where
  mem e a := e.start ≤ a ∧ a < e.stop

instance (a : Nat) (e : Extent) : Decidable (a ∈ e) :=
  inferInstanceAs (Decidable (e.start ≤ a ∧ a < e.stop))

/-- Both bounds of `e` lie within those of `f`. -/
def Within (e f : Extent) : Prop :=
  f.start ≤ e.start ∧ e.stop ≤ f.stop

instance (e f : Extent) : Decidable (e.Within f) :=
  inferInstanceAs (Decidable (_ ∧ _))

/-- One of the two ends before the other starts. -/
def Disjoint (e f : Extent) : Prop :=
  e.stop ≤ f.start ∨ f.stop ≤ e.start

instance (e f : Extent) : Decidable (e.Disjoint f) :=
  inferInstanceAs (Decidable (_ ∨ _))

theorem mem_iff {a : Nat} {e : Extent} : a ∈ e ↔ e.start ≤ a ∧ a < e.start + e.size :=
  Iff.rfl

theorem mem_of_within {a : Nat} {e f : Extent} (h : e.Within f) (ha : a ∈ e) : a ∈ f :=
  ⟨Nat.le_trans h.1 ha.1, Nat.lt_of_lt_of_le ha.2 h.2⟩

theorem Disjoint.symm {e f : Extent} (h : e.Disjoint f) : f.Disjoint e :=
  Or.symm h

theorem Disjoint.not_mem {a : Nat} {e f : Extent} (h : e.Disjoint f) (ha : a ∈ e) : a ∉ f := by
  intro hgiven
  obtain ⟨h₁, h₂⟩ := hgiven
  obtain ⟨h₃, h₄⟩ := ha
  unfold Disjoint at h
  omega

/-! ## §2. Collisions of neighbours. -/

variable {α : Type}

/-- The pairs of neighbours of a list. -/
def neighbours (l : List α) : List (α × α) :=
  l.zip l.tail

@[simp] theorem neighbours_nil : neighbours ([] : List α) = [] := rfl

@[simp] theorem neighbours_singleton (a : α) : neighbours [a] = [] := rfl

@[simp] theorem neighbours_cons_cons (a b : α) (l : List α) :
    neighbours (a :: b :: l) = (a, b) :: neighbours (b :: l) := rfl

/-- The first two neighbours of which the earlier one reaches past the start of the later one. -/
def firstCollision? (extent : α → Extent) (l : List α) : Option (α × α) :=
  (neighbours l).find? fun (a, b) => (extent b).start < (extent a).stop

theorem firstCollision?_eq_none_iff {extent : α → Extent} {l : List α} :
    firstCollision? extent l = none ↔
      ∀ p ∈ neighbours l, (extent p.1).stop ≤ (extent p.2).start := by
  simp [firstCollision?, List.find?_eq_none]

/-- The list in ascending order of starts; entries with one start stay in their order. -/
def sortByStart (extent : α → Extent) (l : List α) : List α :=
  l.mergeSort fun a b => (extent a).start ≤ (extent b).start

end Extent

end FirmwareMap
