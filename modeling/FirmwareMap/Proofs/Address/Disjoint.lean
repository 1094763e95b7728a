/-
  FirmwareMap.Proofs.Address.Disjoint
  ───────────────────────────────────
  **NEIGHBOURS DECIDE WHAT OVERLAPS.**

  Extents in ascending order of starts are compared with their neighbours
  only.  That is enough: an extent that ends before its neighbour starts ends
  before every later one does, and of two disjoint extents that are not empty
  the one with the smaller start ends first.

      no neighbours of the sorted list collide  ↔  all pairs are disjoint
-/
import FirmwareMap.Address.Extent

namespace FirmwareMap

/-- Of two members of a list, one stands before the other if they differ. -/
theorem eq_or_rel_of_pairwise {α : Type} {R : α → α → Prop} {l : List α} (h : l.Pairwise R)
    {a b : α} (ha : a ∈ l) (hb : b ∈ l) : a = b ∨ R a b ∨ R b a := by
  -- the statement itself is symmetric, so it may be read in either order
  have hsymm : l.Pairwise fun a b => a = b ∨ R a b ∨ R b a := h.imp fun hab => .inr (.inl hab)
  have hflip : l.Pairwise (flip fun a b => a = b ∨ R a b ∨ R b a) :=
    h.imp fun hab => .inr (.inr hab)
  exact hsymm.forall_of_forall_of_flip (fun _ _ => .inl rfl) hflip ha hb

namespace Extent

variable {α : Type} {extent : α → Extent}

/-- Each extent ends before the next one starts exactly when each ends before all later ones. -/
theorem neighbours_iff_pairwise : ∀ {l : List α},
    (∀ q ∈ neighbours l, (extent q.1).stop ≤ (extent q.2).start)
      ↔ l.Pairwise fun a b => (extent a).stop ≤ (extent b).start
  | [] => by simp
  | [a] => by simp
  | a :: b :: rest => by
    rw [neighbours_cons_cons, List.forall_mem_cons, neighbours_iff_pairwise (l := b :: rest),
      List.pairwise_cons (a := a)]
    refine and_congr_left fun hrest => ⟨fun hab c hc => ?_, fun h => h b List.mem_cons_self⟩
    rcases List.mem_cons.mp hc with rfl | hc
    · exact hab
    · -- the neighbour lies between
      have hbc := (List.pairwise_cons.mp hrest).1 c hc
      show (extent a).stop ≤ (extent c).start
      have hb : (extent b).stop = (extent b).start + (extent b).size := rfl
      simp only at hab
      omega

/-- The sorted list ascends. -/
theorem pairwise_sortByStart (l : List α) :
    (sortByStart extent l).Pairwise fun a b => (extent a).start ≤ (extent b).start := by
  unfold sortByStart
  refine (List.pairwise_mergeSort (fun a b c => ?_) (fun a b => ?_) l).imp of_decide_eq_true
  · simp only [decide_eq_true_eq]
    omega
  · simp only [Bool.or_eq_true, decide_eq_true_eq]
    omega

/-- What holds of every pair in order holds of neighbours. -/
theorem rel_of_mem_neighbours {R : α → α → Prop} {a b : α} : ∀ {l : List α}, l.Pairwise R →
    (a, b) ∈ neighbours l → R a b
  | [], _, hmem => by cases hmem
  | [_], _, hmem => by cases hmem
  | c :: d :: rest, h, hmem => by
    obtain ⟨hhead, htail⟩ := List.pairwise_cons.mp h
    rw [neighbours_cons_cons, List.mem_cons] at hmem
    rcases hmem with heq | hmem
    · obtain ⟨rfl, rfl⟩ := Prod.mk.inj heq
      exact hhead _ List.mem_cons_self
    · exact rel_of_mem_neighbours htail hmem

/-- What the search finds are neighbours of which one reaches past the start of the other. -/
theorem firstCollision?_eq_some {a b : α} {l : List α}
    (h : firstCollision? extent l = some (a, b)) :
    (a, b) ∈ neighbours l ∧ (extent b).start < (extent a).stop := by
  unfold firstCollision? at h
  have hfound := List.find?_some h
  exact ⟨List.mem_of_find?_eq_some h, of_decide_eq_true hfound⟩

/-- The search stops at the first pair, or goes on behind it. -/
theorem firstCollision?_cons_cons (a b : α) (l : List α) :
    firstCollision? extent (a :: b :: l)
      = if (extent b).start < (extent a).stop then some (a, b)
        else firstCollision? extent (b :: l) := by
  unfold firstCollision?
  rw [neighbours_cons_cons, List.find?_cons]
  by_cases h : (extent b).start < (extent a).stop
  · simp [h]
  · simp [h]

/-- In ascending order, no neighbours collide exactly when all pairs are disjoint. -/
theorem firstCollision?_eq_none_iff_disjoint {l : List α} (hpos : ∀ a ∈ l, 0 < (extent a).size)
    (hsorted : l.Pairwise fun a b => (extent a).start ≤ (extent b).start) :
    firstCollision? extent l = none ↔ l.Pairwise fun a b => (extent a).Disjoint (extent b) := by
  rw [firstCollision?_eq_none_iff, neighbours_iff_pairwise]
  constructor
  · intro h
    exact h.imp fun hab => Or.inl hab
  · intro h
    refine (h.and hsorted).imp_of_mem fun {a b} ha hb hab => ?_
    have hb' := hpos b hb
    obtain ⟨hdisjoint, hle⟩ := hab
    unfold Disjoint stop at hdisjoint
    unfold stop
    omega

/-- **The search in the sorted list finds a collision exactly when two extents overlap.** -/
theorem firstCollision?_sortByStart {l : List α} (hpos : ∀ a ∈ l, 0 < (extent a).size) :
    firstCollision? extent (sortByStart extent l) = none
      ↔ l.Pairwise fun a b => (extent a).Disjoint (extent b) := by
  have hperm : (sortByStart extent l).Perm l := List.mergeSort_perm l _
  rw [firstCollision?_eq_none_iff_disjoint (fun a ha => hpos a (hperm.mem_iff.mp ha))
    (pairwise_sortByStart l)]
  exact hperm.pairwise_iff fun {_ _} h => Disjoint.symm h

end Extent

end FirmwareMap
