/-
  FirmwareMap.Proofs.Layout.Arrangement
  ─────────────────────────────────────
  **SECTIONS IN ORDER, WITH A GUARD IN EVERY GAP.**

  Sections are sorted, guards are made for the gaps between neighbours, and
  all are sorted together.  The outcome is the sorted sections with each guard
  right behind the section that it guards:

      arrange ss = spaced 0 (ordered ss)

  This holds even where sections overlap, for a guard starts strictly between
  the starts of its neighbours.  Sections start and end at pages, so a gap has
  room for its guard, and what collides are sections.
-/
import FirmwareMap.Layout.Basic
import FirmwareMap.Proofs.Address.Disjoint

namespace FirmwareMap

/-! ## §1. The order of what is placed. -/

theorem guardBytes_eq : guardBytes = 4096 := rfl

namespace Placed

variable {q r : Placed}

@[simp] theorem extent_content (s : OutputSection) : (content s).extent = s.extent := rfl

theorem precedes_iff :
    precedes q r = true
      ↔ q.extent.start < r.extent.start ∨ (q.extent.start = r.extent.start ∧ q.name ≤ r.name) := by
  simp [precedes]

theorem precedes_trans (q r z : Placed) (hqr : precedes q r = true) (hrz : precedes r z = true) :
    precedes q z = true := by
  rw [precedes_iff] at hqr hrz ⊢
  rcases hqr with hqr | ⟨hqr, hname⟩
  · refine .inl ?_
    omega
  · rcases hrz with hrz | ⟨hrz, hname'⟩
    · refine .inl ?_
      omega
    · exact .inr ⟨hqr.trans hrz, String.le_trans hname hname'⟩

theorem precedes_total (q r : Placed) : (precedes q r || precedes r q) = true := by
  rw [Bool.or_eq_true, precedes_iff, precedes_iff]
  rcases Nat.lt_trichotomy q.extent.start r.extent.start with hlt | heq | hlt
  · exact .inl (.inl hlt)
  · rcases String.le_total q.name r.name with hle | hle
    · exact .inl (.inr ⟨heq, hle⟩)
    · exact .inr (.inr ⟨heq.symm, hle⟩)
  · exact .inr (.inl hlt)

/-- `q` comes before `r` and not the other way round. -/
def Before (q r : Placed) : Prop :=
  precedes q r = true ∧ precedes r q = false

theorem before_of_lt (h : q.extent.start < r.extent.start) : q.Before r := by
  refine ⟨precedes_iff.mpr (.inl h), ?_⟩
  rw [← Bool.not_eq_true, precedes_iff]
  omega

/-- Of two with different names, one comes before the other. -/
theorem before_of_precedes (h : precedes q r = true) (hname : q.name ≠ r.name) : q.Before r := by
  refine ⟨h, ?_⟩
  rw [← Bool.not_eq_true, precedes_iff]
  intro hback
  rcases precedes_iff.mp h with hlt | ⟨heq, hle⟩
  · omega
  · rcases hback with hlt | ⟨-, hge⟩
    · omega
    · exact hname (String.le_antisymm hle hge)

theorem Before.ne (h : q.Before r) : q ≠ r := by
  intro heq
  have hfalse := h.2
  rw [heq, (heq ▸ h.1 : precedes r r = true)] at hfalse
  cases hfalse

theorem Before.start_le (h : q.Before r) : q.extent.start ≤ r.extent.start := by
  rcases precedes_iff.mp h.1 with hlt | ⟨heq, -⟩
  · omega
  · omega

/-- **There is one way to sort.**  A list in strict order is what sorting any of its rearrangements
gives. -/
theorem sort_eq_of_perm {l k : List Placed} (hperm : l.Perm k) (hk : k.Pairwise Before) :
    sort l = k := by
  have hsort : (sort l).Perm k := (List.mergeSort_perm l _).trans hperm
  have hsorted : (sort l).Pairwise fun q r => precedes q r = true :=
    List.pairwise_mergeSort precedes_trans precedes_total l
  refine List.Perm.eq_of_pairwise (fun q r hq hr hqr hrq => ?_) hsorted (hk.imp fun h => h.1) hsort
  rcases eq_or_rel_of_pairwise hk (hsort.mem_iff.mp hq) hr with heq | hbefore | hbefore
  · exact heq
  · rw [hbefore.2] at hrq
    cases hrq
  · rw [hbefore.2] at hqr
    cases hqr

end Placed

/-! ## §2. Sections with guards. -/

open Placed (content guard Before)

/-- The section starts and ends at pages and is not empty. -/
structure OutputSection.Paged (s : OutputSection) : Prop where
  /-- The start is that of a page. -/
  start : s.extent.start % guardBytes = 0
  /-- The end is that of a page. -/
  stop : s.extent.stop % guardBytes = 0
  /-- There is a page. -/
  lt : s.extent.start < s.extent.stop

namespace ImageLayout

variable {l ss : List OutputSection} {s t : OutputSection} {q : Placed} {n : Nat}

/-- The sections in this order, with a guard at the start of every gap, numbered from `n` on. -/
def spaced (n : Nat) : List OutputSection → List Placed
  | [] => []
  | [s] => [.content s]
  | s :: t :: rest =>
    if s.extent.stop < t.extent.start then
      .content s :: .guard n s.extent.stop :: spaced (n + 1) (t :: rest)
    else
      .content s :: spaced n (t :: rest)

/-- Sections come first, whether or not a gap follows. -/
theorem exists_spaced_cons (n : Nat) (s : OutputSection) (l : List OutputSection) :
    ∃ rest, spaced n (s :: l) = .content s :: rest := by
  cases l with
  | nil => exact ⟨[], rfl⟩
  | cons t l =>
    unfold spaced
    split
    · exact ⟨_, rfl⟩
    · exact ⟨_, rfl⟩

theorem mem_spaced (h : q ∈ spaced n l) :
    (∃ s ∈ l, q = .content s) ∨ ∃ s ∈ l, ∃ i, q = .guard i s.extent.stop := by
  fun_induction spaced n l with
  | case1 => cases h
  | case2 n s => exact .inl ⟨s, List.mem_singleton_self s, List.mem_singleton.mp h⟩
  | case3 n s t rest hgap ih =>
    rcases List.mem_cons.mp h with rfl | h
    · exact .inl ⟨s, List.mem_cons_self, rfl⟩
    · rcases List.mem_cons.mp h with rfl | h
      · exact .inr ⟨s, List.mem_cons_self, n, rfl⟩
      · rcases ih h with ⟨u, hu, hq⟩ | ⟨u, hu, i, hq⟩
        · exact .inl ⟨u, List.mem_cons_of_mem _ hu, hq⟩
        · exact .inr ⟨u, List.mem_cons_of_mem _ hu, i, hq⟩
  | case4 n s t rest hgap ih =>
    rcases List.mem_cons.mp h with rfl | h
    · exact .inl ⟨s, List.mem_cons_self, rfl⟩
    · rcases ih h with ⟨u, hu, hq⟩ | ⟨u, hu, i, hq⟩
      · exact .inl ⟨u, List.mem_cons_of_mem _ hu, hq⟩
      · exact .inr ⟨u, List.mem_cons_of_mem _ hu, i, hq⟩

/-- Nothing that is placed is empty. -/
theorem start_lt_stop (hpaged : ∀ s ∈ l, s.Paged) (h : q ∈ spaced n l) :
    q.extent.start < q.extent.stop := by
  rcases mem_spaced h with ⟨s, hs, rfl⟩ | ⟨s, hs, i, rfl⟩
  · exact (hpaged s hs).lt
  · show s.extent.stop < s.extent.stop + guardBytes
    rw [guardBytes_eq]
    omega

/-- Leaving the guards out leaves the sections. -/
theorem filterMap_content?_spaced (n : Nat) (l : List OutputSection) :
    (spaced n l).filterMap Placed.content? = l := by
  fun_induction spaced n l with
  | case1 => rfl
  | case2 n s => rfl
  | case3 n s t rest hgap ih =>
    show s :: (spaced (n + 1) (t :: rest)).filterMap Placed.content? = _
    rw [ih]
  | case4 n s t rest hgap ih =>
    show s :: (spaced n (t :: rest)).filterMap Placed.content? = _
    rw [ih]

/-- The guards of the gaps, numbered from `n` on. -/
def guardsFrom (n : Nat) (l : List Placed) : List Placed :=
  ((Extent.neighbours l).filter fun (q, r) => q.extent.stop < r.extent.start).mapIdx
    fun i (q, _) => .guard (n + i) q.extent.stop

theorem guardsFrom_zero (l : List Placed) : guardsFrom 0 l = Placed.guards l := by
  unfold guardsFrom Placed.guards
  congr
  funext i pair
  rw [Nat.zero_add]

theorem guardsFrom_cons_cons (n : Nat) (q r : Placed) (l : List Placed) :
    guardsFrom n (q :: r :: l)
      = if q.extent.stop < r.extent.start then
          .guard n q.extent.stop :: guardsFrom (n + 1) (r :: l)
        else guardsFrom n (r :: l) := by
  unfold guardsFrom
  rw [Extent.neighbours_cons_cons, List.filter_cons]
  by_cases h : q.extent.stop < r.extent.start
  · simp only [h, decide_true, if_true, List.mapIdx_cons, Nat.add_zero]
    congr 2
    funext i pair
    rw [Nat.add_assoc, Nat.add_comm 1 i]
  · simp [h]

/-- The sections and the guards of the gaps between them. -/
theorem spaced_perm (n : Nat) (l : List OutputSection) :
    (spaced n l).Perm (l.map .content ++ guardsFrom n (l.map .content)) := by
  fun_induction spaced n l with
  | case1 => exact .refl _
  | case2 n s => exact .refl _
  | case3 n s t rest hgap ih =>
    rw [List.map_cons, List.map_cons, guardsFrom_cons_cons, Placed.extent_content,
      Placed.extent_content, if_pos hgap, ← List.map_cons, List.cons_append]
    exact ((ih.cons _).trans List.perm_middle.symm).cons _
  | case4 n s t rest hgap ih =>
    rw [List.map_cons, List.map_cons, guardsFrom_cons_cons, Placed.extent_content,
      Placed.extent_content, if_neg hgap, ← List.map_cons, List.cons_append]
    exact ih.cons _

/-- Everything that comes behind a section, with its guards, comes later than what is lower than
the section. -/
theorem before_spaced (hpaged : ∀ s ∈ t :: l, s.Paged)
    (hl : (t :: l).Pairwise fun s u => s.extent.start ≤ u.extent.start)
    (hq : q.extent.start < t.extent.start) : ∀ r ∈ spaced n (t :: l), q.Before r := by
  intro r hr
  have hle : ∀ u ∈ t :: l, t.extent.start ≤ u.extent.start := by
    intro u hu
    rcases List.mem_cons.mp hu with rfl | hu
    · exact Nat.le_refl _
    · exact (List.pairwise_cons.mp hl).1 u hu
  rcases mem_spaced hr with ⟨u, hu, rfl⟩ | ⟨u, hu, i, rfl⟩
  · exact Placed.before_of_lt (Nat.lt_of_lt_of_le hq (hle u hu))
  · -- a guard starts where its section stops, which is later than where the section starts
    have hstart := hle u hu
    have hstop := (hpaged u hu).lt
    refine Placed.before_of_lt ?_
    show q.extent.start < u.extent.stop
    omega

/-- **Sections in strict order stay so with guards between them.** -/
theorem pairwise_spaced (hpaged : ∀ s ∈ l, s.Paged)
    (hl : l.Pairwise fun s t => (content s).Before (content t)) :
    (spaced n l).Pairwise Before := by
  fun_induction spaced n l with
  | case1 => exact .nil
  | case2 n s => exact List.pairwise_singleton _ _
  | case3 n s t rest hgap ih =>
    obtain ⟨hs, hrest⟩ := List.pairwise_cons.mp hl
    have hstarts := hrest.imp fun {_ _} h => h.start_le
    have hpaged' : ∀ u ∈ t :: rest, u.Paged := fun u hu => hpaged u (List.mem_cons_of_mem _ hu)
    have hstop := (hpaged s List.mem_cons_self).lt
    have hguard : (content s).Before (.guard n s.extent.stop) := Placed.before_of_lt hstop
    refine List.pairwise_cons.mpr ⟨fun r hr => ?_,
      List.pairwise_cons.mpr ⟨before_spaced hpaged' hstarts hgap, ih hpaged' hrest⟩⟩
    rcases List.mem_cons.mp hr with rfl | hr
    · exact hguard
    · exact before_spaced hpaged' hstarts (Nat.lt_trans hstop hgap) r hr
  | case4 n s t rest hgap ih =>
    obtain ⟨hs, hrest⟩ := List.pairwise_cons.mp hl
    have hpaged' : ∀ u ∈ t :: rest, u.Paged := fun u hu => hpaged u (List.mem_cons_of_mem _ hu)
    refine List.pairwise_cons.mpr ⟨fun r hr => ?_, ih hpaged' hrest⟩
    rcases mem_spaced hr with ⟨u, hu, rfl⟩ | ⟨u, hu, i, rfl⟩
    · exact hs u hu
    · have hle := (hs u hu).start_le
      have hstop := (hpaged' u hu).lt
      refine Placed.before_of_lt ?_
      show s.extent.start < u.extent.stop
      exact Nat.lt_of_le_of_lt hle hstop

/-! ## §3. The arrangement. -/

/-- The sections in ascending order of starts and names. -/
def ordered (ss : List OutputSection) : List OutputSection :=
  ss.mergeSort fun s t => Placed.precedes (.content s) (.content t)

theorem ordered_perm (ss : List OutputSection) : (ordered ss).Perm ss :=
  List.mergeSort_perm ss _

theorem pairwise_ordered (hnames : ss.Pairwise fun s t => s.name ≠ t.name) :
    (ordered ss).Pairwise fun s t => (content s).Before (content t) := by
  have hsorted : (ordered ss).Pairwise fun s t => Placed.precedes (content s) (content t) = true :=
    List.pairwise_mergeSort (fun s t u => Placed.precedes_trans (content s) (content t) (content u))
      (fun s t => Placed.precedes_total (content s) (content t)) ss
  have hnames' : (ordered ss).Pairwise fun s t => s.name ≠ t.name :=
    ((ordered_perm ss).pairwise_iff fun {_ _} h => h.symm).mpr hnames
  exact (hsorted.and hnames').imp fun h => Placed.before_of_precedes h.1 h.2

/-- **The arrangement is the sorted sections with a guard in every gap.** -/
theorem arrange_eq (hpaged : ∀ s ∈ ss, s.Paged) (hnames : ss.Pairwise fun s t => s.name ≠ t.name) :
    arrange ss = spaced 0 (ordered ss) := by
  have hcontents : Placed.sort (ss.map content) = (ordered ss).map content := by
    unfold Placed.sort ordered
    exact (List.map_mergeSort (f := content) (s := Placed.precedes) fun _ _ _ _ => rfl).symm
  have hpaged' : ∀ s ∈ ordered ss, s.Paged := fun s hs =>
    hpaged s ((ordered_perm ss).mem_iff.mp hs)
  unfold arrange
  rw [hcontents]
  dsimp only
  rw [← guardsFrom_zero]
  exact Placed.sort_eq_of_perm (spaced_perm 0 _).symm
    (pairwise_spaced hpaged' (pairwise_ordered hnames))

/-! ## §4. Collisions. -/

/-- **What collides are sections**: the guards fit into their gaps. -/
theorem firstCollision?_spaced (hpaged : ∀ s ∈ l, s.Paged) :
    Extent.firstCollision? Placed.extent (spaced n l)
      = (Extent.firstCollision? OutputSection.extent l).map fun (s, t) =>
          (.content s, .content t) := by
  fun_induction spaced n l with
  | case1 => rfl
  | case2 n s => rfl
  | case3 n s t rest hgap ih =>
    have hguard : ¬ (guard n s.extent.stop).extent.start < (content s).extent.stop :=
      Nat.lt_irrefl _
    have hroom : ¬ (content t).extent.start < (guard n s.extent.stop).extent.stop := by
      have hs := (hpaged s List.mem_cons_self).stop
      have ht := (hpaged t (by simp)).start
      show ¬ t.extent.start < s.extent.stop + guardBytes
      rw [guardBytes_eq] at hs ht ⊢
      omega
    obtain ⟨more, hmore⟩ := exists_spaced_cons (n + 1) t rest
    have ih := ih fun u hu => hpaged u (List.mem_cons_of_mem _ hu)
    rw [hmore] at ih ⊢
    rw [Extent.firstCollision?_cons_cons (content s), if_neg hguard,
      Extent.firstCollision?_cons_cons (guard n _), if_neg hroom, ih,
      Extent.firstCollision?_cons_cons s t, if_neg (Nat.lt_asymm hgap)]
  | case4 n s t rest hgap ih =>
    obtain ⟨more, hmore⟩ := exists_spaced_cons n t rest
    have ih := ih fun u hu => hpaged u (List.mem_cons_of_mem _ hu)
    rw [hmore] at ih ⊢
    rw [Extent.firstCollision?_cons_cons, Extent.firstCollision?_cons_cons, ih]
    by_cases h : t.extent.start < s.extent.stop
    · simp [Placed.extent, h]
    · simp [Placed.extent, h]

theorem firstCollision?_arrange (hpaged : ∀ s ∈ ss, s.Paged)
    (hnames : ss.Pairwise fun s t => s.name ≠ t.name) :
    Extent.firstCollision? Placed.extent (arrange ss)
      = (Extent.firstCollision? OutputSection.extent (ordered ss)).map fun (s, t) =>
          (.content s, .content t) := by
  rw [arrange_eq hpaged hnames]
  exact firstCollision?_spaced fun s hs => hpaged s ((ordered_perm ss).mem_iff.mp hs)

/-- Neighbours that collide are two sections that overlap. -/
theorem overlap_of_collision (hpaged : ∀ s ∈ ss, s.Paged)
    (hnames : ss.Pairwise fun s t => s.name ≠ t.name)
    (h : Extent.firstCollision? OutputSection.extent (ordered ss) = some (s, t)) :
    s ∈ ss ∧ t ∈ ss ∧ s ≠ t ∧ ¬ s.extent.Disjoint t.extent := by
  obtain ⟨hmem, hreach⟩ := Extent.firstCollision?_eq_some h
  have hbefore := Extent.rel_of_mem_neighbours (pairwise_ordered hnames) hmem
  obtain ⟨hs, ht⟩ := List.of_mem_zip hmem
  have hs' := (ordered_perm ss).mem_iff.mp hs
  have ht' := (ordered_perm ss).mem_iff.mp (List.mem_of_mem_tail ht)
  refine ⟨hs', ht', fun heq => hbefore.ne (congrArg content heq), fun hdisjoint => ?_⟩
  have hle : s.extent.start ≤ t.extent.start := hbefore.start_le
  have hlt := (hpaged t ht').lt
  unfold Extent.Disjoint at hdisjoint
  omega

/-- **No neighbours collide exactly if no two sections overlap.** -/
theorem firstCollision?_ordered_eq_none_iff (hpaged : ∀ s ∈ ss, s.Paged)
    (hnames : ss.Pairwise fun s t => s.name ≠ t.name) :
    Extent.firstCollision? OutputSection.extent (ordered ss) = none
      ↔ ∀ s ∈ ss, ∀ t ∈ ss, s ≠ t → s.extent.Disjoint t.extent := by
  have hordered := pairwise_ordered hnames
  have hmem := fun s => (ordered_perm ss).mem_iff (a := s)
  have hpos : ∀ s ∈ ordered ss, 0 < s.extent.size := fun s hs => by
    have hlt := (hpaged s ((hmem s).mp hs)).lt
    unfold Extent.stop at hlt
    omega
  rw [Extent.firstCollision?_eq_none_iff_disjoint hpos (hordered.imp fun h => h.start_le)]
  constructor
  · intro h s hs t ht hne
    rcases eq_or_rel_of_pairwise h ((hmem s).mpr hs) ((hmem t).mpr ht) with heq | hst | hts
    · exact absurd heq hne
    · exact hst
    · exact hts.symm
  · intro h
    refine hordered.imp_of_mem fun {s t} hs ht hbefore => ?_
    exact h s ((hmem s).mp hs) t ((hmem t).mp ht) fun heq => hbefore.ne (congrArg content heq)

end ImageLayout

end FirmwareMap
