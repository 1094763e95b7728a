/-
  FirmwareMap.Proofs.Layout.Components
  ────────────────────────────────────
  **MAPPINGS THAT SHARE INPUT SECTIONS, STEP BY STEP OR AT ONCE.**

  Two mappings are linked if they place an input section of one name, and
  connected if links lead from one to the other.  One more mapping joins the
  components that it is linked to and leaves the others alone:

      m, k connected with n  ↔  they were before, or both touch n

  A mapping splits a list if it touches two components of it; if none does,
  one after the other, no components are ever joined.

  What a section of the image gathers is said of any set of mappings: where
  they start and stop together, the union of their input sections, and the
  name of the lowest one.
-/
import FirmwareMap.Layout.OutputSection

namespace FirmwareMap

/-! ## §1. Links. -/

namespace Mapping

/-- The input sections that the mapping places. -/
def inputs (m : Mapping) : List String :=
  withStartup m.sections

/-- Some input section is placed by both. -/
def Linked (m n : Mapping) : Prop :=
  ∃ name ∈ m.inputs, name ∈ n.inputs

variable {m n : Mapping}

theorem Linked.symm (h : m.Linked n) : n.Linked m := by
  obtain ⟨name, hm, hn⟩ := h
  exact ⟨name, hn, hm⟩

theorem mem_inputs {name : String} (h : name ∈ m.sections) : name ∈ m.inputs := by
  unfold inputs withStartup
  split
  · exact List.mem_cons_of_mem _ h
  · exact h

/-- A mapping that names input sections is linked to itself. -/
theorem linked_self (h : m.sections ≠ []) : m.Linked m := by
  obtain ⟨name, hname⟩ := List.exists_mem_of_ne_nil _ h
  exact ⟨name, mem_inputs hname, mem_inputs hname⟩

/-! ## §2. Components. -/

/-- Links between mappings of the list lead from `m` to the mapping. -/
inductive Connected (l : List Mapping) (m : Mapping) : Mapping → Prop where
  /-- No link is needed. -/
  | refl (h : m ∈ l) : Connected l m m
  /-- One more link. -/
  | step {n k : Mapping} (h : Connected l m n) (hk : k ∈ l) (hlink : n.Linked k) : Connected l m k

variable {l l' : List Mapping} {k : Mapping}

namespace Connected

theorem right_mem (h : Connected l m n) : n ∈ l := by
  cases h with
  | refl h => exact h
  | step _ hk _ => exact hk

theorem trans (h : Connected l m n) (h' : Connected l n k) : Connected l m k := by
  induction h' with
  | refl => exact h
  | step _ hk hlink ih => exact .step ih hk hlink

theorem left_mem (h : Connected l m n) : m ∈ l := by
  induction h with
  | refl h => exact h
  | step _ _ _ ih => exact ih

theorem symm (h : Connected l m n) : Connected l n m := by
  induction h with
  | refl h => exact .refl h
  | step h hk hlink ih => exact (Connected.step (.refl hk) h.right_mem hlink.symm).trans ih

theorem mono (h : Connected l m n) (hsub : l ⊆ l') : Connected l' m n := by
  induction h with
  | refl h => exact .refl (hsub h)
  | step _ hk hlink ih => exact .step ih (hsub hk) hlink

end Connected

/-! ## §3. One more mapping. -/

/-- The component of `m` has a mapping that is linked to `n`. -/
def Touches (l : List Mapping) (n m : Mapping) : Prop :=
  ∃ c, Connected l m c ∧ c.Linked n

/-- The mapping is linked to two components of the list. -/
def Splits (l : List Mapping) (n : Mapping) : Prop :=
  ∃ a ∈ l, ∃ b ∈ l, a.Linked n ∧ b.Linked n ∧ ¬ Connected l a b

/-- Some mapping of the list is linked to two components of those before it. -/
def Ambiguous (l : List Mapping) : Prop :=
  ∃ before n after, l = before ++ n :: after ∧ Splits before n

theorem Touches.connected (h : Touches l n m) : Connected (l ++ [n]) m n := by
  obtain ⟨c, hc, hlink⟩ := h
  exact .step (hc.mono (List.subset_append_left _ _))
    (List.mem_append_right _ (List.mem_singleton_self n)) hlink

/-- What a new mapping is connected with are the components that it touches. -/
theorem connected_snoc_new (h : Connected (l ++ [n]) n k) : k = n ∨ Touches l n k := by
  induction h with
  | refl => exact .inl rfl
  | step _ hk hlink ih =>
    rcases List.mem_append.mp hk with hold | hnew
    · refine .inr ?_
      rcases ih with heq | htouches
      · exact ⟨_, .refl hold, heq ▸ hlink.symm⟩
      · obtain ⟨c, hc, hlink'⟩ := htouches
        exact ⟨c, (Connected.step (.refl hold) hc.left_mem hlink.symm).trans hc, hlink'⟩
    · exact .inl (List.mem_singleton.mp hnew)

/-- Mappings that a new one connects were connected before, or both touch it. -/
theorem connected_snoc (hm : m ∈ l) (h : Connected (l ++ [n]) m k) :
    Connected l m k ∨ Touches l n m ∧ (k = n ∨ Touches l n k) := by
  by_cases htouches : Touches l n m
  · rcases connected_snoc_new (htouches.connected.symm.trans h) with hk | hk
    · exact .inr ⟨htouches, .inl hk⟩
    · exact .inr ⟨htouches, .inr hk⟩
  · -- without a link to the new mapping, no path goes through it
    refine .inl ?_
    induction h with
    | refl => exact .refl hm
    | step _ hk hlink ih =>
      rcases List.mem_append.mp hk with hk | hk
      · exact .step ih hk hlink
      · rw [List.mem_singleton.mp hk] at hlink
        exact absurd ⟨_, ih, hlink⟩ htouches

/-- **A mapping that splits nothing connects none of the others.** -/
theorem connected_snoc_iff (hn : n.Linked n) (hsplits : ¬ Splits l n) (hm : m ∈ l) (hk : k ∈ l) :
    Connected (l ++ [n]) m k ↔ Connected l m k := by
  constructor
  · intro h
    rcases connected_snoc hm h with h | ⟨⟨c, hc, hlink⟩, hk'⟩
    · exact h
    · have htouches : Touches l n k := by
        rcases hk' with rfl | hk'
        · exact ⟨k, .refl hk, hn⟩
        · exact hk'
      obtain ⟨d, hd, hlink'⟩ := htouches
      -- both are linked to the new mapping, which is linked to one component only
      have hcd : Connected l c d := Classical.byContradiction fun hne =>
        hsplits ⟨c, hc.right_mem, d, hd.right_mem, hlink, hlink', hne⟩
      exact (hc.trans hcd).trans hd.symm
  · intro h
    exact h.mono (List.subset_append_left _ _)

/-- A mapping of the list is connected with a new one exactly if it touches it. -/
theorem connected_snoc_new_iff (hn : n.Linked n) (hm : m ∈ l) :
    Connected (l ++ [n]) m n ↔ Touches l n m := by
  constructor
  · intro h
    rcases connected_snoc hm h with h | ⟨h, -⟩
    · exact ⟨n, h, hn⟩
    · exact h
  · exact Touches.connected

end Mapping

/-! ## §4. What a section gathers. -/

open Mapping (Connected)

/-- The section gathers the mappings of the list that are in `C`. -/
structure Gathers (l : List Mapping) (C : Mapping → Prop) (s : OutputSection) : Prop where
  /-- The name is the one that the lowest mapping lists first, of several the earliest; the section
  starts where that mapping does. -/
  lowest : ∃ before n after, l = before ++ n :: after ∧ C n ∧ n.sections.head? = some s.name
    ∧ s.extent.start = n.destExtent.start
    ∧ (∀ k ∈ before, C k → n.destExtent.start < k.destExtent.start)
    ∧ ∀ k ∈ after, C k → n.destExtent.start ≤ k.destExtent.start
  /-- The section stops where the last of the mappings does. -/
  stop : (∃ k ∈ l, C k ∧ s.extent.stop = k.destExtent.stop)
    ∧ ∀ k ∈ l, C k → k.destExtent.stop ≤ s.extent.stop
  /-- The inputs are those of all the mappings. -/
  inputs : ∀ name, name ∈ s.inputs ↔ ∃ k ∈ l, C k ∧ name ∈ k.inputs
  /-- Zeros are written out where there is data that starts as zero. -/
  zeros : s.isZeroPadded = true ↔ zeroInput ∈ s.inputs

namespace Gathers

variable {l : List Mapping} {C C' : Mapping → Prop} {s new : OutputSection} {n : Mapping}

theorem congr (h : Gathers l C s) (hC : ∀ k ∈ l, C k ↔ C' k) : Gathers l C' s where
  lowest := by
    obtain ⟨before, k, after, rfl, hk, hname, hstart, hbefore, hafter⟩ := h.lowest
    refine ⟨before, k, after, rfl, (hC k (by simp)).mp hk, hname, hstart, fun j hj hCj => ?_,
      fun j hj hCj => ?_⟩
    · exact hbefore j hj ((hC j (List.mem_append_left _ hj)).mpr hCj)
    · exact hafter j hj ((hC j (by simp [hj])).mpr hCj)
  stop := by
    obtain ⟨⟨k, hk, hCk, hstop⟩, hlast⟩ := h.stop
    exact ⟨⟨k, hk, (hC k hk).mp hCk, hstop⟩, fun j hj hCj => hlast j hj ((hC j hj).mpr hCj)⟩
  inputs name := by
    rw [h.inputs]
    exact exists_congr fun k => and_congr_right fun hk => and_congr_left fun _ => hC k hk
  zeros := h.zeros

/-- The section starts no later than any of the mappings. -/
theorem start_le (h : Gathers l C s) : ∀ k ∈ l, C k → s.extent.start ≤ k.destExtent.start := by
  intro k hk hCk
  obtain ⟨before, n, after, rfl, -, -, hstart, hbefore, hafter⟩ := h.lowest
  rw [hstart]
  rcases List.mem_append.mp hk with hk | hk
  · exact Nat.le_of_lt (hbefore k hk hCk)
  · rcases List.mem_cons.mp hk with rfl | hk
    · exact Nat.le_refl _
    · exact hafter k hk hCk

end Gathers

namespace OutputSection

variable {m : Mapping} {s : OutputSection}

/-- The section of a mapping that names input sections. -/
theorem ofMapping?_eq_some_iff :
    ofMapping? m = some s
      ↔ m.sections.head? = some s.name ∧ s.extent = m.destExtent ∧ s.inputs = m.inputs
        ∧ s.isZeroPadded = decide (zeroInput ∈ m.inputs) := by
  unfold ofMapping?
  rw [Option.map_eq_some_iff]
  constructor
  · intro h
    obtain ⟨name, hname, rfl⟩ := h
    exact ⟨hname, rfl, rfl, rfl⟩
  · intro h
    obtain ⟨hname, hextent, hinputs, hzeros⟩ := h
    refine ⟨s.name, hname, ?_⟩
    obtain ⟨name, extent, inputs, zeros⟩ := s
    simp only at hextent hinputs hzeros
    rw [hextent, hinputs, hzeros]
    rfl

end OutputSection

namespace Gathers

open OutputSection

variable {l : List Mapping} {C C' : Mapping → Prop} {s new : OutputSection} {n : Mapping}

/-- A mapping alone. -/
theorem single (hnew : ofMapping? n = some new) (hn : C n) (hnone : ∀ k ∈ l, ¬ C k) :
    Gathers (l ++ [n]) C new := by
  obtain ⟨hname, hextent, hinputs, hzeros⟩ := ofMapping?_eq_some_iff.mp hnew
  have honly : ∀ k ∈ l ++ [n], C k → k = n := by
    intro k hk hCk
    rcases List.mem_append.mp hk with hk | hk
    · exact absurd hCk (hnone k hk)
    · exact List.mem_singleton.mp hk
  have hmem : n ∈ l ++ [n] := List.mem_append_right _ (List.mem_singleton_self n)
  exact {
    lowest := ⟨l, n, [], rfl, hn, hname, by rw [hextent], fun k hk hCk => absurd hCk (hnone k hk),
      fun k hk => by cases hk⟩
    stop := ⟨⟨n, hmem, hn, by rw [hextent]⟩, fun k hk hCk =>
      Nat.le_of_eq (by rw [honly k hk hCk, hextent])⟩
    inputs := fun name => by
      rw [hinputs]
      constructor
      · intro hname
        exact ⟨n, hmem, hn, hname⟩
      · intro hgiven
        obtain ⟨k, hk, hCk, hname⟩ := hgiven
        rwa [honly k hk hCk] at hname
    zeros := by rw [hzeros, hinputs, decide_eq_true_iff] }

/-- One more mapping that is not gathered. -/
theorem extend (h : Gathers l C s) (hC : ∀ k ∈ l, C' k ↔ C k) (hn : ¬ C' n) :
    Gathers (l ++ [n]) C' s := by
  have h' : Gathers l C' s := h.congr fun k hk => (hC k hk).symm
  have hold : ∀ k ∈ l ++ [n], C' k → k ∈ l := by
    intro k hk hCk
    rcases List.mem_append.mp hk with hk | hk
    · exact hk
    · rw [List.mem_singleton.mp hk] at hCk
      exact absurd hCk hn
  exact {
    lowest := by
      obtain ⟨before, k, after, rfl, hk, hname, hstart, hbefore, hafter⟩ := h'.lowest
      refine ⟨before, k, after ++ [n], by simp, hk, hname, hstart, hbefore, fun j hj hCj => ?_⟩
      rcases List.mem_append.mp hj with hj | hj
      · exact hafter j hj hCj
      · rw [List.mem_singleton.mp hj] at hCj
        exact absurd hCj hn
    stop := by
      obtain ⟨⟨k, hk, hCk, hstop⟩, hlast⟩ := h'.stop
      exact ⟨⟨k, List.mem_append_left _ hk, hCk, hstop⟩,
        fun j hj hCj => hlast j (hold j hj hCj) hCj⟩
    inputs := fun name => by
      rw [h'.inputs]
      constructor
      · intro hgiven
        obtain ⟨k, hk, hCk⟩ := hgiven
        exact ⟨k, List.mem_append_left _ hk, hCk⟩
      · intro hgiven
        obtain ⟨k, hk, hCk, hname⟩ := hgiven
        exact ⟨k, hold k hk hCk, hCk, hname⟩
    zeros := h'.zeros }

/-- **One more mapping that is gathered**, where words can hold both ends. -/
theorem merge (h : Gathers l C s) (hC : ∀ k ∈ l, C' k ↔ C k) (hn : C' n)
    (hnew : ofMapping? n = some new) (hs : s.extent.stop < Word.count)
    (hbound : n.destExtent.stop < Word.count) : Gathers (l ++ [n]) C' (s.merge new) := by
  have h' : Gathers l C' s := h.congr fun k hk => (hC k hk).symm
  obtain ⟨hname, hextent, hinputs, hzeros⟩ := ofMapping?_eq_some_iff.mp hnew
  have hmem : n ∈ l ++ [n] := List.mem_append_right _ (List.mem_singleton_self n)
  have hstop : (s.merge new).extent.stop = max s.extent.stop n.destExtent.stop := by
    rw [stop_merge hs (by rwa [hextent]), hextent]
  exact {
    lowest := by
      unfold OutputSection.merge
      split
      next hlt =>
        -- the new mapping starts below all others
        rw [hextent] at hlt
        refine ⟨l, n, [], rfl, hn, hname, by rw [absorb, hextent], fun k hk hCk => ?_,
          fun k hk => by cases hk⟩
        exact Nat.lt_of_lt_of_le hlt (h'.start_le k hk hCk)
      next hge =>
        -- the new mapping comes last, so at one address it does not lead
        rw [hextent] at hge
        obtain ⟨before, k, after, rfl, hk, hname, hstart, hbefore, hafter⟩ := h'.lowest
        refine ⟨before, k, after ++ [n], by simp, hk, hname, hstart, hbefore, fun j hj hCj => ?_⟩
        rcases List.mem_append.mp hj with hj | hj
        · exact hafter j hj hCj
        · rw [List.mem_singleton.mp hj, ← hstart]
          omega
    stop := by
      obtain ⟨⟨k, hk, hCk, hlast⟩, hle⟩ := h'.stop
      rw [hstop]
      refine ⟨?_, fun j hj hCj => ?_⟩
      · rcases Nat.le_total s.extent.stop n.destExtent.stop with hmax | hmax
        · exact ⟨n, hmem, hn, Nat.max_eq_right hmax⟩
        · exact ⟨k, List.mem_append_left _ hk, hCk, by rw [Nat.max_eq_left hmax, hlast]⟩
      · rcases List.mem_append.mp hj with hj | hj
        · exact Nat.le_trans (hle j hj hCj) (Nat.le_max_left _ _)
        · rw [List.mem_singleton.mp hj]
          exact Nat.le_max_right _ _
    inputs := fun name => by
      rw [mem_inputs_merge, h'.inputs, hinputs]
      constructor
      · intro hgiven
        rcases hgiven with ⟨k, hk, hCk⟩ | hname
        · exact ⟨k, List.mem_append_left _ hk, hCk⟩
        · exact ⟨n, hmem, hn, hname⟩
      · intro hgiven
        obtain ⟨k, hk, hCk, hname⟩ := hgiven
        rcases List.mem_append.mp hk with hk | hk
        · exact .inl ⟨k, hk, hCk, hname⟩
        · rw [List.mem_singleton.mp hk] at hname
          exact .inr hname
    zeros := by
      rw [isZeroPadded_merge, Bool.or_eq_true, h'.zeros, hzeros, decide_eq_true_iff,
        mem_inputs_merge, hinputs] }

end Gathers

/-! ## §5. The mappings of a section. -/

/-- The mappings of the list that share an input with the section, in their order. -/
def OutputSection.members (l : List Mapping) (s : OutputSection) : List Mapping :=
  l.filter fun m => ∃ name ∈ m.inputs, name ∈ s.inputs

theorem OutputSection.mem_members {l : List Mapping} {s : OutputSection} {m : Mapping} :
    m ∈ s.members l ↔ m ∈ l ∧ ∃ name ∈ m.inputs, name ∈ s.inputs := by
  unfold members
  rw [List.mem_filter, decide_eq_true_iff]

/-- **The mappings of a section are those of its component.** -/
theorem Gathers.mem_members_iff {l : List Mapping} {s : OutputSection} {m k : Mapping}
    (h : Gathers l (Connected l m) s) (hself : ∀ k ∈ l, k.Linked k) :
    k ∈ s.members l ↔ Connected l m k := by
  rw [OutputSection.mem_members]
  constructor
  · intro hgiven
    obtain ⟨hk, name, hname, hs⟩ := hgiven
    obtain ⟨j, -, hj, hname'⟩ := (h.inputs name).mp hs
    exact .step hj hk ⟨name, hname', hname⟩
  · intro hk
    obtain ⟨name, hname, -⟩ := hself k hk.right_mem
    exact ⟨hk.right_mem, name, hname, (h.inputs name).mpr ⟨k, hk.right_mem, hk, hname⟩⟩

end FirmwareMap
