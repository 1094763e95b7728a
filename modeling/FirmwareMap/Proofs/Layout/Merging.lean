/-
  FirmwareMap.Proofs.Layout.Merging
  ─────────────────────────────────
  **MERGING SECTIONS ONE AFTER THE OTHER FINDS THE COMPONENTS.**

  Sections are merged in one pass: each mapping joins the one section that it
  shares inputs with, or makes a new one.  After each step there is one section
  for each component of the mappings so far:

      Merged l ss,  insert ss n ends with ss'  →  Merged (l ++ [n]) ss'

  The pass gives up exactly at a mapping that is linked to two components of
  those before it, though a later one might have joined the two.
-/
import Mathlib.Data.List.Pairwise
import FirmwareMap.Layout.Basic
import FirmwareMap.Proofs.AddressMap.Acceptance
import FirmwareMap.Proofs.Layout.Components
import FirmwareMap.Proofs.Report.Failures

namespace FirmwareMap

open Mapping (Connected Touches Splits Ambiguous)

/-- The places in a list are its first one and those in the rest. -/
theorem exists_split_cons_iff {α : Type} {a : α} {l : List α} {P : List α → α → Prop} :
    (∃ before b after, a :: l = before ++ b :: after ∧ P before b)
      ↔ P [] a ∨ ∃ before b after, l = before ++ b :: after ∧ P (a :: before) b := by
  constructor
  · intro h
    obtain ⟨before, b, after, heq, hP⟩ := h
    cases before with
    | nil =>
      obtain ⟨rfl, -⟩ := List.cons.inj heq
      exact .inl hP
    | cons c before =>
      obtain ⟨rfl, rfl⟩ := List.cons.inj heq
      exact .inr ⟨before, b, after, rfl, hP⟩
  · intro h
    rcases h with hP | ⟨before, b, after, rfl, hP⟩
    · exact ⟨[], a, l, rfl, hP⟩
    · exact ⟨a :: before, b, after, rfl, hP⟩

/-! ## §1. One section for each component. -/

namespace OutputSection

variable {l : List Mapping} {ss : List OutputSection} {m n k : Mapping} {s t new : OutputSection}

/-- Each section gathers one component, each component has a section, and no two sections share an
input. -/
structure Merged (l : List Mapping) (ss : List OutputSection) : Prop where
  /-- No two sections share an input. -/
  apart : ss.Pairwise fun s t => ¬ s.Shares t
  /-- A section gathers the component of some mapping. -/
  gathered : ∀ s ∈ ss, ∃ m ∈ l, Gathers l (Connected l m) s
  /-- The component of a mapping is gathered by some section. -/
  home : ∀ m ∈ l, ∃ s ∈ ss, Gathers l (Connected l m) s

theorem merged_nil : Merged [] [] where
  apart := .nil
  gathered s hs := by cases hs
  home m hm := by cases hm

/-- A section shares inputs with a new one exactly if its component touches the mapping. -/
theorem shares_iff (h : Gathers l (Connected l m) s) (hnew : ofMapping? n = some new) :
    s.Shares new ↔ Touches l n m := by
  obtain ⟨-, -, hinputs, -⟩ := ofMapping?_eq_some_iff.mp hnew
  unfold Shares
  rw [hinputs]
  constructor
  · intro hgiven
    obtain ⟨name, hs, hn⟩ := hgiven
    obtain ⟨c, -, hc, hname⟩ := (h.inputs name).mp hs
    exact ⟨c, hc, name, hname, hn⟩
  · intro hgiven
    obtain ⟨c, hc, name, hname, hn⟩ := hgiven
    exact ⟨name, (h.inputs name).mpr ⟨c, hc.right_mem, hc, hname⟩, hn⟩

/-- Mappings with one section are connected. -/
theorem connected_of_gathers (hself : m.Linked m) (hm : m ∈ l) (h : Gathers l (Connected l m) s)
    (h' : Gathers l (Connected l k) s) : Connected l m k := by
  obtain ⟨name, hname, -⟩ := hself
  obtain ⟨c, hcl, hc, hname'⟩ :=
    (h'.inputs name).mp ((h.inputs name).mpr ⟨m, hm, .refl hm, hname⟩)
  exact (Connected.step (.refl hm) hcl ⟨name, hname, hname'⟩).trans hc.symm

namespace Merged

/-- Sections that share an input, or are one, are one. -/
theorem eq_of_shares (h : Merged l ss) (hs : s ∈ ss) (ht : t ∈ ss) (hshares : s.Shares t) :
    s = t := by
  have : Std.Symm fun s t : OutputSection => ¬ s.Shares t := ⟨fun _ _ hst hts => hst hts.symm⟩
  by_contra hne
  exact h.apart.forall hs ht hne hshares

/-- Connected mappings have one section. -/
theorem eq_of_connected (h : Merged l ss) (hself : m.Linked m) (hs : s ∈ ss) (ht : t ∈ ss)
    (hgathers : Gathers l (Connected l m) s) (hgathers' : Gathers l (Connected l k) t)
    (hmk : Connected l m k) : s = t := by
  obtain ⟨name, hname, -⟩ := hself
  have hm := hmk.left_mem
  refine h.eq_of_shares hs ht ⟨name, ?_, ?_⟩
  · exact (hgathers.inputs name).mpr ⟨m, hm, .refl hm, hname⟩
  · exact (hgathers'.inputs name).mpr ⟨m, hm, hmk.symm, hname⟩

/-- **Sections correspond to components.** -/
theorem eq_iff_connected (h : Merged l ss) (hself : m.Linked m) (hm : m ∈ l) (hs : s ∈ ss)
    (ht : t ∈ ss) (hgathers : Gathers l (Connected l m) s)
    (hgathers' : Gathers l (Connected l k) t) : s = t ↔ Connected l m k := by
  constructor
  · intro heq
    rw [← heq] at hgathers'
    exact connected_of_gathers hself hm hgathers hgathers'
  · exact h.eq_of_connected hself hs ht hgathers hgathers'

/-- A section stops where some mapping does. -/
theorem stop_lt (h : Merged l ss) (hbound : ∀ m ∈ l, m.destExtent.stop < Word.count) (hs : s ∈ ss) :
    s.extent.stop < Word.count := by
  obtain ⟨m, -, hgathers⟩ := h.gathered s hs
  obtain ⟨⟨k, hk, -, hstop⟩, -⟩ := hgathers.stop
  rw [hstop]
  exact hbound k hk

/-- The order of sections has no part in which components they gather. -/
theorem perm {tt : List OutputSection} (h : Merged l ss)
    (hperm : tt.Perm ss) : Merged l tt where
  apart := (hperm.pairwise_iff fun {_ _} hst hts => hst hts.symm).mpr h.apart
  gathered s hs := h.gathered s (hperm.mem_iff.mp hs)
  home m hm := by
    obtain ⟨s, hs, hgathers⟩ := h.home m hm
    exact ⟨s, hperm.mem_iff.mpr hs, hgathers⟩

/-! ## §2. One more mapping. -/

/-- A section that shares inputs with the new one takes it in. -/
def take (new s : OutputSection) : OutputSection :=
  if s.Shares new then s.merge new else s

theorem mem_inputs_take {name : String} :
    name ∈ (take new s).inputs ↔ name ∈ s.inputs ∨ (s.Shares new ∧ name ∈ new.inputs) := by
  unfold take
  split
  next hshares => simp [mem_inputs_merge, hshares]
  next hshares => simp [hshares]

/-- The section of a component gathers what the component becomes. -/
theorem gathers_take (h : Merged l ss) (hnew : ofMapping? n = some new) (hself : n.Linked n)
    (hbound : ∀ m ∈ l ++ [n], m.destExtent.stop < Word.count) (hsplits : ¬ Splits l n)
    (hs : s ∈ ss) (hm : m ∈ l) (hgathers : Gathers l (Connected l m) s) :
    Gathers (l ++ [n]) (Connected (l ++ [n]) m) (take new s) := by
  have hold : ∀ k ∈ l, Connected (l ++ [n]) m k ↔ Connected l m k := fun k hk =>
    Mapping.connected_snoc_iff hself hsplits hm hk
  have hstop := h.stop_lt (fun k hk => hbound k (List.mem_append_left _ hk)) hs
  unfold take
  split
  next hshares =>
    have htouches := (shares_iff hgathers hnew).mp hshares
    exact hgathers.merge hold htouches.connected hnew hstop (hbound n (by simp))
  next hshares =>
    rw [shares_iff hgathers hnew, ← Mapping.connected_snoc_new_iff hself hm] at hshares
    exact hgathers.extend hold hshares

/-- The new mapping splits what it is inserted into if two sections share inputs with it. -/
theorem splits_of_shares (h : Merged l ss) (hnew : ofMapping? n = some new)
    (hl : ∀ m ∈ l, m.Linked m) (hs : s ∈ ss) (ht : t ∈ ss) (hne : s ≠ t) (hshares : s.Shares new)
    (hshares' : t.Shares new) : Splits l n := by
  obtain ⟨m, hm, hgathers⟩ := h.gathered s hs
  obtain ⟨k, hk, hgathers'⟩ := h.gathered t ht
  obtain ⟨a, ha, hlink⟩ := (shares_iff hgathers hnew).mp hshares
  obtain ⟨b, hb, hlink'⟩ := (shares_iff hgathers' hnew).mp hshares'
  refine ⟨a, ha.right_mem, b, hb.right_mem, hlink, hlink', fun hab => hne ?_⟩
  exact h.eq_of_connected (hl m hm) hs ht hgathers hgathers' ((ha.trans hab).trans hb.symm)

/-- If the new mapping splits what it is inserted into, two sections share inputs with it. -/
theorem exists_shares_of_splits (h : Merged l ss) (hnew : ofMapping? n = some new)
    (hl : ∀ m ∈ l, m.Linked m) (hsplits : Splits l n) :
    ∃ s ∈ ss, ∃ t ∈ ss, s ≠ t ∧ s.Shares new ∧ t.Shares new := by
  obtain ⟨a, ha, b, hb, hlink, hlink', hne⟩ := hsplits
  obtain ⟨s, hs, hgathers⟩ := h.home a ha
  obtain ⟨t, ht, hgathers'⟩ := h.home b hb
  refine ⟨s, hs, t, ht, fun heq => hne ?_, ?_, ?_⟩
  · exact (h.eq_iff_connected (hl a ha) ha hs ht hgathers hgathers').mp heq
  · exact (shares_iff hgathers hnew).mpr ⟨a, .refl ha, hlink⟩
  · exact (shares_iff hgathers' hnew).mpr ⟨b, .refl hb, hlink'⟩

/-- A mapping that touches no component has a section of its own. -/
theorem snoc (h : Merged l ss) (hnew : ofMapping? n = some new) (hself : n.Linked n)
    (hbound : ∀ m ∈ l ++ [n], m.destExtent.stop < Word.count)
    (hnone : ∀ s ∈ ss, ¬ s.Shares new) : Merged (l ++ [n]) (ss ++ [new]) := by
  have htouches : ∀ m ∈ l, ¬ Touches l n m := fun m hm htouches => by
    obtain ⟨s, hs, hgathers⟩ := h.home m hm
    exact hnone s hs ((shares_iff hgathers hnew).mpr htouches)
  have hsplits : ¬ Splits l n := fun hsplits => by
    obtain ⟨a, ha, -, -, hlink, -⟩ := hsplits
    exact htouches a ha ⟨a, .refl ha, hlink⟩
  have hmem : n ∈ l ++ [n] := List.mem_append_right _ (List.mem_singleton_self n)
  have hsame : ∀ s ∈ ss, take new s = s := fun s hs => if_neg (hnone s hs)
  have hold : ∀ m ∈ l, ∀ s ∈ ss, Gathers l (Connected l m) s →
      Gathers (l ++ [n]) (Connected (l ++ [n]) m) s := fun m hm s hs hgathers => by
    rw [← hsame s hs]
    exact h.gathers_take hnew hself hbound hsplits hs hm hgathers
  have hown : Gathers (l ++ [n]) (Connected (l ++ [n]) n) new :=
    .single hnew (.refl hmem) fun k hk hconnected =>
      htouches k hk ((Mapping.connected_snoc_new_iff hself hk).mp hconnected.symm)
  refine ⟨?_, fun s hs => ?_, fun m hm => ?_⟩
  · refine List.pairwise_append.mpr ⟨h.apart, List.pairwise_singleton _ _, fun s hs t ht => ?_⟩
    rw [List.mem_singleton.mp ht]
    exact hnone s hs
  · rcases List.mem_append.mp hs with hs | hs
    · obtain ⟨m, hm, hgathers⟩ := h.gathered s hs
      exact ⟨m, List.mem_append_left _ hm, hold m hm s hs hgathers⟩
    · rw [List.mem_singleton.mp hs]
      exact ⟨n, hmem, hown⟩
  · rcases List.mem_append.mp hm with hm | hm
    · obtain ⟨s, hs, hgathers⟩ := h.home m hm
      exact ⟨s, List.mem_append_left _ hs, hold m hm s hs hgathers⟩
    · rw [List.mem_singleton.mp hm]
      exact ⟨new, List.mem_append_right _ (List.mem_singleton_self new), hown⟩

/-- A mapping that touches one component joins its section. -/
theorem join (h : Merged l ss) (hnew : ofMapping? n = some new) (hself : n.Linked n)
    (hbound : ∀ m ∈ l ++ [n], m.destExtent.stop < Word.count) (hsplits : ¬ Splits l n)
    (hs : s ∈ ss) (hshares : s.Shares new) (honly : ∀ t ∈ ss, t.Shares new → t = s) :
    Merged (l ++ [n]) (ss.map (take new)) := by
  refine ⟨?_, fun t ht => ?_, fun m hm => ?_⟩
  · refine List.pairwise_map.mpr (h.apart.imp_of_mem fun {a b} ha hb hab => ?_)
    -- the section that takes the new one in is the only one to share anything with it
    have hnot : ¬ (a.Shares new ∧ b.Shares new) := fun ⟨hanew, hbnew⟩ => by
      have heq : a = b := (honly a ha hanew).trans (honly b hb hbnew).symm
      obtain ⟨name, hname, -⟩ := hanew
      exact hab ⟨name, hname, heq ▸ hname⟩
    intro hgiven
    obtain ⟨name, hna, hnb⟩ := hgiven
    rcases mem_inputs_take.mp hna with hna | ⟨hanew, hna⟩
    · rcases mem_inputs_take.mp hnb with hnb | ⟨hbnew, hnb⟩
      · exact hab ⟨name, hna, hnb⟩
      · exact hnot ⟨⟨name, hna, hnb⟩, hbnew⟩
    · rcases mem_inputs_take.mp hnb with hnb | ⟨hbnew, hnb⟩
      · exact hnot ⟨hanew, ⟨name, hnb, hna⟩⟩
      · exact hnot ⟨hanew, hbnew⟩
  · obtain ⟨r, hr, rfl⟩ := List.mem_map.mp ht
    obtain ⟨m, hm, hgathers⟩ := h.gathered r hr
    exact ⟨m, List.mem_append_left _ hm,
      h.gathers_take hnew hself hbound hsplits hr hm hgathers⟩
  · rcases List.mem_append.mp hm with hm | hm
    · obtain ⟨t, ht, hgathers⟩ := h.home m hm
      exact ⟨take new t, List.mem_map_of_mem ht,
        h.gathers_take hnew hself hbound hsplits ht hm hgathers⟩
    · -- the new mapping is connected with the component that it joins
      rw [List.mem_singleton.mp hm]
      obtain ⟨k, hk, hgathers⟩ := h.gathered s hs
      have hconnected := ((shares_iff hgathers hnew).mp hshares).connected
      refine ⟨take new s, List.mem_map_of_mem hs,
        (h.gathers_take hnew hself hbound hsplits hs hk hgathers).congr fun j _ => ?_⟩
      exact ⟨fun hj => hconnected.symm.trans hj, fun hj => hconnected.trans hj⟩

/-- An insertion adds a section of its own, or merges with the only one that shares inputs with it,
or is refused because two do. -/
theorem insert_cases (ss : List OutputSection) (new : OutputSection) :
    ((∀ s ∈ ss, ¬ s.Shares new) ∧ (insert ss new).outcome = .ok (ss ++ [new]))
      ∨ (∃ s ∈ ss, s.Shares new ∧ (∀ t ∈ ss, t.Shares new → t = s)
          ∧ (insert ss new).outcome = .ok (ss.map (take new)))
      ∨ ∃ s t, [s, t].Sublist (ss.filter (·.Shares new))
          ∧ ∃ text, (insert ss new).outcome = .error (.refused (.ambiguousSection text)) := by
  have hclaim : ∀ s, s ∈ ss.filter (·.Shares new) ↔ s ∈ ss ∧ s.Shares new := fun s => by
    rw [List.mem_filter, decide_eq_true_iff]
  unfold insert
  split
  next hnil =>
    refine .inl ⟨fun s hs hshares => ?_, rfl⟩
    have hmem := (hclaim s).mpr ⟨hs, hshares⟩
    rw [hnil] at hmem
    cases hmem
  next s hone =>
    obtain ⟨hs, hshares⟩ := (hclaim s).mp (hone ▸ List.mem_singleton_self s)
    refine .inr (.inl ⟨s, hs, hshares, fun t ht htshares => ?_, ?_⟩)
    · have hmem := (hclaim t).mpr ⟨ht, htshares⟩
      rw [hone] at hmem
      exact List.mem_singleton.mp hmem
    · rw [Run.report_bind_eq_ok_iff, Run.pure_outcome_eq_ok_iff]
      rfl
  next hnil hone =>
    -- neither none nor one shares inputs, so there are a first and a second
    rcases hclaimants : ss.filter (·.Shares new) with _ | ⟨s, _ | ⟨t, rest⟩⟩
    · exact absurd hclaimants hnil
    · exact absurd hclaimants (hone s)
    · refine .inr (.inr ⟨s, t, ?_, _, rfl⟩)
      rw [hclaimants]
      exact List.sublist_append_left [s, t] rest

/-- **One more mapping**: either it splits what it is inserted into, and the insertion is refused,
or there is again one section for each component. -/
theorem insert_spec (h : Merged l ss) (hnew : ofMapping? n = some new)
    (hself : ∀ m ∈ l ++ [n], m.Linked m)
    (hbound : ∀ m ∈ l ++ [n], m.destExtent.stop < Word.count) :
    (¬ Splits l n ∧ ∃ ss', (insert ss new).outcome = .ok ss' ∧ Merged (l ++ [n]) ss')
      ∨ (Splits l n ∧ ∃ text, (insert ss new).outcome
          = .error (.refused (.ambiguousSection text))) := by
  have hl : ∀ m ∈ l, m.Linked m := fun m hm => hself m (List.mem_append_left _ hm)
  have hn : n.Linked n := hself n (by simp)
  rcases insert_cases ss new with ⟨hnone, hok⟩ | ⟨s, hs, hshares, honly, hok⟩ | ⟨s, t, hsub, hrefused⟩
  · refine .inl ⟨fun hsplits => ?_, _, hok, h.snoc hnew hn hbound hnone⟩
    obtain ⟨s, hs, -, -, -, hshares, -⟩ := h.exists_shares_of_splits hnew hl hsplits
    exact hnone s hs hshares
  · have hsplits : ¬ Splits l n := fun hsplits => by
      obtain ⟨a, ha, b, hb, hne, hashares, hbshares⟩ := h.exists_shares_of_splits hnew hl hsplits
      exact hne ((honly a ha hashares).trans (honly b hb hbshares).symm)
    exact .inl ⟨hsplits, _, hok, h.join hnew hn hbound hsplits hs hshares honly⟩
  · refine .inr ⟨?_, hrefused⟩
    obtain ⟨hs, hshares⟩ := List.mem_filter.mp (hsub.subset (by simp : s ∈ [s, t]))
    obtain ⟨ht, hshares'⟩ := List.mem_filter.mp (hsub.subset (by simp : t ∈ [s, t]))
    rw [decide_eq_true_iff] at hshares hshares'
    have hapart := List.rel_of_pairwise_cons (h.apart.sublist (hsub.trans List.filter_sublist))
      (List.mem_singleton_self t)
    refine h.splits_of_shares hnew hl hs ht (fun heq => ?_) hshares hshares'
    obtain ⟨name, hname, -⟩ := hshares
    exact hapart ⟨name, hname, heq ▸ hname⟩

/-! ## §3. All mappings. -/

/-- **A whole pass**: either no mapping splits those before it, and there is one section for each
component, or the pass is refused. -/
theorem foldlM_insert_spec : ∀ {rest l : List Mapping} {ss : List OutputSection}, Merged l ss →
    (∀ m ∈ l ++ rest, m.sections ≠ []) →
    (∀ m ∈ l ++ rest, m.destExtent.stop < Word.count) →
    ((¬ ∃ before n after, rest = before ++ n :: after ∧ Splits (l ++ before) n)
        ∧ ∃ ss', ((rest.filterMap ofMapping?).foldlM insert ss).outcome = .ok ss'
            ∧ Merged (l ++ rest) ss')
      ∨ ((∃ before n after, rest = before ++ n :: after ∧ Splits (l ++ before) n)
        ∧ ∃ text, ((rest.filterMap ofMapping?).foldlM insert ss).outcome
            = .error (.refused (.ambiguousSection text)))
  | [], l, ss, h, _, _ => by
    refine .inl ⟨?_, ss, rfl, by rwa [List.append_nil]⟩
    intro hgiven
    obtain ⟨before, n, after, hnil, -⟩ := hgiven
    simp at hnil
  | n :: rest, l, ss, h, hdeclares, hbound => by
    rw [List.append_cons l n rest] at hdeclares hbound ⊢
    have hself : ∀ m ∈ l ++ [n], m.Linked m := fun m hm =>
      Mapping.linked_self (hdeclares m (List.mem_append_left _ hm))
    obtain ⟨new, hnew⟩ : ∃ new, ofMapping? n = some new :=
      Option.isSome_iff_exists.mp (by simpa [ofMapping?] using hdeclares n (by simp))
    rw [List.filterMap_cons_some hnew, List.foldlM_cons, Run.outcome_bind,
      exists_split_cons_iff, List.append_nil]
    rcases h.insert_spec hnew hself fun m hm => hbound m (List.mem_append_left _ hm) with
      ⟨hsplits, ss', hinsert, hmerged⟩ | ⟨hsplits, text, hinsert⟩
    · -- the induction is on the mappings that are left, with this one among those done
      rw [hinsert]
      have ih := foldlM_insert_spec hmerged hdeclares hbound
      simp only [List.append_assoc, List.singleton_append] at ih ⊢
      rcases ih with ⟨hnone, hrest⟩ | ⟨hsome, hrest⟩
      · exact .inl ⟨fun hgiven => hgiven.elim hsplits hnone, hrest⟩
      · exact .inr ⟨.inr hsome, hrest⟩
    · rw [hinsert]
      exact .inr ⟨.inl hsplits, text, rfl⟩

end Merged

end OutputSection

/-! ## §4. The sections of an image. -/

/-- The mappings of the stages that exist, if they name input sections. -/
def AddressMap.declaring (a : AddressMap) (p : Platform) : List Mapping :=
  (a.enabled p).filter fun m => m.sections ≠ []

theorem AddressMap.sections_ne_nil {a : AddressMap} {p : Platform} {m : Mapping}
    (hm : m ∈ a.declaring p) : m.sections ≠ [] :=
  of_decide_eq_true (List.mem_filter.mp hm).2

theorem AddressMap.AcceptedOn.declaring_bounded {a : AddressMap} {p₁ p : Platform} {m : Mapping}
    (ha : a.AcceptedOn p₁) (hm : m ∈ a.declaring p) : m.Bounded := by
  obtain ⟨t, -, hm⟩ := AddressMap.mem_enabled.mp (List.mem_filter.mp hm).1
  exact ha.bounded hm

namespace OutputSection

variable {a : AddressMap} {p₁ : Platform}

theorem ofMappings_declaring (a : AddressMap) (p : Platform) :
    ofMappings (a.enabled p) = ((a.declaring p).filterMap ofMapping?).foldlM insert [] := by
  unfold ofMappings AddressMap.declaring
  rw [List.filterMap_filter]
  congr
  funext m
  by_cases h : m.sections = []
  · simp [ofMapping?, h]
  · simp [h]

/-- **The sections of an accepted map are those of its components**, or some mapping splits those
before it. -/
theorem ofMappings_spec (ha : a.AcceptedOn p₁) (p : Platform) :
    (¬ Ambiguous (a.declaring p) ∧ ∃ ss, (ofMappings (a.enabled p)).outcome = .ok ss
        ∧ Merged (a.declaring p) ss)
      ∨ (Ambiguous (a.declaring p) ∧ ∃ text, (ofMappings (a.enabled p)).outcome
          = .error (.refused (.ambiguousSection text))) := by
  rw [ofMappings_declaring]
  exact merged_nil.foldlM_insert_spec (fun m hm => AddressMap.sections_ne_nil hm)
    (fun m hm => (ha.declaring_bounded hm).dest_lt)

/-- Where merging succeeds, nothing is ambiguous. -/
theorem merged_of_ofMappings (ha : a.AcceptedOn p₁) {p : Platform} {ss : List OutputSection}
    (h : (ofMappings (a.enabled p)).outcome = .ok ss) :
    ¬ Ambiguous (a.declaring p) ∧ Merged (a.declaring p) ss := by
  rcases ofMappings_spec ha p with ⟨hclear, tt, htt, hmerged⟩ | ⟨-, text, herror⟩
  · rw [htt] at h
    exact ⟨hclear, Except.ok.inj h ▸ hmerged⟩
  · rw [herror] at h
    cases h

end OutputSection

end FirmwareMap
