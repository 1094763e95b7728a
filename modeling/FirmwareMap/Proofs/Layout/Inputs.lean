/-
  FirmwareMap.Proofs.Layout.Inputs
  ────────────────────────────────
  **IN WHICH ORDER A SECTION LISTS ITS INPUTS, AND HOW OFTEN.**

  Startup code has to come before all other code, and every input has to be
  listed once.  A section of several mappings sees to the former, whatever
  they declare, and to the latter for what the lowest of them does not declare:

      inputs = inputs of the lowest, as they are  ++  new ones, each once

  What the lowest mapping declares is never looked at twice.  Where it lists a
  name again, the section does; and where a mapping alone lists startup code
  behind other code, nothing moves it.
-/
import FirmwareMap.Layout.Script
import FirmwareMap.Proofs.Layout.Region

namespace FirmwareMap

open Mapping (Connected)

/-! ## §1. Lists of inputs. -/

variable {l new : List String} {name : String}

theorem count_appendNew (l new : List String) (name : String) :
    (appendNew l new).count name
      = if name ∈ l then l.count name else min 1 (new.count name) := by
  unfold appendNew
  induction new generalizing l with
  | nil =>
    by_cases hname : name ∈ l
    · simp [hname]
    · simp [hname, List.count_eq_zero_of_not_mem hname]
  | cons n rest ih =>
    rw [List.foldl_cons, ih]
    by_cases hn : n ∈ l
    · rw [if_pos hn]
      by_cases hname : name ∈ l
      · simp only [hname, if_true]
      · -- a name that is not in the list yet is not the one that is
        have hne : n ≠ name := fun heq => hname (heq ▸ hn)
        simp only [hname, if_false, List.count_cons_of_ne hne]
    · rw [if_neg hn]
      by_cases heq : n = name
      · subst heq
        simp [hn, List.count_append, List.count_eq_zero_of_not_mem hn]
      · simp [List.count_append, Ne.symm heq, heq]

theorem count_startupFirst (l : List String) (name : String) :
    (startupFirst l).count name = l.count name := by
  unfold startupFirst
  split
  next h => exact (List.perm_cons_erase h).symm.count_eq name
  next => rfl

theorem head?_startupFirst (h : startupInput ∈ l) :
    (startupFirst l).head? = some startupInput := by
  unfold startupFirst
  rw [if_pos h]
  rfl

theorem mem_withStartup (h : codeInput ∈ withStartup l) : startupInput ∈ withStartup l := by
  unfold withStartup at h ⊢
  split
  next => exact List.mem_cons_self
  next hnot =>
    rw [if_neg hnot] at h
    by_contra hstartup
    exact hnot ⟨h, hstartup⟩

theorem nodup_withStartup : (withStartup l).Nodup ↔ l.Nodup := by
  unfold withStartup
  split
  next h => simp [h.2]
  next => exact Iff.rfl

namespace OutputSection

variable {ms l : List Mapping} {ss ss' : List OutputSection} {s t new : OutputSection}
  {m n k : Mapping}

/-! ## §2. Sections from one mapping after the other. -/

/-- The section is made of the mappings: that of the first one, merged with those of the others in
their order. -/
inductive Composed : List Mapping → OutputSection → Prop where
  /-- A mapping alone. -/
  | single {m : Mapping} {s : OutputSection} (h : ofMapping? m = some s) : Composed [m] s
  /-- One more mapping. -/
  | merge {ms : List Mapping} {s new : OutputSection} {n : Mapping} (h : Composed ms s)
      (hnew : ofMapping? n = some new) : Composed (ms ++ [n]) (s.merge new)

/-- The first of some mappings that start where the section does. -/
def leadOf? (s : OutputSection) (ms : List Mapping) : Option Mapping :=
  ms.find? fun m => m.destExtent.start = s.extent.start

/-- What the section lists, by what its lowest mapping does. -/
structure Listed (ms : List Mapping) (s : OutputSection) (n : Mapping) : Prop where
  /-- The section starts with this mapping. -/
  lead : s.leadOf? ms = some n
  /-- No mapping starts lower. -/
  lowest : ∀ m ∈ ms, s.extent.start ≤ m.destExtent.start
  /-- Inputs of the lowest mapping are listed as often as they are there. -/
  own : ∀ name ∈ n.inputs, s.inputs.count name = n.inputs.count name
  /-- Other inputs are listed no more than once. -/
  once : ∀ name ∉ n.inputs, s.inputs.count name ≤ 1
  /-- With code there is startup code. -/
  startup : codeInput ∈ s.inputs → startupInput ∈ s.inputs
  /-- A mapping alone keeps its order. -/
  alone : ms.length = 1 → s.inputs = n.inputs
  /-- Several mappings have startup code first. -/
  first : ms.length ≠ 1 → startupInput ∈ s.inputs → s.inputs.head? = some startupInput

theorem listed_single (h : ofMapping? m = some s) : Listed [m] s m := by
  obtain ⟨-, hextent, hinputs, -⟩ := ofMapping?_eq_some_iff.mp h
  refine ⟨?_, ?_, fun name _ => ?_, fun name hname => ?_, fun hcode => ?_, fun _ => hinputs,
    fun hlength => absurd rfl hlength⟩
  · simp [leadOf?, hextent]
  · simp [hextent]
  · rw [hinputs]
  · rw [hinputs, List.count_eq_zero_of_not_mem hname]
    exact Nat.zero_le 1
  · rw [hinputs] at hcode ⊢
    exact mem_withStartup hcode

theorem count_inputs_absorb (s t : OutputSection) (name : String) :
    (s.absorb t).inputs.count name
      = if name ∈ s.inputs then s.inputs.count name else min 1 (t.inputs.count name) := by
  show (startupFirst (appendNew s.inputs t.inputs)).count name = _
  rw [count_startupFirst, count_appendNew]

/-- A merged section with code has startup code, as each of its parts has. -/
theorem startup_merge (hs : codeInput ∈ s.inputs → startupInput ∈ s.inputs)
    (ht : codeInput ∈ t.inputs → startupInput ∈ t.inputs)
    (hcode : codeInput ∈ (s.merge t).inputs) : startupInput ∈ (s.merge t).inputs := by
  rw [mem_inputs_merge] at hcode ⊢
  exact hcode.imp hs ht

/-- A merged section has startup code first. -/
theorem head?_inputs_merge (h : startupInput ∈ (s.merge t).inputs) :
    (s.merge t).inputs.head? = some startupInput := by
  rw [mem_inputs_merge] at h
  unfold merge
  split
  · exact head?_startupFirst (mem_appendNew.mpr h.symm)
  · exact head?_startupFirst (mem_appendNew.mpr h)

namespace Listed

theorem length_snoc_ne (h : Listed ms s m) (n : Mapping) : (ms ++ [n]).length ≠ 1 := by
  have hpos := List.length_pos_of_mem (List.mem_of_find?_eq_some h.lead)
  rw [List.length_append]
  show ms.length + 1 ≠ 1
  omega

theorem startup_merge (h : Listed ms s m) (hnew : ofMapping? n = some new) :
    codeInput ∈ (s.merge new).inputs → startupInput ∈ (s.merge new).inputs := by
  obtain ⟨-, -, hinputs, -⟩ := ofMapping?_eq_some_iff.mp hnew
  apply OutputSection.startup_merge h.startup
  rw [hinputs]
  exact mem_withStartup

/-- One more mapping, which starts lower than all others. -/
theorem merge_lower (h : Listed ms s m) (hnew : ofMapping? n = some new)
    (hlt : n.destExtent.start < s.extent.start) : Listed (ms ++ [n]) (s.merge new) n := by
  obtain ⟨-, hextent, hinputs, -⟩ := ofMapping?_eq_some_iff.mp hnew
  have hmerge : s.merge new = new.absorb s := if_pos (by rwa [hextent])
  have hstart : (s.merge new).extent.start = n.destExtent.start := by
    rw [start_merge, hextent]
    omega
  refine ⟨?_, fun k hk => ?_, fun name hname => ?_, fun name hname => ?_, h.startup_merge hnew,
    fun hone => absurd hone (h.length_snoc_ne n), fun _ => head?_inputs_merge⟩
  · -- all that came before start higher
    have hnone : ms.find? (fun k => k.destExtent.start = n.destExtent.start) = none := by
      rw [List.find?_eq_none]
      intro k hk
      have hlow := h.lowest k hk
      simp
      omega
    unfold leadOf?
    rw [hstart, List.find?_append, hnone]
    simp
  · rw [hstart]
    rcases List.mem_append.mp hk with hk | hk
    · have hlow := h.lowest k hk
      omega
    · rw [List.mem_singleton.mp hk]
  · rw [hmerge, count_inputs_absorb, hinputs, if_pos hname]
  · rw [hmerge, count_inputs_absorb, hinputs, if_neg hname]
    exact Nat.min_le_left _ _

/-- One more mapping, which starts no lower than the others. -/
theorem merge_upper (h : Listed ms s m) (hnew : ofMapping? n = some new)
    (hle : s.extent.start ≤ n.destExtent.start) : Listed (ms ++ [n]) (s.merge new) m := by
  obtain ⟨-, hextent, -, -⟩ := ofMapping?_eq_some_iff.mp hnew
  have hmerge : s.merge new = s.absorb new := if_neg (by rw [hextent]; omega)
  have hstart : (s.merge new).extent.start = s.extent.start := by
    rw [start_merge, hextent]
    omega
  refine ⟨?_, fun k hk => ?_, fun name hname => ?_, fun name hname => ?_, h.startup_merge hnew,
    fun hone => absurd hone (h.length_snoc_ne n), fun _ => head?_inputs_merge⟩
  · -- the search ends before it comes to the new mapping
    unfold leadOf?
    rw [hstart, List.find?_append]
    show (s.leadOf? ms).or _ = some m
    rw [h.lead]
    rfl
  · rw [hstart]
    rcases List.mem_append.mp hk with hk | hk
    · exact h.lowest k hk
    · rwa [List.mem_singleton.mp hk]
  · -- what the lowest mapping lists was there before, so the new mapping adds none of it
    have hs : name ∈ s.inputs := by
      rw [← List.count_pos_iff, h.own name hname]
      exact List.count_pos_iff.mpr hname
    rw [hmerge, count_inputs_absorb, if_pos hs]
    exact h.own name hname
  · rw [hmerge, count_inputs_absorb]
    split
    · exact h.once name hname
    · exact Nat.min_le_left _ _

end Listed

/-- **A section that is made of mappings lists what its lowest one lists.** -/
theorem Composed.exists_listed (h : Composed ms s) : ∃ n, Listed ms s n := by
  induction h with
  | single h => exact ⟨_, listed_single h⟩
  | @merge ms s new n _ hnew ih =>
    obtain ⟨m, hm⟩ := ih
    by_cases hlt : n.destExtent.start < s.extent.start
    · exact ⟨n, hm.merge_lower hnew hlt⟩
    · exact ⟨m, hm.merge_upper hnew (Nat.le_of_not_lt hlt)⟩

/-! ## §3. The sections of a pass. -/

theorem members_append (s : OutputSection) (l k : List Mapping) :
    s.members (l ++ k) = s.members l ++ s.members k :=
  List.filter_append l k

/-- All inputs of a mapping are in one section. -/
theorem Merged.exists_holds (h : Merged l ss) (hk : k ∈ l) :
    ∃ t ∈ ss, ∀ name ∈ k.inputs, name ∈ t.inputs := by
  obtain ⟨t, ht, hgathers⟩ := h.home k hk
  refine ⟨t, ht, fun name hname => ?_⟩
  rw [hgathers.inputs]
  exact ⟨k, hk, .refl hk, hname⟩

/-- A section that shares no inputs with a new mapping keeps its mappings. -/
theorem members_snoc_of_not_shares (hnew : ofMapping? n = some new) (h : ¬ s.Shares new) :
    s.members (l ++ [n]) = s.members l := by
  obtain ⟨-, -, hinputs, -⟩ := ofMapping?_eq_some_iff.mp hnew
  have hnot : ¬ ∃ name ∈ n.inputs, name ∈ s.inputs := by
    rintro ⟨name, hn, hs⟩
    exact h ⟨name, hs, hinputs ▸ hn⟩
  have hlast : s.members [n] = [] := by
    simpa [members] using hnot
  rw [members_append, hlast, List.append_nil]

/-- A section that the new mapping joins has it besides its own mappings, if no other section shares
inputs with it. -/
theorem members_snoc_of_shares (h : Merged l ss) (hnew : ofMapping? n = some new)
    (hshares : s.Shares new) (honly : ∀ t ∈ ss, t.Shares new → t = s) :
    (s.merge new).members (l ++ [n]) = s.members l ++ [n] := by
  obtain ⟨-, -, hinputs, -⟩ := ofMapping?_eq_some_iff.mp hnew
  have hold : ∀ k ∈ l, (∃ name ∈ k.inputs, name ∈ (s.merge new).inputs)
      ↔ ∃ name ∈ k.inputs, name ∈ s.inputs := by
    intro k hk
    constructor
    · rintro ⟨name, hname, hmerge⟩
      rcases mem_inputs_merge.mp hmerge with hs' | hn
      · exact ⟨name, hname, hs'⟩
      · -- a mapping that shares inputs with the new one is in this section already
        obtain ⟨t, ht, hholds⟩ := h.exists_holds hk
        obtain rfl := honly t ht ⟨name, hholds name hname, hn⟩
        exact ⟨name, hname, hholds name hname⟩
    · rintro ⟨name, hname, hs'⟩
      exact ⟨name, hname, mem_inputs_merge.mpr (.inl hs')⟩
  have hn : ∃ name ∈ n.inputs, name ∈ (s.merge new).inputs := by
    obtain ⟨name, hs', hname⟩ := hshares
    exact ⟨name, hinputs ▸ hname, mem_inputs_merge.mpr (.inl hs')⟩
  have hfilter : (s.merge new).members l = s.members l :=
    List.filter_congr fun k hk => decide_eq_decide.mpr (hold k hk)
  have hlast : (s.merge new).members [n] = [n] := by
    simp [members, hn]
  rw [members_append, hfilter, hlast]

/-- A section of its own has one mapping. -/
theorem members_snoc_own (h : Merged l ss) (hnew : ofMapping? n = some new) (hself : n.Linked n)
    (hnone : ∀ s ∈ ss, ¬ s.Shares new) : new.members (l ++ [n]) = [n] := by
  obtain ⟨-, -, hinputs, -⟩ := ofMapping?_eq_some_iff.mp hnew
  have hold : ∀ k ∈ l, ¬ ∃ name ∈ k.inputs, name ∈ new.inputs := by
    rintro k hk ⟨name, hname, hn⟩
    obtain ⟨t, ht, hholds⟩ := h.exists_holds hk
    exact hnone t ht ⟨name, hholds name hname, hn⟩
  have hn : ∃ name ∈ n.inputs, name ∈ new.inputs := by
    rw [hinputs]
    exact hself
  have hnil : new.members l = [] := by
    simpa [members] using hold
  have hlast : new.members [n] = [n] := by
    simp [members, hn]
  rw [members_append, hnil, hlast]
  rfl

/-- **One more mapping**: every section is still made of its mappings. -/
theorem composed_insert (h : Merged l ss) (hall : ∀ s ∈ ss, Composed (s.members l) s)
    (hnew : ofMapping? n = some new) (hself : n.Linked n)
    (hrun : (insert ss new).outcome = .ok ss') :
    ∀ s ∈ ss', Composed (s.members (l ++ [n])) s := by
  intro s hs
  rcases Merged.insert_cases ss new with ⟨hnone, hok⟩ | ⟨r, -, -, honly, hok⟩ | ⟨_, _, -, _, herror⟩
  · obtain rfl := Except.ok.inj (hok.symm.trans hrun)
    rcases List.mem_append.mp hs with hs | hs
    · rw [members_snoc_of_not_shares hnew (hnone s hs)]
      exact hall s hs
    · rw [List.mem_singleton.mp hs, members_snoc_own h hnew hself hnone]
      exact .single hnew
  · obtain rfl := Except.ok.inj (hok.symm.trans hrun)
    obtain ⟨t, ht, rfl⟩ := List.mem_map.mp hs
    unfold Merged.take
    by_cases hshares : t.Shares new
    · obtain rfl := honly t ht hshares
      rw [if_pos hshares, members_snoc_of_shares h hnew hshares honly]
      exact (hall t ht).merge hnew
    · rw [if_neg hshares, members_snoc_of_not_shares hnew hshares]
      exact hall t ht
  · rw [herror] at hrun
    cases hrun

/-- **A whole pass**: every section is made of its mappings, in their order. -/
theorem composed_foldlM : ∀ {rest l : List Mapping} {ss ss' : List OutputSection}, Merged l ss →
    (∀ s ∈ ss, Composed (s.members l) s) → (∀ m ∈ l ++ rest, m.sections ≠ []) →
    (∀ m ∈ l ++ rest, m.destExtent.stop < Word.count) →
    ((rest.filterMap ofMapping?).foldlM insert ss).outcome = .ok ss' →
    ∀ s ∈ ss', Composed (s.members (l ++ rest)) s
  | [], l, ss, ss', _, hall, _, _, hrun => by
    rw [List.append_nil, ← Run.pure_outcome_eq_ok_iff.mp hrun]
    exact hall
  | n :: rest, l, ss, ss', h, hall, hdeclares, hbound, hrun => by
    rw [List.append_cons l n rest] at hdeclares hbound ⊢
    have hself : ∀ m ∈ l ++ [n], m.Linked m := fun m hm =>
      Mapping.linked_self (hdeclares m (List.mem_append_left _ hm))
    obtain ⟨new, hnew⟩ : ∃ new, ofMapping? n = some new :=
      Option.isSome_iff_exists.mp (by simpa [ofMapping?] using hdeclares n (by simp))
    rw [List.filterMap_cons_some hnew, List.foldlM_cons, Run.bind_outcome_eq_ok_iff] at hrun
    obtain ⟨tt, htt, hrun⟩ := hrun
    rcases h.insert_spec hnew hself fun m hm => hbound m (List.mem_append_left _ hm) with
      ⟨-, uu, huu, hmerged⟩ | ⟨-, text, herror⟩
    · -- the induction is on the mappings that are left, with this one among those done
      obtain rfl := Except.ok.inj (htt.symm.trans huu)
      exact composed_foldlM hmerged (composed_insert h hall hnew (hself n (by simp)) htt)
        hdeclares hbound hrun
    · rw [herror] at htt
      cases htt

/-- **Every section of an accepted map is made of its mappings.** -/
theorem composed_of_ofMappings {a : AddressMap} {p₁ p : Platform} (ha : a.AcceptedOn p₁)
    (h : (ofMappings (a.enabled p)).outcome = .ok ss) :
    ∀ s ∈ ss, Composed (s.members (a.declaring p)) s := by
  rw [ofMappings_declaring] at h
  exact composed_foldlM merged_nil (fun s hs => by cases hs)
    (fun m hm => AddressMap.sections_ne_nil hm) (fun m hm => (ha.declaring_bounded hm).dest_lt) h

/-! ## §4. Startup code first, and everything once. -/

/-- Where there is code, startup code comes first and once. -/
def StartsUp (s : OutputSection) : Prop :=
  codeInput ∈ s.inputs →
    s.inputs.head? = some startupInput ∧ s.inputs.count startupInput = 1

instance (s : OutputSection) : Decidable s.StartsUp :=
  inferInstanceAs (Decidable (_ → _ ∧ _))

end OutputSection

/-- Where the mapping declares code and startup code, it declares startup code first. -/
def Mapping.StartsUp (m : Mapping) : Prop :=
  codeInput ∈ m.sections → startupInput ∈ m.sections → m.sections.head? = some startupInput

instance (m : Mapping) : Decidable m.StartsUp :=
  inferInstanceAs (Decidable (_ → _ → _))

namespace OutputSection.Listed

variable {ms : List Mapping} {s : OutputSection} {n : Mapping}

/-- Names are listed once if the lowest mapping declares them once. -/
theorem nodup_iff (h : Listed ms s n) : s.inputs.Nodup ↔ n.sections.Nodup := by
  have hlead : n.inputs.Nodup ↔ n.sections.Nodup := nodup_withStartup
  rw [← hlead, List.nodup_iff_count_le_one, List.nodup_iff_count_le_one]
  constructor
  · intro hs name
    by_cases hname : name ∈ n.inputs
    · rw [← h.own name hname]
      exact hs name
    · rw [List.count_eq_zero_of_not_mem hname]
      exact Nat.zero_le 1
  · intro hn name
    by_cases hname : name ∈ n.inputs
    · rw [h.own name hname]
      exact hn name
    · exact h.once name hname

/-- Where names are listed once, startup code comes first unless the section has a single mapping,
which declares it behind something else. -/
theorem startsUp_iff (h : Listed ms s n) (hnodup : s.inputs.Nodup) :
    s.StartsUp ↔ (ms.length = 1 → n.StartsUp) := by
  have hhead : s.StartsUp ↔ (codeInput ∈ s.inputs → s.inputs.head? = some startupInput) := by
    unfold StartsUp
    refine imp_congr_right fun _ => and_iff_left_of_imp fun hfirst => ?_
    exact List.count_eq_one_of_mem hnodup (List.mem_of_head? hfirst)
  rw [hhead]
  by_cases hone : ms.length = 1
  · -- only what a mapping alone declares stays in its order
    rw [h.alone hone]
    unfold Mapping.StartsUp Mapping.inputs withStartup
    by_cases hadded : codeInput ∈ n.sections ∧ startupInput ∉ n.sections
    · simp [hadded, hone]
    · rw [if_neg hadded]
      grind
  · constructor
    · intro _ hlength
      exact absurd hlength hone
    · intro _ hcode
      exact h.first hone (h.startup hcode)

end OutputSection.Listed

namespace ImageLayout

open OutputSection (ofMappings Merged Listed merged_of_ofMappings)

variable {a : AddressMap} {p₁ p : Platform} {layout : ImageLayout} {entry source : String}

/-- Guards have no inputs. -/
theorem flatMap_inputs (placed : List Placed) :
    placed.flatMap Placed.inputs = (placed.filterMap Placed.content?).flatMap (·.inputs) := by
  induction placed with
  | nil => rfl
  | cons q placed ih =>
    cases q with
    | content s =>
      show s.inputs ++ placed.flatMap Placed.inputs
        = s.inputs ++ (placed.filterMap Placed.content?).flatMap (·.inputs)
      rw [ih]
    | guard i start => exact ih

/-- No name occurs twice in a layout if none does in a section. -/
theorem nodup_inputs_iff {l : List Mapping} (h : Merged l layout.sections) :
    (layout.placed.flatMap Placed.inputs).Nodup ↔ ∀ s ∈ layout.sections, s.inputs.Nodup := by
  rw [flatMap_inputs, List.nodup_flatMap]
  refine and_iff_left (h.apart.imp fun {s t} hapart => ?_)
  intro name hs ht
  exact hapart ⟨name, hs, ht⟩

/-- A section with startup code first places it first. -/
theorem take_lines {s : OutputSection} (h : s.inputs.head? = some startupInput) :
    (s.lines.drop 2).take 2 = inputLines startupInput := by
  obtain ⟨rest, hrest⟩ := List.head?_eq_some_iff.mp h
  unfold OutputSection.lines
  rw [hrest]
  rfl

/-- The sections of a layout are merged, and made of their mappings. -/
theorem exists_listed (ha : a.AcceptedOn p₁)
    (h : (ofMap a p entry source).outcome = .ok layout) :
    Merged (a.declaring p) layout.sections
      ∧ ∀ s ∈ layout.sections, ∃ n, Listed (s.members (a.declaring p)) s n := by
  obtain ⟨merged, hok, -, rfl⟩ := ofMap_eq_ok_iff.mp h
  have hmerged := (merged_of_ofMappings ha hok).2
  rw [sections_of_merged hmerged fun m hm => ha.declaring_bounded hm]
  refine ⟨hmerged.perm (ordered_perm merged), fun s hs => ?_⟩
  have hs' := (ordered_perm merged).mem_iff.mp hs
  exact (OutputSection.composed_of_ofMappings ha hok s hs').exists_listed

/-- **WHERE STARTUP CODE LEADS AND NO NAME IS REPEATED**: in the layout of an accepted map, startup
code comes first and once in all sections with code and no name occurs twice, exactly if for each
section the lowest of its mappings repeats no name and, if it is the only one, declares startup code
before all else.  Such a section places startup code before all other code. -/
theorem ofMap_startsUp_iff (ha : a.AcceptedOn p₁)
    (h : (ofMap a p entry source).outcome = .ok layout) :
    ((∀ s ∈ layout.sections, s.StartsUp) ∧ (layout.placed.flatMap Placed.inputs).Nodup
        ↔ ∀ s ∈ layout.sections, ∃ n, s.leadOf? (s.members (a.declaring p)) = some n
            ∧ n.sections.Nodup ∧ ((s.members (a.declaring p)).length = 1 → n.StartsUp))
      ∧ ∀ s ∈ layout.sections, s.StartsUp → codeInput ∈ s.inputs →
          (s.lines.drop 2).take 2 = inputLines startupInput := by
  obtain ⟨hmerged, hlisted⟩ := exists_listed ha h
  refine ⟨?_, fun s _ hstarts hcode => take_lines (hstarts hcode).1⟩
  rw [nodup_inputs_iff hmerged, ← forall₂_and]
  refine forall₂_congr fun s hs => ?_
  obtain ⟨n, hn⟩ := hlisted s hs
  simp only [hn.lead, Option.some.injEq, exists_eq_left']
  rw [← hn.nodup_iff, and_comm]
  exact and_congr_right fun hnodup => hn.startsUp_iff hnodup

open AddressMap (collect threeLevels Admissible)

/-- In the image with data in two places, startup code leads and no name is repeated. -/
theorem sharingImage_startsUp :
    ∃ layout, (ofMap (collect sharingImage) threeLevels "_start" "").outcome = .ok layout
      ∧ (∀ s ∈ layout.sections, s.StartsUp) ∧ (layout.placed.flatMap Placed.inputs).Nodup := by
  have hlayout := ofMap_of_ascending sharingImage_accepted sharingImage_merged (by decide) "_start"
    ""
  refine ⟨_, hlayout, (ofMap_startsUp_iff sharingImage_accepted hlayout).1.mpr fun s hs => ?_⟩
  have hs' : s ∈ sharingSections := by
    rwa [ImageLayout.sections, filterMap_content?_spaced] at hs
  rcases List.mem_pair.mp hs' with rfl | rfl
  · exact ⟨.direct .pa ⟨0x80000000, .size4K, 2⟩ none [".text"], by decide +kernel, by decide,
      fun _ => by decide⟩
  · exact ⟨.direct .pa ⟨0x80004000, .size4K, 1⟩ none [".sbss", ".bss"], by decide +kernel,
      by decide, fun _ => by decide⟩

/-- One mapping, which declares startup code between two mentions of other code. -/
def repeatingImage : List (Stage × List Mapping) :=
  [(.s, [page 0x80000000 [".text", ".text.startup", ".text"]])]

theorem repeatingImage_accepted : (collect repeatingImage).AcceptedOn threeLevels :=
  ⟨_, Admissible.outcome_eq (by decide +kernel)⟩

/-- The section of that image has its inputs as they were declared. -/
theorem repeatingImage_inputs :
    (collect repeatingImage).AcceptedOn threeLevels
      ∧ ∃ layout, (ofMap (collect repeatingImage) threeLevels "_start" "").outcome = .ok layout
          ∧ ∃ s ∈ layout.sections, s.inputs = [".text", ".text.startup", ".text"]
            ∧ ¬ s.StartsUp ∧ ¬ (layout.placed.flatMap Placed.inputs).Nodup := by
  have hok : (ofMappings ((collect repeatingImage).enabled threeLevels)).outcome = .ok
      [⟨".text", ⟨0x80000000, 0x1000⟩, [".text", ".text.startup", ".text"], false⟩] := by
    decide +kernel
  have hlayout := ofMap_of_ascending repeatingImage_accepted hok (by decide) "_start" ""
  refine ⟨repeatingImage_accepted, _, hlayout, _, List.mem_singleton_self _, rfl, ?_, ?_⟩
  · decide
  · decide

end ImageLayout

end FirmwareMap
