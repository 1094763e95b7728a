/-
  FirmwareMap.Proofs.Tables.Selection
  ───────────────────────────────────
  **WHICH MAPPING HOLDS THE TABLES OF A STAGE.**

  Of all mappings of stages that exist, one and only one has to have a section
  that is reserved for the stage.  That mapping is the region, and tables start
  where it does; without such a mapping or with a second one, no tables are
  built:

      one reserves t   →  base = where it lies
      none or several  →  unusable region

  A name is searched for the token of a stage, and the token of one stage ends
  with that of another (`hs_stage.pagetables`).  They are not mixed up, because
  the token is searched for with a dot before it:

      before ++ "." ++ token t  is reserved for u  ↔  u = t

  if `before` does not have what all tokens end with.
-/
import FirmwareMap.Proofs.Tables.Storage
import Mathlib.Data.List.Basic

namespace FirmwareMap

/-! ## §1. Names that are reserved. -/

/-- What follows the last dot is told from a list, wherever other dots are. -/
theorem eq_of_append_cons_eq {α : Type} {x x' y y' : List α} {dot : α} (hy : dot ∉ y)
    (hy' : dot ∉ y') (h : x ++ dot :: y = x' ++ dot :: y') : y = y' := by
  have hshort : ∀ {rest z z' : List α}, dot ∉ z → dot :: z = rest ++ dot :: z' → z = z' := by
    intro rest z z' hz hrest
    cases rest with
    | nil => exact (List.cons.inj hrest).2
    | cons b rest =>
      -- the dot would stand after the last one
      have hmem : dot ∈ rest ++ dot :: z' := List.mem_append_right _ List.mem_cons_self
      exact absurd ((List.cons.inj hrest).2 ▸ hmem) hz
  rcases List.append_eq_append_iff.mp h with ⟨rest, -, hrest⟩ | ⟨rest, -, hrest⟩
  · exact hshort hy hrest
  · exact (hshort hy' hrest).symm

namespace Stage

/-- What the tokens of all stages end with. -/
def tokenStem : String := "_stage.pagetables"

variable {t u : Stage} {before x y c d : List Char}

theorem toList_token (t : Stage) : t.token.toList = t.name.toList ++ tokenStem.toList :=
  String.toList_append

theorem dot_not_mem_name (t : Stage) : '.' ∉ t.name.toList := by
  cases t <;> decide

theorem underscore_not_mem_name (t : Stage) : '_' ∉ t.name.toList := by
  cases t <;> decide

theorem eq_of_toList_name_eq (h : t.name.toList = u.name.toList) : t = u := by
  revert h
  cases t <;> cases u <;> decide

/-- The stem does not start before a dotted token and end in it: what follows the dot of the stem is
not how the name of a stage starts. -/
theorem not_straddles (hstem : tokenStem.toList = c ++ d) (hd : d ≠ [])
    (h : '.' :: t.token.toList = d ++ y) : False := by
  obtain ⟨b, d, rfl⟩ := List.exists_cons_of_ne_nil hd
  obtain ⟨rfl, htoken⟩ := List.cons.inj h
  -- the stem has one dot
  have hdots : "_stage".toList ++ '.' :: "pagetables".toList = c ++ '.' :: d := hstem
  obtain ⟨-, -, rfl⟩ := (List.append_cons_inj_of_notMem (by decide) (by decide)).mp hdots
  have hfirst : t.token.toList.head? = some 'p' := by
    rw [htoken]
    rfl
  revert hfirst
  cases t <;> decide

/-- The stem does not start in a text without it that a dotted token follows. -/
theorem not_starts_before (hclean : ¬ tokenStem.toList <:+: x ++ c)
    (h : tokenStem.toList ++ y = c ++ '.' :: t.token.toList) : False := by
  rcases List.append_eq_append_iff.mp h with ⟨rest, hc, -⟩ | ⟨d, hstem, htoken⟩
  · exact hclean ⟨x, rest, by rw [hc, List.append_assoc]⟩
  · by_cases hd : d = []
    · rw [hd, List.append_nil] at hstem
      exact hclean ⟨x, [], by rw [hstem, List.append_nil]⟩
    · exact not_straddles hstem hd htoken

/-- After a text without the stem, the stem stands in a dotted token at its end and nowhere else. -/
theorem eq_of_stem_occurs (hclean : ¬ tokenStem.toList <:+: before)
    (h : before ++ '.' :: t.token.toList = x ++ (tokenStem.toList ++ y)) :
    y = [] ∧ x = before ++ '.' :: t.name.toList := by
  have hsplit : (before ++ '.' :: t.name.toList) ++ tokenStem.toList
      = x ++ (tokenStem.toList ++ y) := by
    rw [← h, toList_token, List.append_assoc, List.cons_append]
  have hy : y = [] := by
    rcases List.append_eq_append_iff.mp hsplit with ⟨rest, -, hrest⟩ | ⟨rest, hx, hrest⟩
    · -- behind its place at the end there is no room for it
      have hlength := congrArg List.length hrest
      simp only [List.length_append] at hlength
      exact List.eq_nil_of_length_eq_zero (by omega)
    · cases rest with
      | nil => exact List.append_right_eq_self.mp hrest
      | cons b rest =>
        -- it starts with an underscore, and the name of the stage has none
        obtain rfl : '_' = b := (List.cons.inj hrest).1
        exfalso
        rcases List.append_eq_append_iff.mp hx with ⟨part, -, hname⟩ | ⟨part, hbefore, hpart⟩
        · have hmem : '_' ∈ '.' :: t.name.toList :=
            hname ▸ List.mem_append_right _ List.mem_cons_self
          exact t.underscore_not_mem_name (List.mem_of_ne_of_mem (by decide) hmem)
        · refine not_starts_before (t := t) (y := y) (hbefore ▸ hclean) ?_
          rw [hrest, hpart, toList_token, List.append_assoc, List.cons_append]
  subst hy
  rw [List.append_nil] at hsplit
  exact ⟨rfl, (List.append_cancel_right hsplit).symm⟩

/-- **The dotted token of a stage reserves for that stage only**, after any text without the stem. -/
theorem reserves_dotted_iff {before : String} (hclean : ¬ tokenStem.toList <:+: before.toList) :
    u.Reserves (before ++ "." ++ t.token) ↔ u = t := by
  have hname : (before ++ "." ++ t.token).toList = before.toList ++ '.' :: t.token.toList := by
    rw [String.toList_append, String.toList_append, List.append_assoc]
    rfl
  constructor
  · intro h
    rcases h with heq | ⟨x, y, hxy⟩
    · -- the name has a dot before the stem, and a token has none
      have hoccurs : before.toList ++ '.' :: t.token.toList
          = u.name.toList ++ (tokenStem.toList ++ []) := by
        rw [← hname, heq, toList_token, List.append_nil]
      obtain ⟨-, huname⟩ := eq_of_stem_occurs hclean hoccurs
      have hdot : '.' ∈ u.name.toList := huname ▸ List.mem_append_right _ List.mem_cons_self
      exact absurd hdot u.dot_not_mem_name
    · have hoccurs : before.toList ++ '.' :: t.token.toList
          = (x ++ '.' :: u.name.toList) ++ (tokenStem.toList ++ y) := by
        rw [← hname, ← hxy, toList_token]
        simp only [List.append_assoc, List.cons_append]
      obtain ⟨-, hx⟩ := eq_of_stem_occurs hclean hoccurs
      exact eq_of_toList_name_eq (eq_of_append_cons_eq u.dot_not_mem_name t.dot_not_mem_name hx)
  · intro h
    subst h
    exact .inr ⟨before.toList, [], by rw [hname, List.append_nil]⟩

/-- With a stem before the last dot, a name can be reserved for two stages. -/
example : Stage.hs.Reserves ".hs_stage.pagetables.vs_stage.pagetables"
    ∧ Stage.vs.Reserves ".hs_stage.pagetables.vs_stage.pagetables" := by
  decide +kernel

/-- The token of a stage reserves for that stage only. -/
theorem reserves_token_iff : u.Reserves t.token ↔ u = t := by
  cases t <;> cases u <;> decide +kernel

end Stage

/-! ## §2. The one mapping that reserves. -/

/-- The mapping has sections that are reserved for the tables of the stage, one or more. -/
def Mapping.Reserves (m : Mapping) (t : Stage) : Prop :=
  ∃ name ∈ m.sections, t.Reserves name

namespace AddressMap

variable {a : AddressMap} {p p₁ : Platform} {t : Stage} {m n : Mapping} {f : RegionFault}

/-- No mapping reserves for the stage. -/
def Unreserved (a : AddressMap) (p : Platform) (t : Stage) : Prop :=
  ∀ k ∈ a.enabled p, ¬ k.Reserves t

/-- One mapping reserves for the stage, and none before or after it does. -/
def ReservedOnce (a : AddressMap) (p : Platform) (t : Stage) (m : Mapping) : Prop :=
  ∃ before after, a.enabled p = before ++ m :: after ∧ m.Reserves t
    ∧ ∀ k ∈ before ++ after, ¬ k.Reserves t

/-- Two mappings or more reserve for the stage, and these are the first two of them. -/
def ReservedTwice (a : AddressMap) (p : Platform) (t : Stage) (m n : Mapping) : Prop :=
  ∃ before between after, a.enabled p = before ++ m :: (between ++ n :: after)
    ∧ m.Reserves t ∧ n.Reserves t ∧ ∀ k ∈ before ++ between, ¬ k.Reserves t

/-- The mappings of a list that reserve, and where the first of them stands. -/
theorem filter_reserves_eq_cons_iff {ms rest : List Mapping} :
    (ms.filter fun k => ∃ name ∈ k.sections, t.Reserves name) = m :: rest
      ↔ ∃ before after, ms = before ++ m :: after ∧ (∀ k ∈ before, ¬ k.Reserves t)
          ∧ m.Reserves t ∧ (after.filter fun k => ∃ name ∈ k.sections, t.Reserves name) = rest := by
  simp only [List.filter_eq_cons_iff, decide_eq_true_iff]
  rfl

theorem filter_reserves_eq_nil_iff {ms : List Mapping} :
    (ms.filter fun k => ∃ name ∈ k.sections, t.Reserves name) = []
      ↔ ∀ k ∈ ms, ¬ k.Reserves t := by
  simp only [List.filter_eq_nil_iff, decide_eq_true_iff]
  rfl

theorem regions_eq_singleton_iff : a.regions p t = [m] ↔ a.ReservedOnce p t m := by
  unfold regions
  rw [filter_reserves_eq_cons_iff]
  refine exists_congr fun before => exists_congr fun after => and_congr_right fun _ => ?_
  rw [filter_reserves_eq_nil_iff, List.forall_mem_append, and_left_comm]

theorem exists_regions_iff :
    (∃ rest, a.regions p t = m :: n :: rest) ↔ a.ReservedTwice p t m n := by
  unfold regions
  constructor
  · intro h
    obtain ⟨rest, h⟩ := h
    obtain ⟨before, after, henabled, hbefore, hm, h⟩ := filter_reserves_eq_cons_iff.mp h
    obtain ⟨between, after', rfl, hbetween, hn, -⟩ := filter_reserves_eq_cons_iff.mp h
    exact ⟨before, between, after', henabled, hm, hn,
      List.forall_mem_append.mpr ⟨hbefore, hbetween⟩⟩
  · intro h
    obtain ⟨before, between, after, henabled, hm, hn, hnone⟩ := h
    obtain ⟨hbefore, hbetween⟩ := List.forall_mem_append.mp hnone
    exact ⟨_, filter_reserves_eq_cons_iff.mpr ⟨before, _, henabled, hbefore, hm,
      filter_reserves_eq_cons_iff.mpr ⟨between, after, rfl, hbetween, hn, rfl⟩⟩⟩

/-- A mapping is selected if it is the one that reserves. -/
theorem region_eq_ok_iff_once : a.region p t = .ok m ↔ a.ReservedOnce p t m := by
  rw [region_eq_ok_iff, regions_eq_singleton_iff]

/-- No mapping is selected if none reserves, or two. -/
theorem region_eq_error_iff :
    a.region p t = .error f ↔ (a.Unreserved p t ∧ f = .unreserved t)
      ∨ ∃ m n, a.ReservedTwice p t m n ∧ f = .reservedTwice t m.text n.text := by
  have hnil : a.regions p t = [] ↔ a.Unreserved p t := filter_reserves_eq_nil_iff
  simp only [← hnil, ← exists_regions_iff]
  unfold region
  split
  next h => simp [h, eq_comm]
  next m h => simp [h]
  next m n rest h => simp [h, eq_comm]

end AddressMap

/-! ## §3. How building fails for want of a region. -/

/-- The fault is that there is not exactly one region for the stage. -/
inductive RegionFault.NotOne (t : Stage) : RegionFault → Prop where
  /-- There is none. -/
  | unreserved : NotOne t (.unreserved t)
  /-- There are two. -/
  | reservedTwice (first second : String) : NotOne t (.reservedTwice t first second)

theorem Mapping.Unfit.not_notOne {m : Mapping} {t : Stage} {mode : Mode} {pages : Nat}
    {f : RegionFault} (h : m.Unfit t mode pages f) : ¬ f.NotOne t := by
  cases h <;> exact nofun

namespace StageTables

open AddressMap (collect Admissible)

variable {a : AddressMap} {p p₁ : Platform} {t : Stage} {m n : Mapping} {f : RegionFault}
  {pages : Nat}

/-- Building is refused for the region if none is selected or if it is unfit. -/
theorem ofMap_unusable_iff (ha : a.AcceptedOn p₁) (henabled : p.enables t)
    (hpaged : (p.mode t).isPaged) :
    (ofMap a p t pages).outcome = .error (.refused (.unusableRegion f))
      ↔ a.region p t = .error f ∨ ∃ m, a.region p t = .ok m ∧ m.Unfit t (p.mode t) pages f := by
  rw [← tableBase_eq_error_iff hpaged, ← startTables_unusable_iff henabled]
  constructor
  · intro h
    -- what follows the start fails for other reasons
    cases ofMap_failsOnly ha p t pages _ h with
    | start h => exact h
  · exact ofMap_of_startTables

/-- Tables start where a region that is not unfit lies. -/
theorem startTables_of_fit (henabled : p.enables t) (hpaged : (p.mode t).isPaged)
    (hregion : a.region p t = .ok m) (hfit : ∀ f, ¬ m.Unfit t (p.mode t) pages f) :
    a.startTables p t pages = .ok (start t (p.mode t) m.block.dest) := by
  have hbudget : pages * budgetPageBytes ≤ m.block.bytes :=
    Nat.le_of_not_lt fun hsmall => hfit _ (.small hsmall)
  have haligned : m.block.dest.toNat % (p.mode t).tableBytes 0 = 0 := by
    by_contra hroot
    exact hfit _ (.misaligned hbudget hroot)
  exact startTables_eq_ok_iff.mpr ⟨henabled, hpaged, m, hregion, hbudget, haligned, rfl⟩

/-! ## §4. Selection. -/

/-- **ONE REGION FOR EACH STAGE**: where a stage has tables, building them gets past the selection of
their region if and only if exactly one mapping of the stages that exist reserves for it.  Then the
region is refused only if it is unfit, and tables start where it lies.  If no mapping reserves or two
do, that is what building is refused for.  And the token of a stage reserves for no other one,
neither alone nor with a dot between it and a text without the stem of tokens. -/
theorem ofMap_selects (ha : a.AcceptedOn p₁) (henabled : p.enables t)
    (hpaged : (p.mode t).isPaged) (pages : Nat) :
    ((∀ f, f.NotOne t → (ofMap a p t pages).outcome ≠ .error (.refused (.unusableRegion f)))
        ↔ ∃ m, a.ReservedOnce p t m)
      ∧ (∀ m, a.ReservedOnce p t m →
          (∀ f, (ofMap a p t pages).outcome = .error (.refused (.unusableRegion f))
              ↔ m.Unfit t (p.mode t) pages f)
            ∧ ((∀ f, ¬ m.Unfit t (p.mode t) pages f) →
                a.startTables p t pages = .ok (start t (p.mode t) m.block.dest))
            ∧ ∀ x, (ofMap a p t pages).outcome = .ok x → x.base = m.block.dest)
      ∧ (a.Unreserved p t → (ofMap a p t pages).outcome
          = .error (.refused (.unusableRegion (.unreserved t))))
      ∧ (∀ m n, a.ReservedTwice p t m n → (ofMap a p t pages).outcome
          = .error (.refused (.unusableRegion (.reservedTwice t m.text n.text))))
      ∧ ∀ u v : Stage, (u.Reserves v.token ↔ u = v)
          ∧ ∀ before : String, ¬ Stage.tokenStem.toList <:+: before.toList →
              (u.Reserves (before ++ "." ++ v.token) ↔ u = v) := by
  have hunusable : ∀ f, (ofMap a p t pages).outcome = .error (.refused (.unusableRegion f))
      ↔ a.region p t = .error f ∨ ∃ m, a.region p t = .ok m ∧ m.Unfit t (p.mode t) pages f :=
    fun f => ofMap_unusable_iff ha henabled hpaged
  have hnone : a.Unreserved p t → (ofMap a p t pages).outcome
      = .error (.refused (.unusableRegion (.unreserved t))) := fun h =>
    (hunusable _).mpr (.inl (AddressMap.region_eq_error_iff.mpr (.inl ⟨h, rfl⟩)))
  have htwice : ∀ m n, a.ReservedTwice p t m n → (ofMap a p t pages).outcome
      = .error (.refused (.unusableRegion (.reservedTwice t m.text n.text))) := fun m n h =>
    (hunusable _).mpr (.inl (AddressMap.region_eq_error_iff.mpr (.inr ⟨m, n, h, rfl⟩)))
  have hunfit : ∀ m, a.ReservedOnce p t m → ∀ f,
      (ofMap a p t pages).outcome = .error (.refused (.unusableRegion f))
        ↔ m.Unfit t (p.mode t) pages f := by
    intro m hm f
    have hregion := AddressMap.region_eq_ok_iff_once.mpr hm
    simp only [hunusable, hregion, reduceCtorEq, Except.ok.injEq, false_or, exists_eq_left']
  refine ⟨⟨fun hpast => ?_, fun hgiven f hf hfail => ?_⟩,
    fun m hm => ⟨hunfit m hm, fun hfit => ?_, fun x hx => ?_⟩, hnone, htwice,
    fun u v => ⟨Stage.reserves_token_iff, fun before => Stage.reserves_dotted_iff⟩⟩
  · cases hregion : a.region p t with
    | ok m => exact ⟨m, AddressMap.region_eq_ok_iff_once.mp hregion⟩
    | error f =>
      rcases AddressMap.region_eq_error_iff.mp hregion with ⟨h, rfl⟩ | ⟨m, n, h, rfl⟩
      · exact absurd (hnone h) (hpast _ .unreserved)
      · exact absurd (htwice m n h) (hpast _ (.reservedTwice _ _))
  · obtain ⟨m, hm⟩ := hgiven
    exact ((hunfit m hm f).mp hfail).not_notOne hf
  · exact startTables_of_fit henabled hpaged (AddressMap.region_eq_ok_iff_once.mpr hm) hfit
  · obtain ⟨k, hk, hbase, -⟩ := (built_of_ofMap hx).region
    obtain rfl := Except.ok.inj (hk.symm.trans (AddressMap.region_eq_ok_iff_once.mpr hm))
    exact hbase

/-- An image in which only the guest has memory for its tables. -/
def guestImage : List (Stage × List Mapping) :=
  [(.hs, [hostCode]), (.vs, [guestData, tableRoom 0x90000000 .vs])]

/-- An image in which both partitions declare one and the same memory for the hypervisor's tables. -/
def doubleImage : List (Stage × List Mapping) :=
  [(.hs, [hostCode, tableRoom 0x90000000 .hs]), (.vs, [tableRoom 0x90000000 .hs])]

theorem guestImage_accepted : (collect guestImage).AcceptedOn hostAndGuest :=
  ⟨_, Admissible.outcome_eq (by decide +kernel)⟩

theorem doubleImage_accepted : (collect doubleImage).AcceptedOn hostAndGuest :=
  ⟨_, Admissible.outcome_eq (by decide +kernel)⟩

/-- The guest's tables start in the region that the joint image has for them.  The hypervisor has no
region where only the guest has one, though the name of that is alike, and it has one too many where
two partitions declare the same. -/
theorem hostAndGuest_selects :
    (∃ x, (ofMap (collect jointImage) hostAndGuest .vs 4).outcome = .ok x ∧ x.base = 0x90004000)
      ∧ (ofMap (collect guestImage) hostAndGuest .hs 4).outcome
          = .error (.refused (.unusableRegion (.unreserved .hs)))
      ∧ (ofMap (collect doubleImage) hostAndGuest .hs 4).outcome
          = .error (.refused (.unusableRegion (.reservedTwice .hs
              (tableRoom 0x90000000 .hs).text (tableRoom 0x90000000 .hs).text)))
      ∧ ¬ Stage.s.Reserves (".rodata" ++ "." ++ Stage.vs.token) := by
  have hrun : ((ofMap (collect jointImage) hostAndGuest .vs 4).outcome.toOption.any
      fun x => decide (x.used = 0x3000)) = true := by
    decide +kernel
  have hjoint : (collect jointImage).regions hostAndGuest .vs = [tableRoom 0x90004000 .vs] := by
    decide +kernel
  have hguest : (collect guestImage).regions hostAndGuest .hs = [] := by
    decide +kernel
  have hdouble : (collect doubleImage).regions hostAndGuest .hs
      = [tableRoom 0x90000000 .hs, tableRoom 0x90000000 .hs] := by
    decide +kernel
  obtain ⟨x, hx, -⟩ := exists_ok_of_any hrun
  obtain ⟨-, hsole, -, -, hnames⟩ := ofMap_selects jointImage_accepted
    (show hostAndGuest.enables .vs by decide) (by decide) 4
  obtain ⟨-, -, hnone, -⟩ := ofMap_selects guestImage_accepted
    (show hostAndGuest.enables .hs by decide) (by decide) 4
  obtain ⟨-, -, -, htwice, -⟩ := ofMap_selects doubleImage_accepted
    (show hostAndGuest.enables .hs by decide) (by decide) 4
  have honce := AddressMap.regions_eq_singleton_iff.mp hjoint
  refine ⟨⟨x, hx, (hsole _ honce).2.2 x hx⟩, ?_, ?_, ?_⟩
  · exact hnone (AddressMap.filter_reserves_eq_nil_iff.mp hguest)
  · exact htwice _ _ (AddressMap.exists_regions_iff.mp ⟨[], hdouble⟩)
  · rw [(hnames .s .vs).2 ".rodata" (by decide)]
    exact nofun

end StageTables

end FirmwareMap
