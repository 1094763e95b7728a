/-
  FirmwareMap.Proofs.Record.Acceptance
  ────────────────────────────────────
  **WHICH RECORDS DESCRIBE A MAPPING, AND WHICH MAPPING.**

  A record has one of three shapes, told by the addresses that it gives and by
  the stage, declared or not:

      translated t, aliased t   the two addresses of the stage, and permissions
      direct kind               one address other than a virtual one

  Each shape asks for some fields and rules out others.  No record fits two of
  them, although the stage that is not declared is looked for one after the
  other: the stages of one platform differ in their addresses.  A record is
  accepted exactly if it is well spelled, fits a shape, and the mapping with
  what it says fits the platform.
-/
import FirmwareMap.Mapping.Shape
import FirmwareMap.Proofs.Record.Spelling
import Mathlib.Data.List.Nodup

namespace FirmwareMap

/-! ## §1. Stages and permissions. -/

/-- The stages of one platform are known by their addresses, whichever is source or destination. -/
theorem Platform.eq_of_addresses {p : Platform} {t u : Stage} (ht : p.enables t) (hu : p.enables u)
    (hsource : u.source = t.source ∨ u.source = t.dest)
    (hdest : u.dest = t.source ∨ u.dest = t.dest) : t = u := by
  unfold Platform.enables at ht hu
  rw [decide_eq_true_iff] at ht hu
  have hvirtual : t.isVirtual = u.isVirtual := ht.trans hu.symm
  revert hvirtual hsource hdest
  cases t <;> cases u <;> decide

/-- The permissions of leaves are five. -/
theorem Permissions.bits_mem (q : Permissions) : q.bits ∈ [1, 3, 4, 5, 7] := by
  cases q <;> decide

namespace Record

variable {p : Platform} {r : Record} {t : Stage} {page : PageSize} {count : Word} {m : Mapping}

/-! ## §2. What the parts of reading a record succeed with. -/

theorem foreignAddress?_eq_none_iff :
    r.foreignAddress? t = none
      ↔ ∀ kind, (r.address? kind).isSome → kind = t.source ∨ kind = t.dest := by
  unfold foreignAddress?
  rw [List.find?_eq_none]
  constructor
  · intro h kind hkind
    have hnone := h kind kind.mem_all
    simp only [hkind, Bool.true_and, Bool.and_eq_true, decide_eq_true_eq, ne_eq, not_and,
      Decidable.not_not] at hnone
    by_cases hsource : kind = t.source
    · exact .inl hsource
    · exact .inr (hnone hsource)
  · intro h kind _ hfound
    simp only [Bool.and_eq_true, decide_eq_true_eq, ne_eq] at hfound
    obtain ⟨⟨hkind, hsource⟩, hdest⟩ := hfound
    rcases h kind hkind with heq | heq
    · exact hsource heq
    · exact hdest heq

theorem permissions_eq_ok_iff {permissions : Permissions} :
    r.permissions = .ok permissions
      ↔ ∃ xwr, r.field? .permissions = some xwr ∧ permissions.bits = xwr.toNat := by
  unfold Record.permissions
  rw [bind_eq_ok_iff]
  simp only [demand_eq_ok_iff, Permissions.ofBits?_eq_some_iff]

/-- How a stage sees what the record describes. -/
def viewOf (r : Record) (t : Stage) (source : Word) (permissions : Permissions) : View where
  stage := t
  source
  permissions
  user := (r.field? .user).getD false
  valid := (r.field? .valid).getD true
  pbmt := r.field? .pbmt

/-- A record that says it is an alias may not have sections or a memory type. -/
theorem aliased_or_translated_eq_ok_iff {v : View} {b : Block} :
    (if (r.field? .isAlias).getD false then do
        require (r.field? .sections = none) .aliasWithSections
        require (r.field? .memoryType = none) .aliasWithMemoryType
        return .aliased v b
      else
        return .translated v b (r.field? .memoryType) ((r.field? .sections).getD []) :
        Except RecordFault Mapping) = .ok m
      ↔ (r.field? .isAlias = some true ∧ r.field? .sections = none ∧ r.field? .memoryType = none
          ∧ m = .aliased v b)
        ∨ (r.field? .isAlias ≠ some true
          ∧ m = .translated v b (r.field? .memoryType) ((r.field? .sections).getD [])) := by
  have halias : (r.field? .isAlias).getD false = true ↔ r.field? .isAlias = some true := by
    cases r.field? .isAlias <;> simp
  by_cases h : r.field? .isAlias = some true
  · rw [if_pos (halias.mpr h), require_bind_eq_ok_iff, require_bind_eq_ok_iff]
    show _ ∧ _ ∧ Except.ok _ = Except.ok m ↔ _
    rw [Except.ok.injEq, eq_comm (b := m)]
    simp [h]
  · rw [if_neg (mt halias.mp h)]
    show Except.ok _ = Except.ok m ↔ _
    rw [Except.ok.injEq, eq_comm (b := m)]
    simp [h]

/-- A view is refused only for what it asks. -/
theorem viewed_eq_ok_iff :
    r.viewed t page count = .ok m
      ↔ ∃ source dest permissions, r.address? t.source = some source
        ∧ r.address? t.dest = some dest
        ∧ (∀ kind, (r.address? kind).isSome → kind = t.source ∨ kind = t.dest)
        ∧ r.field? .noEntries ≠ some true ∧ r.permissions = .ok permissions
        ∧ page.Aligned dest ∧ page.Aligned source
        ∧ ((r.field? .isAlias = some true ∧ r.field? .sections = none
            ∧ r.field? .memoryType = none
            ∧ m = .aliased (r.viewOf t source permissions) ⟨dest, page, count⟩)
          ∨ (r.field? .isAlias ≠ some true
            ∧ m = .translated (r.viewOf t source permissions) ⟨dest, page, count⟩
                (r.field? .memoryType) ((r.field? .sections).getD []))) := by
  rw [← foreignAddress?_eq_none_iff]
  unfold viewed
  simp only [bind_eq_ok_iff (x := demand _ _), demand_eq_ok_iff]
  cases r.foreignAddress? t with
  | some kind =>
    constructor
    · intro h
      obtain ⟨_, -, _, -, h⟩ := h
      cases h
    · intro h
      obtain ⟨_, _, _, -, -, hnone, -⟩ := h
      cases hnone
  | none =>
    simp only [Mapping.requireAligned, require_bind_eq_ok_iff, bind_eq_ok_iff (x := r.permissions)]
    constructor
    · intro h
      obtain ⟨source, hsource, dest, hdest, hentries, permissions, hallowed, hd, hs, htail⟩ := h
      exact ⟨source, dest, permissions, hsource, hdest, trivial, hentries, hallowed, hd, hs,
        aliased_or_translated_eq_ok_iff.mp htail⟩
    · intro h
      obtain ⟨source, dest, permissions, hsource, hdest, -, hentries, hallowed, hd, hs, htail⟩ := h
      exact ⟨source, hsource, dest, hdest, hentries, permissions, hallowed, hd, hs,
        aliased_or_translated_eq_ok_iff.mpr htail⟩

/-! ## §3. Direct mappings, and all mappings. -/

/-- A list of kinds has one address if only one of the kinds has. -/
theorem filterMap_eq_singleton_iff {f : AddressKind → Option Word} {kind : AddressKind} {a : Word}
    {kinds : List AddressKind} (h : kinds.Nodup) :
    kinds.filterMap (fun k => (f k).map (k, ·)) = [(kind, a)]
      ↔ kind ∈ kinds ∧ f kind = some a ∧ ∀ k ∈ kinds, (f k).isSome → k = kind := by
  have hmem : ∀ k b, (k, b) ∈ kinds.filterMap (fun k => (f k).map (k, ·))
      ↔ k ∈ kinds ∧ f k = some b := by
    simp
  -- each kind comes with itself, so none comes twice
  have hnodup : (kinds.filterMap fun k => (f k).map (k, ·)).Nodup := by
    refine h.filterMap fun k k' q hq hq' => ?_
    obtain ⟨_, -, rfl⟩ := Option.map_eq_some_iff.mp hq
    obtain ⟨_, -, heq⟩ := Option.map_eq_some_iff.mp hq'
    exact (congrArg Prod.fst heq).symm
  rw [← List.perm_singleton, List.perm_ext_iff_of_nodup hnodup (List.nodup_singleton _)]
  simp only [Prod.forall, hmem, List.mem_singleton, Prod.mk.injEq]
  constructor
  · intro hsame
    obtain ⟨hkind, ha⟩ := (hsame kind a).mpr ⟨rfl, rfl⟩
    refine ⟨hkind, ha, fun k hk hsome => ?_⟩
    obtain ⟨b, hb⟩ := Option.isSome_iff_exists.mp hsome
    exact ((hsame k b).mp ⟨hk, hb⟩).1
  · intro hgiven k b
    obtain ⟨hkind, ha, honly⟩ := hgiven
    constructor
    · intro hb
      obtain rfl := honly k hb.1 (Option.isSome_of_mem hb.2)
      exact ⟨rfl, Option.some.inj (hb.2.symm.trans ha)⟩
    · intro heq
      obtain ⟨rfl, rfl⟩ := heq
      exact ⟨hkind, ha⟩

theorem onlyDest_eq_ok_iff {kind : AddressKind} {a : Word} :
    r.onlyDest = .ok (kind, a)
      ↔ r.address? kind = some a ∧ ∀ k, (r.address? k).isSome → k = kind := by
  have hlist : r.onlyDest = .ok (kind, a)
      ↔ AddressKind.all.filterMap (fun k => (r.address? k).map (k, ·)) = [(kind, a)] := by
    unfold onlyDest
    split
    next h => simp [h, throw, throwThe, MonadExceptOf.throw]
    next dest h => simp [h, pure, Except.pure]
    next h => simp [h, throw, throwThe, MonadExceptOf.throw]
  rw [hlist, filterMap_eq_singleton_iff (by decide)]
  simp [AddressKind.mem_all]

/-- A direct mapping is refused only for what it asks. -/
theorem untranslated_eq_ok_iff :
    r.untranslated page count = .ok m
      ↔ r.address? .va = none ∧ (∀ f ∈ entryFields, r.field? f = none)
        ∧ r.field? .noEntries ≠ some false
        ∧ ∃ kind dest, r.address? kind = some dest
          ∧ (∀ k, (r.address? k).isSome → k = kind) ∧ page.Aligned dest
          ∧ m = .direct kind ⟨dest, page, count⟩ (r.field? .memoryType)
              ((r.field? .sections).getD []) := by
  unfold untranslated
  rw [require_bind_eq_ok_iff]
  refine and_congr_right fun _ => ?_
  have hfind : entryFields.find? (fun f => (r.field? f).isSome) = none
      ↔ ∀ f ∈ entryFields, r.field? f = none := by
    simp [List.find?_eq_none]
  rw [← hfind]
  cases entryFields.find? fun f => (r.field? f).isSome with
  | some f =>
    constructor
    · intro h
      cases h
    · intro h
      cases h.1
  | none =>
    simp only [Mapping.requireAligned, require_bind_eq_ok_iff, bind_eq_ok_iff (x := r.onlyDest),
      Prod.exists, onlyDest_eq_ok_iff, pure, Except.pure, Except.ok.injEq, eq_comm (b := m),
      and_assoc, true_and]

/-- A shape is that of the stage, or of none. -/
theorem shape_eq_ok_iff :
    r.shape p = .ok m
      ↔ ∃ page count, r.field? .pageSize = some page ∧ r.field? .pageCount = some count
        ∧ 1 ≤ count.toNat
        ∧ ((∃ t, r.stage? p = .ok (some t) ∧ r.viewed t page count = .ok m)
          ∨ (r.stage? p = .ok none ∧ r.untranslated page count = .ok m)) := by
  have hpos : ∀ count : Word, count ≠ 0 ↔ 1 ≤ count.toNat := fun count => by
    rw [Ne, ← UInt64.toNat_inj, UInt64.toNat_zero]
    omega
  unfold shape
  simp only [bind_eq_ok_iff (x := demand _ _), demand_eq_ok_iff, require_bind_eq_ok_iff, hpos,
    bind_eq_ok_iff (x := r.stage? p)]
  constructor
  · intro h
    obtain ⟨page, hpage, count, hcount, hle, o, ho, hm⟩ := h
    cases o with
    | none => exact ⟨page, count, hpage, hcount, hle, .inr ⟨ho, hm⟩⟩
    | some t => exact ⟨page, count, hpage, hcount, hle, .inl ⟨t, ho, hm⟩⟩
  · intro h
    obtain ⟨page, count, hpage, hcount, hle, ⟨t, ht, hm⟩ | ⟨hnone, hm⟩⟩ := h
    · exact ⟨page, hpage, count, hcount, hle, some t, ht, hm⟩
    · exact ⟨page, hpage, count, hcount, hle, none, hnone, hm⟩

/-! ## §4. Shapes. -/

/-- The record gives an address of the kind. -/
def Gives (r : Record) (kind : AddressKind) : Prop :=
  ¬ r.Lacks (.address kind)

/-- All addresses that the record gives can start a page of its size. -/
def Paged (r : Record) : Prop :=
  ∀ kind a page, r.Says (.address kind) a → r.Says .pageSize page → page.Aligned a

/-- The stage exists, and the record declares it, or declares none and gives its two addresses. -/
def HasStage (p : Platform) (r : Record) (t : Stage) : Prop :=
  p.enables t ∧ (r.Says .stage t ∨ (r.Lacks .stage ∧ r.Gives t.source ∧ r.Gives t.dest))

/-- No stage sees what the record describes. -/
def HasNoStage (p : Platform) (r : Record) : Prop :=
  r.Lacks .stage ∧ ∀ t, p.enables t → ¬ (r.Gives t.source ∧ r.Gives t.dest)

/-- What a record is that describes a view of a stage. -/
structure FitsView (p : Platform) (r : Record) (t : Stage) : Prop where
  /-- The stage is that of the record. -/
  stage : r.HasStage p t
  /-- The addresses are the two of the stage. -/
  addresses : ∀ kind, r.Gives kind ↔ kind = t.source ∨ kind = t.dest
  /-- The permissions are those of a leaf. -/
  permissions : ∃ xwr, r.Says .permissions xwr ∧ xwr.toNat ∈ [1, 3, 4, 5, 7]
  /-- Nothing says that there are no entries. -/
  entries : ¬ r.Says .noEntries true
  /-- Both addresses are those of pages. -/
  paged : r.Paged

/-- What a record is that describes a block which no stage sees. -/
structure FitsDirect (p : Platform) (r : Record) (kind : AddressKind) : Prop where
  /-- There is no stage. -/
  stage : r.HasNoStage p
  /-- There is one address. -/
  address : ∀ k, r.Gives k ↔ k = kind
  /-- It is not a virtual one. -/
  not_va : kind ≠ .va
  /-- Nothing is said about entries. -/
  lacks : ∀ f ∈ [Field.permissions, .user, .isAlias, .pbmt, .valid], r.Lacks f
  /-- Nothing says that there are entries. -/
  entries : ¬ r.Says .noEntries false
  /-- The address is that of a page. -/
  paged : r.Paged

/-- The three shapes of a record. -/
inductive Shape where
  /-- A block with the view of a stage. -/
  | translated (t : Stage)
  /-- A further view. -/
  | aliased (t : Stage)
  /-- A block that no stage sees. -/
  | direct (kind : AddressKind)
  deriving DecidableEq, Repr

/-- The record has the shape. -/
def Fits (p : Platform) (r : Record) : Shape → Prop
  | .translated t => r.FitsView p t ∧ ¬ r.Says .isAlias true
  | .aliased t =>
    r.FitsView p t ∧ r.Says .isAlias true ∧ r.Lacks .sections ∧ r.Lacks .memoryType
  | .direct kind => r.FitsDirect p kind

/-! ## §5. What a mapping has from a record. -/

/-- The block is the one that the record describes. -/
structure CarriesBlock (r : Record) (kind : AddressKind) (b : Block) : Prop where
  dest : r.Says (.address kind) b.dest
  page : r.Says .pageSize b.page
  count : r.Says .pageCount b.count

/-- The view is the one that the record describes. -/
structure CarriesView (r : Record) (t : Stage) (v : View) : Prop where
  stage : v.stage = t
  source : r.Says (.address t.source) v.source
  permissions : ∃ xwr, r.Says .permissions xwr ∧ v.permissions.bits = xwr.toNat
  user : r.Reads .user false v.user
  valid : r.Reads .valid true v.valid
  pbmt : r.MayRead .pbmt v.pbmt

/-- The mapping has all that the record says, and nothing else. -/
inductive Carries (r : Record) : Shape → Mapping → Prop where
  | translated {t : Stage} {v : View} {b : Block} {ty : Option MemoryType} {names : List String}
    (view : r.CarriesView t v) (block : r.CarriesBlock t.dest b)
    (memoryType : r.MayRead .memoryType ty) (sections : r.Reads .sections [] names) :
    Carries r (.translated t) (.translated v b ty names)
  | aliased {t : Stage} {v : View} {b : Block} (view : r.CarriesView t v)
    (block : r.CarriesBlock t.dest b) : Carries r (.aliased t) (.aliased v b)
  | direct {kind : AddressKind} {b : Block} {ty : Option MemoryType} {names : List String}
    (block : r.CarriesBlock kind b) (memoryType : r.MayRead .memoryType ty)
    (sections : r.Reads .sections [] names) :
    Carries r (.direct kind) (.direct kind b ty names)

/-! ## §6. One shape, one mapping. -/

theorem FitsView.gives (h : r.FitsView p t) : r.Gives t.source ∧ r.Gives t.dest :=
  ⟨(h.addresses _).mpr (.inl rfl), (h.addresses _).mpr (.inr rfl)⟩

/-- A record describes views of one stage. -/
theorem FitsView.unique {u : Stage} (h : r.FitsView p t) (h' : r.FitsView p u) : t = u := by
  obtain ⟨ht, hstage⟩ := h.stage
  obtain ⟨hu, -⟩ := h'.stage
  obtain ⟨hsource, hdest⟩ := h'.gives
  exact Platform.eq_of_addresses ht hu ((h.addresses _).mp hsource) ((h.addresses _).mp hdest)

theorem FitsView.not_direct {kind : AddressKind} (h : r.FitsView p t) : ¬ r.FitsDirect p kind := by
  intro hdirect
  exact hdirect.stage.2 t h.stage.1 h.gives

/-- **No record has two shapes.** -/
theorem Fits.unique {σ τ : Shape} (h : r.Fits p σ) (h' : r.Fits p τ) : σ = τ := by
  cases σ with
  | translated t =>
    cases τ with
    | translated u => rw [h.1.unique h'.1]
    | aliased u => exact absurd h'.2.1 h.2
    | direct kind => exact absurd h' h.1.not_direct
  | aliased t =>
    cases τ with
    | translated u => exact absurd h.2.1 h'.2
    | aliased u => rw [h.1.unique h'.1]
    | direct kind => exact absurd h' h.1.not_direct
  | direct kind =>
    cases τ with
    | translated u => exact absurd h h'.1.not_direct
    | aliased u => exact absurd h h'.1.not_direct
    | direct k => rw [(h'.address kind).mp ((h.address kind).mpr rfl)]

theorem CarriesBlock.unique {kind : AddressKind} {b c : Block} (h : r.CarriesBlock kind b)
    (h' : r.CarriesBlock kind c) : b = c := by
  obtain ⟨dest, page, count⟩ := b
  obtain ⟨dest', page', count'⟩ := c
  have hdest : dest = dest' := h.dest.unique h'.dest
  have hpage : page = page' := h.page.unique h'.page
  have hcount : count = count' := h.count.unique h'.count
  rw [hdest, hpage, hcount]

theorem CarriesView.unique {v w : View} (h : r.CarriesView t v) (h' : r.CarriesView t w) :
    v = w := by
  obtain ⟨xwr, hxwr, hbits⟩ := h.permissions
  obtain ⟨xwr', hxwr', hbits'⟩ := h'.permissions
  obtain rfl := hxwr.unique hxwr'
  obtain ⟨stage, source, permissions, user, valid, pbmt⟩ := v
  obtain ⟨stage', source', permissions', user', valid', pbmt'⟩ := w
  have hstage : stage = stage' := h.stage.trans h'.stage.symm
  have hsource : source = source' := h.source.unique h'.source
  have hpermissions : permissions = permissions' := Option.some.inj
    ((Permissions.ofBits?_eq_some_iff.mpr hbits).symm.trans
      (Permissions.ofBits?_eq_some_iff.mpr hbits'))
  have huser : user = user' := h.user.unique h'.user
  have hvalid : valid = valid' := h.valid.unique h'.valid
  have hpbmt : pbmt = pbmt' := h.pbmt.unique h'.pbmt
  rw [hstage, hsource, hpermissions, huser, hvalid, hpbmt]

/-- **A record of some shape describes one mapping.** -/
theorem Carries.unique {σ : Shape} {n : Mapping} (h : r.Carries σ m) (h' : r.Carries σ n) :
    m = n := by
  cases h with
  | translated hv hb hty hnames =>
    cases h' with
    | translated hv' hb' hty' hnames' =>
      rw [hv.unique hv', hb.unique hb', hty.unique hty', hnames.unique hnames']
  | aliased hv hb =>
    cases h' with
    | aliased hv' hb' => rw [hv.unique hv', hb.unique hb']
  | direct hb hty hnames =>
    cases h' with
    | direct hb' hty' hnames' => rw [hb.unique hb', hty.unique hty', hnames.unique hnames']

/-! ## §7. What reading a record gives. -/

/-- A well-spelled record gives the addresses that are read from it. -/
theorem WellSpelled.isSome_address? (h : r.WellSpelled) (kind : AddressKind) :
    (r.address? kind).isSome = true ↔ r.Gives kind :=
  h.isSome_field?

theorem Says.gives {kind : AddressKind} {a : Word} (h : r.Says (.address kind) a) :
    r.Gives kind := by
  intro hlacks
  exact hlacks.not_says a h

theorem WellSpelled.inferredStage?_eq_none_iff (h : r.WellSpelled) :
    r.inferredStage? p = none ↔ ∀ t, p.enables t → ¬ (r.Gives t.source ∧ r.Gives t.dest) := by
  unfold inferredStage?
  rw [List.find?_eq_none]
  simp only [Platform.mem_stages, Bool.and_eq_true, h.isSome_address?]

theorem WellSpelled.gives_of_inferredStage? (h : r.WellSpelled)
    (ht : r.inferredStage? p = some t) :
    p.enables t ∧ r.Gives t.source ∧ r.Gives t.dest := by
  unfold inferredStage? at ht
  have hfound := List.find?_some ht
  rw [Bool.and_eq_true, h.isSome_address?, h.isSome_address?] at hfound
  exact ⟨Platform.mem_stages.mp (List.mem_of_find?_eq_some ht), hfound⟩

theorem Says.stage?_eq_ok_iff {o : Option Stage} (h : r.Says .stage t) :
    r.stage? p = .ok o ↔ p.enables t ∧ o = some t := by
  unfold stage?
  rw [field?_eq_some_iff.mpr h]
  show (require (p.enables t = true) _ >>= fun _ => _) = _ ↔ _
  rw [require_bind_eq_ok_iff]
  show _ ∧ Except.ok (some t) = Except.ok o ↔ _
  rw [Except.ok.injEq, eq_comm (b := o)]

theorem WellSpelled.stage?_of_lacks (h : r.WellSpelled) (hstage : r.Lacks .stage) :
    r.stage? p = .ok (r.inferredStage? p) := by
  unfold stage?
  rw [h.field?_eq_none_iff.mpr hstage]
  rfl

/-- The stage that is found is that of the record. -/
theorem WellSpelled.hasStage (h : r.WellSpelled) (ht : r.stage? p = .ok (some t)) :
    r.HasStage p t := by
  by_cases hstage : r.Lacks .stage
  · rw [h.stage?_of_lacks hstage, Except.ok.injEq] at ht
    obtain ⟨henabled, hgives⟩ := h.gives_of_inferredStage? ht
    exact ⟨henabled, .inr ⟨hstage, hgives⟩⟩
  · obtain ⟨u, hu⟩ := h.exists_says hstage
    obtain ⟨henabled, heq⟩ := hu.stage?_eq_ok_iff.mp ht
    obtain rfl := Option.some.inj heq
    exact ⟨henabled, .inl hu⟩

theorem WellSpelled.hasNoStage_iff (h : r.WellSpelled) :
    r.stage? p = .ok none ↔ r.HasNoStage p := by
  by_cases hstage : r.Lacks .stage
  · rw [h.stage?_of_lacks hstage, Except.ok.injEq, h.inferredStage?_eq_none_iff]
    exact (and_iff_right hstage).symm
  · obtain ⟨u, hu⟩ := h.exists_says hstage
    rw [hu.stage?_eq_ok_iff]
    constructor
    · intro hgiven
      cases hgiven.2
    · intro hgiven
      exact absurd hgiven.1 hstage

/-- A record that fits a view has the stage of the view, whichever stage is looked for first. -/
theorem WellSpelled.stage?_of_fitsView (h : r.WellSpelled) (hfits : r.FitsView p t) :
    r.stage? p = .ok (some t) := by
  obtain ⟨henabled, hstage⟩ := hfits.stage
  rcases hstage with hsays | ⟨hlacks, hgives⟩
  · exact (Says.stage?_eq_ok_iff hsays).mpr ⟨henabled, rfl⟩
  · rw [h.stage?_of_lacks hlacks]
    cases hfound : r.inferredStage? p with
    | none => exact absurd hgives (h.inferredStage?_eq_none_iff.mp hfound t henabled)
    | some u =>
      -- another stage would have the same two addresses
      obtain ⟨henabled', hsource, hdest⟩ := h.gives_of_inferredStage? hfound
      rw [Platform.eq_of_addresses henabled henabled' ((hfits.addresses _).mp hsource)
        ((hfits.addresses _).mp hdest)]

/-! ## §8. Views. -/

theorem WellSpelled.carriesView_iff (h : r.WellSpelled) {v : View} :
    r.CarriesView t v
      ↔ r.Says (.address t.source) v.source ∧ r.permissions = .ok v.permissions
        ∧ v = r.viewOf t v.source v.permissions := by
  have hpermissions : r.permissions = .ok v.permissions
      ↔ ∃ xwr, r.Says .permissions xwr ∧ v.permissions.bits = xwr.toNat := by
    rw [permissions_eq_ok_iff]
    exact exists_congr fun xwr => and_congr_left fun _ => field?_eq_some_iff
  rw [hpermissions]
  constructor
  · intro hv
    refine ⟨hv.source, hv.permissions, ?_⟩
    obtain ⟨stage, source, permissions, user, valid, pbmt⟩ := v
    have hstage : stage = t := hv.stage
    have huser : user = (r.field? .user).getD false := h.reads_iff.mp hv.user
    have hvalid : valid = (r.field? .valid).getD true := h.reads_iff.mp hv.valid
    have hpbmt : pbmt = r.field? .pbmt := h.mayRead_iff.mp hv.pbmt
    rw [hstage, huser, hvalid, hpbmt]
    rfl
  · intro hgiven
    obtain ⟨hsource, hbits, heq⟩ := hgiven
    rw [heq]
    exact {
      stage := rfl
      source := hsource
      permissions := hbits
      user := h.reads_iff.mpr rfl
      valid := h.reads_iff.mpr rfl
      pbmt := h.mayRead_iff.mpr rfl }

/-- **What is read as a view fits one of the two shapes of views.** -/
theorem WellSpelled.fits_of_viewed (h : r.WellSpelled) (hstage : r.HasStage p t)
    (hpage : r.Says .pageSize page) (hcount : r.Says .pageCount count)
    (hm : r.viewed t page count = .ok m) : ∃ σ, r.Fits p σ ∧ r.Carries σ m := by
  obtain ⟨source, dest, permissions, hsource, hdest, honly, hentries, hallowed, hd, hs, hshape⟩ :=
    viewed_eq_ok_iff.mp hm
  have hsource' : r.Says (.address t.source) source := field?_eq_some_iff.mp hsource
  have hdest' : r.Says (.address t.dest) dest := field?_eq_some_iff.mp hdest
  have hfits : r.FitsView p t := {
    stage := hstage
    addresses := fun kind => by
      constructor
      · intro hgives
        exact honly kind ((h.isSome_address? kind).mpr hgives)
      · intro hkind
        rcases hkind with rfl | rfl
        · exact hsource'.gives
        · exact hdest'.gives
    permissions := by
      obtain ⟨xwr, hxwr, hbits⟩ := permissions_eq_ok_iff.mp hallowed
      exact ⟨xwr, field?_eq_some_iff.mp hxwr, hbits ▸ permissions.bits_mem⟩
    entries := fun hsays => hentries (field?_eq_some_iff.mpr hsays)
    paged := fun kind a page' ha hpage' => by
      obtain rfl := hpage.unique hpage'
      rcases honly kind ((h.isSome_address? kind).mpr ha.gives) with rfl | rfl
      · exact hsource'.unique ha ▸ hs
      · exact hdest'.unique ha ▸ hd }
  have hview : r.CarriesView t (r.viewOf t source permissions) :=
    h.carriesView_iff.mpr ⟨hsource', hallowed, rfl⟩
  have hblock : r.CarriesBlock t.dest ⟨dest, page, count⟩ := ⟨hdest', hpage, hcount⟩
  rcases hshape with ⟨halias, hsections, hty, rfl⟩ | ⟨halias, rfl⟩
  · exact ⟨.aliased t, ⟨hfits, field?_eq_some_iff.mp halias, h.field?_eq_none_iff.mp hsections,
      h.field?_eq_none_iff.mp hty⟩, .aliased hview hblock⟩
  · exact ⟨.translated t, ⟨hfits, fun hsays => halias (field?_eq_some_iff.mpr hsays)⟩,
      .translated hview hblock (h.mayRead_iff.mpr rfl) (h.reads_iff.mpr rfl)⟩

/-- A view and a block that a record describes are read from it. -/
theorem WellSpelled.viewed_eq_ok (h : r.WellSpelled) (hfits : r.FitsView p t) {v : View}
    {b : Block} (hv : r.CarriesView t v) (hb : r.CarriesBlock t.dest b)
    (hshape : (r.field? .isAlias = some true ∧ r.field? .sections = none
        ∧ r.field? .memoryType = none ∧ m = .aliased v b)
      ∨ (r.field? .isAlias ≠ some true
        ∧ m = .translated v b (r.field? .memoryType) ((r.field? .sections).getD []))) :
    r.viewed t b.page b.count = .ok m := by
  obtain ⟨hsource, hallowed, heq⟩ := h.carriesView_iff.mp hv
  refine viewed_eq_ok_iff.mpr ⟨v.source, b.dest, v.permissions, field?_eq_some_iff.mpr hsource,
    field?_eq_some_iff.mpr hb.dest, fun kind hkind => ?_, fun hentries => ?_, hallowed,
    hfits.paged _ _ _ hb.dest hb.page, hfits.paged _ _ _ hsource hb.page, ?_⟩
  · exact (hfits.addresses kind).mp ((h.isSome_address? kind).mp hkind)
  · exact hfits.entries (field?_eq_some_iff.mp hentries)
  · rw [← heq]
    exact hshape

/-! ## §9. Direct mappings. -/

/-- **What is read as a direct mapping fits the shape of one**, and the other way round. -/
theorem WellSpelled.untranslated_iff (h : r.WellSpelled) (hstage : r.HasNoStage p)
    (hpage : r.Says .pageSize page) (hcount : r.Says .pageCount count) :
    r.untranslated page count = .ok m
      ↔ ∃ kind, r.Fits p (.direct kind) ∧ r.Carries (.direct kind) m := by
  rw [untranslated_eq_ok_iff]
  constructor
  · intro hgiven
    obtain ⟨hva, hlacks, hentries, kind, dest, hdest, honly, haligned, rfl⟩ := hgiven
    have hdest' : r.Says (.address kind) dest := field?_eq_some_iff.mp hdest
    have haddress : ∀ k, r.Gives k ↔ k = kind := by
      intro k
      constructor
      · intro hgives
        exact honly k ((h.isSome_address? k).mpr hgives)
      · intro heq
        exact heq ▸ hdest'.gives
    refine ⟨kind, ?_, .direct ⟨hdest', hpage, hcount⟩ (h.mayRead_iff.mpr rfl)
      (h.reads_iff.mpr rfl)⟩
    exact {
      stage := hstage
      address := haddress
      not_va := fun heq => by
        rw [heq, hva] at hdest
        cases hdest
      lacks := fun f hf => h.field?_eq_none_iff.mp (hlacks f hf)
      entries := fun hsays => hentries (field?_eq_some_iff.mpr hsays)
      paged := fun k a page' ha hpage' => by
        obtain rfl := hpage.unique hpage'
        obtain rfl := honly k ((h.isSome_address? k).mpr ha.gives)
        exact hdest'.unique ha ▸ haligned }
  · intro hgiven
    obtain ⟨kind, hfits, hcarries⟩ := hgiven
    replace hfits : r.FitsDirect p kind := hfits
    cases hcarries with
    | direct hb hty hnames =>
      obtain rfl := hpage.unique hb.page
      obtain rfl := hcount.unique hb.count
      refine ⟨?_, fun f hf => h.field?_eq_none_iff.mpr (hfits.lacks f hf), fun hentries => ?_, kind,
        _, field?_eq_some_iff.mpr hb.dest, fun k hk => ?_, hfits.paged _ _ _ hb.dest hb.page, ?_⟩
      · -- the one address is not a virtual one
        refine h.field?_eq_none_iff.mpr ?_
        by_cases hva : r.Lacks (.address .va)
        · exact hva
        · exact absurd ((hfits.address .va).mp hva).symm hfits.not_va
      · exact hfits.entries (field?_eq_some_iff.mp hentries)
      · exact (hfits.address k).mp ((h.isSome_address? k).mp hk)
      · rw [h.mayRead_iff.mp hty, h.reads_iff.mp hnames]

/-! ## §10. All shapes. -/

/-- A well-spelled record is read as a mapping only of the shape that it fits. -/
theorem WellSpelled.fits_of_shape (h : r.WellSpelled) (hm : r.shape p = .ok m) :
    (∃ page, r.Says .pageSize page) ∧ (∃ count, r.Says .pageCount count ∧ 1 ≤ count.toNat)
      ∧ ∃ σ, r.Fits p σ ∧ r.Carries σ m := by
  obtain ⟨page, count, hpage, hcount, hle, hread⟩ := shape_eq_ok_iff.mp hm
  replace hpage : r.Says .pageSize page := field?_eq_some_iff.mp hpage
  replace hcount : r.Says .pageCount count := field?_eq_some_iff.mp hcount
  refine ⟨⟨page, hpage⟩, ⟨count, hcount, hle⟩, ?_⟩
  rcases hread with ⟨t, ht, hm⟩ | ⟨hnone, hm⟩
  · exact h.fits_of_viewed (h.hasStage ht) hpage hcount hm
  · obtain ⟨kind, hfits, hcarries⟩ :=
      (h.untranslated_iff (h.hasNoStage_iff.mp hnone) hpage hcount).mp hm
    exact ⟨.direct kind, hfits, hcarries⟩

/-- **A well-spelled record is read as the mapping of the shape that it fits.** -/
theorem WellSpelled.shape_eq_ok (h : r.WellSpelled) (hpage : r.Says .pageSize page)
    (hcount : r.Says .pageCount count) (hle : 1 ≤ count.toNat) {σ : Shape} (hfits : r.Fits p σ)
    (hcarries : r.Carries σ m) : r.shape p = .ok m := by
  refine shape_eq_ok_iff.mpr ⟨page, count, field?_eq_some_iff.mpr hpage,
    field?_eq_some_iff.mpr hcount, hle, ?_⟩
  cases σ with
  | translated t =>
    obtain ⟨hview, halias⟩ := hfits
    cases hcarries with
    | translated hv hb hty hnames =>
      obtain rfl := hpage.unique hb.page
      obtain rfl := hcount.unique hb.count
      refine .inl ⟨t, h.stage?_of_fitsView hview, h.viewed_eq_ok hview hv hb (.inr ⟨?_, ?_⟩)⟩
      · exact fun hsays => halias (field?_eq_some_iff.mp hsays)
      · rw [h.mayRead_iff.mp hty, h.reads_iff.mp hnames]
  | aliased t =>
    obtain ⟨hview, halias, hsections, hty⟩ := hfits
    cases hcarries with
    | aliased hv hb =>
      obtain rfl := hpage.unique hb.page
      obtain rfl := hcount.unique hb.count
      exact .inl ⟨t, h.stage?_of_fitsView hview, h.viewed_eq_ok hview hv hb (.inl
        ⟨field?_eq_some_iff.mpr halias, h.field?_eq_none_iff.mpr hsections,
          h.field?_eq_none_iff.mpr hty, rfl⟩)⟩
  | direct kind =>
    have hstage : r.HasNoStage p := FitsDirect.stage hfits
    exact .inr ⟨h.hasNoStage_iff.mpr hstage,
      (h.untranslated_iff hstage hpage hcount).mpr ⟨kind, hfits, hcarries⟩⟩

/-- A record describes a mapping that it has the shape of and that fits the platform. -/
theorem toMapping_eq_ok_iff :
    r.toMapping p = .ok m
      ↔ r.WellSpelled ∧ (∃ page, r.Says .pageSize page)
        ∧ (∃ count, r.Says .pageCount count ∧ 1 ≤ count.toNat)
        ∧ (∃ σ, r.Fits p σ ∧ r.Carries σ m) ∧ m.check p = .ok () := by
  unfold toMapping
  rw [check_bind_eq_ok_iff, check_eq_ok_iff]
  refine and_congr_right fun h => ?_
  rw [bind_eq_ok_iff]
  simp only [check_bind_eq_ok_iff, pure, Except.pure, Except.ok.injEq]
  constructor
  · intro hgiven
    obtain ⟨m, hm, hcheck, rfl⟩ := hgiven
    obtain ⟨hpage, hcount, hshape⟩ := h.fits_of_shape hm
    exact ⟨hpage, hcount, hshape, hcheck⟩
  · intro hgiven
    obtain ⟨⟨page, hpage⟩, ⟨count, hcount, hle⟩, ⟨σ, hfits, hcarries⟩, hcheck⟩ := hgiven
    exact ⟨m, h.shape_eq_ok hpage hcount hle hfits hcarries, hcheck, rfl⟩

end Record

/-- **WHICH RECORDS ARE ACCEPTED**: a record is accepted on a platform exactly if all its names are
known and each value means something in its field, it gives a size of page and a number of pages,
one shape and no other fits it, and the mapping of this shape with what the record says fits the
platform.  What comes of it is that mapping, and the record says no other. -/
theorem Mapping.ofRecord_accepts_iff (p : Platform) (r : Record) :
    ((∃ m, Mapping.ofRecord p r = .ok m)
        ↔ r.WellSpelled ∧ (∃ page, r.Says .pageSize page)
          ∧ (∃ count, r.Says .pageCount count ∧ 1 ≤ count.toNat)
          ∧ ∃ σ, r.Fits p σ ∧ (∀ τ, r.Fits p τ → τ = σ)
            ∧ ∃ m, r.Carries σ m ∧ m.check p = .ok ())
      ∧ ∀ m, Mapping.ofRecord p r = .ok m →
          ∃ σ, r.Fits p σ ∧ r.Carries σ m ∧ ∀ n, r.Carries σ n → n = m := by
  unfold Mapping.ofRecord
  simp only [mapError_eq_ok_iff, Record.toMapping_eq_ok_iff]
  refine ⟨?_, fun m hm => ?_⟩
  · constructor
    · intro hgiven
      obtain ⟨m, h, hpage, hcount, ⟨σ, hfits, hcarries⟩, hcheck⟩ := hgiven
      exact ⟨h, hpage, hcount, σ, hfits, fun τ hτ => hτ.unique hfits, m, hcarries, hcheck⟩
    · intro hgiven
      obtain ⟨h, hpage, hcount, σ, hfits, -, m, hcarries, hcheck⟩ := hgiven
      exact ⟨m, h, hpage, hcount, ⟨σ, hfits, hcarries⟩, hcheck⟩
  · obtain ⟨-, -, -, ⟨σ, hfits, hcarries⟩, -⟩ := hm
    exact ⟨σ, hfits, hcarries, fun n hn => hn.unique hcarries⟩

/-- A platform whose guests translate in two stages. -/
def guestLevels : Platform where
  virtualization := true
  mode t := match t with
    | .vs => .sv39
    | .g => .sv39x4
    | .s | .hs => .bare
  supported t := by cases t <;> decide

/-- A record of code for the first stage of a guest, with every field that a translated mapping can
have. -/
def fullRecord : Record where
  fields := [("gpa", .text "0x80_0000"), ("linker_script_section", .text ".text.startup, .text,"),
    ("no_pte_allocation", .number 0), ("num_pages", .text "0b10"), ("page_size", .text " 4K "),
    ("pbmt_mode", .text "nc"), ("pma_memory_type", .text "wb"), ("translation_stage", .text "vs"),
    ("umode", .flag true), ("va", .number 0x1000), ("valid", .text "false"), ("xwr", .number 5)]
  ascending := by decide +kernel

/-- A record of an alias, of which only the addresses tell the stage. -/
def windowRecord : Record where
  fields := [("alias", .number 1), ("gpa", .text "1_073_741_824"), ("num_pages", .number 3),
    ("page_size", .number 0x200000), ("spa", .number 0x80000000), ("umode", .text "true"),
    ("xwr", .text "0B001")]
  ascending := by decide +kernel

/-- A record of a device that no stage translates. -/
def deviceRecord : Record where
  fields := [("linker_script_section", .list [" .uart ", ".uart.log"]),
    ("no_pte_allocation", .flag true), ("num_pages", .number 1), ("pa", .number 0x10000000),
    ("page_size", .text "4096"), ("pma_memory_type", .text "uc")]
  ascending := by decide +kernel

/-- The record fits one shape, and what it says in this shape is the mapping. -/
def Record.Describes (p : Platform) (r : Record) (m : Mapping) : Prop :=
  ∃ σ, r.Fits p σ ∧ (∀ τ, r.Fits p τ → τ = σ) ∧ r.Carries σ m

/-- A record of each shape is accepted as the mapping that it describes, however its values are
spelled. -/
theorem Mapping.spelledRecords_accepted : ∃ full window device,
    full = .translated ⟨.vs, 0x1000, .rx, true, false, some .nc⟩ ⟨0x800000, .size4K, 2⟩ (some .wb)
        [".text.startup", ".text"]
      ∧ window = .aliased ⟨.g, 0x40000000, .r, true, true, none⟩ ⟨0x80000000, .size2M, 3⟩
      ∧ device = .direct .pa ⟨0x10000000, .size4K, 1⟩ (some .uc) [".uart", ".uart.log"]
      ∧ (Mapping.ofRecord guestLevels fullRecord = .ok full
          ∧ fullRecord.Describes guestLevels full)
      ∧ (Mapping.ofRecord guestLevels windowRecord = .ok window
          ∧ windowRecord.Describes guestLevels window)
      ∧ (Mapping.ofRecord guestLevels deviceRecord = .ok device
          ∧ deviceRecord.Describes guestLevels device) := by
  have hdescribes : ∀ {r : Record} {m : Mapping}, Mapping.ofRecord guestLevels r = .ok m →
      Mapping.ofRecord guestLevels r = .ok m ∧ r.Describes guestLevels m := by
    intro r m hok
    obtain ⟨hiff, hcarries⟩ := Mapping.ofRecord_accepts_iff guestLevels r
    obtain ⟨-, -, -, σ, hfits, honly, -⟩ := hiff.mp ⟨m, hok⟩
    obtain ⟨τ, hτ, hm, -⟩ := hcarries m hok
    obtain rfl := honly τ hτ
    exact ⟨hok, τ, hfits, honly, hm⟩
  exact ⟨_, _, _, rfl, rfl, rfl, hdescribes rfl, hdescribes rfl, hdescribes rfl⟩

end FirmwareMap
