/-
  FirmwareMap.Proofs.Tables.Translation
  ─────────────────────────────────────
  **A WALK FINDS THE PAGE OF AN ADDRESS, AND NOTHING ELSE.**

  A walk comes to a table only if the table covers the source address, and the
  slot there decides: a leaf is that of the page that holds the address, a
  pointer leads to a table that covers it too, and where there is neither, no
  page holds it.  Addresses of tables and frames have to be within the reach
  of entries for a walk to follow them:

      translate s = (d, leaf)
        ↔  s ∈ source range of m,  d = m.dest + (s - m.source)

  The walk is taken through any reader that agrees with the entries, so that
  the same lemma serves the bytes of an image.
-/
import FirmwareMap.Proofs.Tables.Slots
import FirmwareMap.Tables.Walk

namespace FirmwareMap

/-! ## §1. One step of a walk. -/

section Step

variable {m : Mode} {read : Word → Option Word} {l : Level} {rest : List Level}
  {a s table v : Word}

theorem walk_leaf {leaf : Leaf} (hslot : Table.slotAt l table s = .ok a) (hread : read a = some v)
    (hleaf : Entry.isLeaf v = true) (hdecode : Leaf.decode? m v = some leaf) :
    walk m read s (l :: rest) table = some <$> leaf.locate l s := by
  simp only [walk, hslot, bind, Except.bind, hread, if_pos hleaf, hdecode]

theorem walk_pointer (hslot : Table.slotAt l table s = .ok a) (hread : read a = some v)
    (hleaf : Entry.isLeaf v = false) (hvalid : Entry.isValid v = true) :
    walk m read s (l :: rest) table = walk m read s rest (Entry.load m v) := by
  simp only [walk, hslot, bind, Except.bind, hread, hleaf, hvalid, if_true, Bool.false_eq_true,
    if_false]

theorem walk_blank (hslot : Table.slotAt l table s = .ok a)
    (hread : ∀ v, v ≠ 0 → read a ≠ some v) : walk m read s (l :: rest) table = .ok none := by
  simp only [walk, hslot, bind, Except.bind]
  cases hv : read a with
  | none => rfl
  | some v =>
    -- what is there can only be zero
    obtain rfl : v = 0 := Decidable.by_contra fun hne => hread v hne hv
    simp only [Entry.isLeaf_zero, Entry.isValid_zero, Bool.false_eq_true, if_false]
    rfl

/-- From a level on, the levels are that level and the deeper ones. -/
theorem Mode.drop_depth (h : l ∈ m.levels) :
    m.levels.drop l.depth = l :: m.levels.drop (l.depth + 1) := by
  obtain ⟨hlt, heq⟩ := List.getElem?_eq_some_iff.mp (levels_getElem?_depth h)
  rw [List.drop_eq_getElem_cons hlt, heq]

theorem PageSize.bytes_le (size : PageSize) : size.bytes ≤ twoPow 39 := by
  cases size <;> decide

/-- A leaf within the reach of entries leads every address of its page somewhere. -/
theorem Leaf.locate_eq_ok {leaf : Leaf} (h : leaf.frame.toNat < Entry.reach) :
    ∃ d : Word, leaf.locate l s = .ok ⟨d, leaf⟩
      ∧ d.toNat = leaf.frame.toNat + s.toNat % l.page.bytes := by
  have hmod := Nat.mod_lt s.toNat l.page.bytes_pos
  have hpage := l.page.bytes_le
  have hfit : leaf.frame.toNat + s.toNat % l.page.bytes < Word.count := by
    have hsum : Entry.reach + twoPow 39 ≤ Word.count := by decide
    omega
  refine ⟨.ofNat (leaf.frame.toNat + s.toNat % l.page.bytes), ?_, Word.toNat_ofNat_of_lt hfit⟩
  have hsome : Word.ofNat? (leaf.frame.toNat + s.toNat % l.page.bytes)
      = some (.ofNat (leaf.frame.toNat + s.toNat % l.page.bytes)) :=
    Word.ofNat?_eq_some_iff.mpr (Word.toNat_ofNat_of_lt hfit).symm
  rw [Leaf.locate, hsome]
  rfl

/-- Leaves within the reach of entries are told apart by their entries. -/
theorem Leaf.encode_injective {leaf other : Leaf} (hm : m.isPaged)
    (h : leaf.frame.toNat % 4096 = 0 ∧ leaf.frame.toNat < Entry.reach)
    (h' : other.frame.toNat % 4096 = 0 ∧ other.frame.toNat < Entry.reach)
    (heq : leaf.encode m = other.encode m) : leaf = other := by
  have hsame := congrArg (Leaf.decode? m) heq
  rw [Leaf.decode?_encode hm h.1, Leaf.decode?_encode hm h'.1, Nat.mod_eq_of_lt h.2,
    Nat.mod_eq_of_lt h'.2, UInt64.ofNat_toNat, UInt64.ofNat_toNat] at hsame
  exact Option.some.inj hsame

end Step

/-! ## §2. Walks through filled tables. -/

/-- The page serves the source address with the translated bits `s`. -/
def Mode.Serves (m : Mode) (q : Page) (s : Word) (r : Translation) : Prop :=
  ∃ l, m.Holds q l s ∧ r.leaf = q.leaf ∧ r.dest.toNat = q.leaf.frame.toNat + s.toNat % l.page.bytes

namespace StageTables

variable {t : StageTables} {u : Table} {q : Page} {s : Word} {pages : Nat} {done : List Page}
  {read : Word → Option Word}

/-- The reader finds the entries of the tables; it may find zeros where there is no entry. -/
def Agrees (t : StageTables) (read : Word → Option Word) : Prop :=
  ∀ u ∈ t.tables, ∀ a, u.IsSlot a → ∀ v, v ≠ 0 → (read a = some v ↔ t.entries[a]? = some v)

/-- All that entries have to keep is within their reach. -/
structure InReach (t : StageTables) (done : List Page) : Prop where
  /-- The tables end within reach. -/
  tables : t.base.toNat + t.used ≤ Entry.reach
  /-- The frames start at pages, within reach. -/
  frames : ∀ q ∈ done, q.leaf.frame.toNat % 4096 = 0 ∧ q.leaf.frame.toNat < Entry.reach

namespace Filled

/-- A page that holds what a table covers has its leaf in the table or below it. -/
theorem holds_or_refines (h : t.Filled pages done) (hfit : t.base.toNat + t.used ≤ Word.count)
    (hu : t.Covers s u) (hmem : q ∈ done) {l : Level} (hq : t.mode.Holds q l s) :
    l = u.level ∨ t.mode.Refines q u.level s := by
  have hle := h.depth_le hfit hmem hq hu
  have hlevel := h.packed.level_mem u hu.mem
  obtain ⟨r, hplace, hpage⟩ := hq
  rcases Nat.eq_or_lt_of_le hle with heq | hlt
  · exact .inl (Mode.eq_of_depth_eq hplace.level_mem hlevel heq.symm)
  · exact .inr ⟨l, r, hplace, hlt, Mode.pageNumber_eq_of_le hlevel hplace.level_mem hle hpage⟩

/-- **A walk from a table that covers the address ends with the page that holds it.** -/
theorem walk_spec (h : t.Filled pages done) (hm : t.mode.isPaged) (hreach : t.InReach done)
    (hread : t.Agrees read) (u : Table) (hu : t.Covers s u) :
    ∃ o, walk t.mode read s (t.mode.levels.drop u.level.depth) u.address = .ok o
      ∧ ∀ r, o = some r ↔ ∃ q ∈ done, t.mode.Serves q s r := by
  have hfit := Entry.le_count hreach.tables
  have hlevel := h.packed.level_mem u hu.mem
  obtain ⟨a, hslot⟩ := h.exists_slot hfit hu.mem s
  have hslotAt : Table.slotAt u.level u.address s = .ok a :=
    Table.slotAt_eq_ok_iff.mpr (Table.slot_eq_ok_iff.mp hslot)
  have hagree := hread u hu.mem a (Table.isSlot_of_slot hslot)
  rw [Mode.drop_depth hlevel]
  by_cases hleaf : ∃ q ∈ done, t.mode.Holds q u.level s
  · -- a page holds the address: the slot has its leaf
    obtain ⟨q, hmem, hq⟩ := hleaf
    obtain ⟨haligned, hframe⟩ := hreach.frames q hmem
    have hentry := h.leaf_entry hmem (h.leaf_slot hu hq hslot)
    have hdecode : Leaf.decode? t.mode (q.leaf.encode t.mode) = some q.leaf := by
      rw [Leaf.decode?_encode hm haligned, Nat.mod_eq_of_lt hframe, UInt64.ofNat_toNat]
    obtain ⟨d, hlocate, hd⟩ := Leaf.locate_eq_ok (l := u.level) (s := s) hframe
    refine ⟨some ⟨d, q.leaf⟩, ?_, fun r => ?_⟩
    · rw [walk_leaf hslotAt ((hagree _ (Leaf.encode_ne_zero hm _)).mpr hentry)
        (Leaf.isLeaf_encode hm _) hdecode, hlocate]
      rfl
    · constructor
      · intro hgiven
        obtain ⟨rfl⟩ := hgiven
        exact ⟨q, hmem, u.level, hq, rfl, hd⟩
      · intro hgiven
        obtain ⟨q', hmem', l, hq', hr, hdest⟩ := hgiven
        -- another page that holds the address has the same entry, hence the same leaf
        obtain ⟨rfl, hencode⟩ := h.encode_eq hfit hmem hmem' hq hq'
        have hsame := Leaf.encode_injective hm (hreach.frames q hmem) (hreach.frames q' hmem')
          hencode
        rw [← hsame] at hr hdest
        have hdest' : d = r.dest := UInt64.toNat_inj.mp (hd.trans hdest.symm)
        rw [hdest', ← hr]
  · by_cases hpointer : ∃ q ∈ done, t.mode.Refines q u.level s
    · -- a smaller page lies here: the walk goes on in the table of the next level
      obtain ⟨q, hmem, hq⟩ := hpointer
      obtain ⟨w, hw, hbelow, hslot'⟩ := h.pointer_slot hmem hu hq hslot
      have hentry := h.pointer_entry hmem hslot'
      have hdepth : w.level.depth < t.mode.levels.length :=
        (List.getElem?_eq_some_iff.mp
          (Mode.levels_getElem?_depth (h.packed.level_mem w hw.mem))).1
      rw [walk_pointer hslotAt ((hagree _ (Entry.pointer_ne_zero hm _)).mpr hentry)
        (Entry.isLeaf_pointer hm _) (Entry.isValid_pointer hm _),
        h.load_pointer hm hreach.tables hw.mem, ← hbelow]
      exact walk_spec h hm hreach hread w hw
    · -- neither: nothing but zero can stand in the slot, and no page holds the address
      refine ⟨none, walk_blank hslotAt fun v hv hsome => ?_, fun r => ⟨nofun, ?_⟩⟩
      · obtain ⟨q, hmem, hwrites⟩ := (h.entry a v hv).mp ((hagree v hv).mp hsome)
        cases hwrites with
        | leaf h' => exact hleaf ⟨q, hmem, h.holds_of_leafSlot hu hslot h'⟩
        | pointer h' => exact hpointer ⟨q, hmem, (h.refines_of_pointerSlot hu hslot h').1⟩
      · intro hgiven
        obtain ⟨q, hmem, l, hq, -⟩ := hgiven
        rcases h.holds_or_refines hfit hu hmem hq with rfl | hq'
        · exact absurd ⟨q, hmem, hq⟩ hleaf
        · exact absurd ⟨q, hmem, hq'⟩ hpointer
termination_by t.mode.levels.length - u.level.depth

/-- The first table covers every source address that the mode translates. -/
theorem covers_root (h : t.Filled pages done) (hroot : t.tables.head? = some u)
    (hs : s.toNat < t.mode.sourceCount) : t.Covers s u ∧ u.level.depth = 0 := by
  have hmem := List.mem_of_head? hroot
  have hlevel := h.packed.level_mem u hmem
  have hdepth := h.packed.root u hroot
  refine ⟨⟨hmem, ?_⟩, hdepth⟩
  rw [h.start_of_depth_zero hmem hdepth, Mode.tableStart_root hlevel hdepth hs]

/-- Without tables, no pages were mapped. -/
theorem done_eq_nil (h : t.Filled pages done) (hnone : t.tables = []) : done = [] := by
  refine List.eq_nil_iff_forall_not_mem.mpr fun q hmem => ?_
  obtain ⟨l, s, hplace⟩ := h.located q hmem
  obtain ⟨u, hu, -⟩ := h.reached q hmem l s hplace l hplace.level_mem (Nat.le_refl _)
  have hmem := hu.mem
  rw [hnone] at hmem
  cases hmem

end Filled

end StageTables

/-- The page shows the source address: it holds the address, and the rest of the address is added
to its frame. -/
def Page.Shows (q : Page) (b : Word) (r : Translation) : Prop :=
  b.toNat ∈ q.extent ∧ r.leaf = q.leaf
    ∧ r.dest.toNat = q.leaf.frame.toNat + (b.toNat - q.source.toNat)

/-- What a page shows is what it serves of the translated bits. -/
theorem Page.shows_iff {m : Mode} {q : Page} {l : Level} {s b : Word} {r : Translation}
    (hplace : m.Places q l s) (haligned : q.source.toNat % q.size.bytes = 0) :
    q.Shows b r ↔ ∃ c, m.canonical? b = some c ∧ m.Serves q c r := by
  have hpage := hplace.page_eq
  have hl := hplace.level_mem
  have halign : q.source.toNat % l.page.bytes = 0 := by rw [hpage]; exact haligned
  have hmem : b.toNat ∈ q.extent
      ↔ ∃ c, m.canonical? b = some c ∧ l.pageNumber s = l.pageNumber c := by
    rw [← Mode.mem_page_iff hl hplace.source halign, hpage]
    exact Iff.rfl
  constructor
  · intro h
    obtain ⟨hb, hleaf, hdest⟩ := h
    obtain ⟨c, hc, hnumber⟩ := hmem.mp hb
    obtain ⟨-, hsub⟩ := Mode.sub_of_pageNumber hl hplace.source halign hc hnumber
    exact ⟨c, hc, l, ⟨s, hplace, hnumber⟩, hleaf, by rw [hdest, hsub]⟩
  · intro h
    obtain ⟨c, hc, k, ⟨r', hplace', hnumber⟩, hleaf, hdest⟩ := h
    obtain ⟨rfl, rfl⟩ := hplace.unique hplace'
    obtain ⟨-, hsub⟩ := Mode.sub_of_pageNumber hl hplace.source halign hc hnumber
    exact ⟨hmem.mpr ⟨c, hc, hnumber⟩, hleaf, by rw [hdest, hsub]⟩

/-- **Translation finds the page that shows the address, and fails where there is none.** -/
theorem StageTables.Filled.translate_spec {t : StageTables} {pages : Nat} {done : List Page}
    (h : t.Filled pages done) (hm : t.mode.isPaged) (hreach : t.InReach done)
    (haligned : ∀ q ∈ done, q.source.toNat % q.size.bytes = 0) (b : Word) :
    ∃ o, t.translate b = .ok o ∧ ∀ r, o = some r ↔ ∃ q ∈ done, q.Shows b r := by
  have hshows : ∀ q ∈ done, ∀ r,
      q.Shows b r ↔ ∃ c, t.mode.canonical? b = some c ∧ t.mode.Serves q c r := by
    intro q hmem r
    obtain ⟨l, s, hplace⟩ := h.located q hmem
    exact Page.shows_iff hplace (haligned q hmem)
  unfold StageTables.translate
  split
  next s root hcanonical hroot =>
    obtain ⟨hu, hdepth⟩ := h.covers_root hroot (Mode.canonical?_eq_some_iff.mp hcanonical).2
    have hread : t.Agrees (t.entries[·]?) := fun _ _ _ _ _ _ => Iff.rfl
    obtain ⟨o, hwalk, ho⟩ := h.walk_spec hm hreach hread root hu
    rw [hdepth, List.drop_zero] at hwalk
    refine ⟨o, hwalk, fun r => ?_⟩
    rw [ho]
    refine exists_congr fun q => and_congr_right fun hmem => ?_
    rw [hshows q hmem, hcanonical]
    simp
  next hnone =>
    refine ⟨none, rfl, fun r => ⟨nofun, ?_⟩⟩
    intro hgiven
    obtain ⟨q, hmem, hq⟩ := hgiven
    obtain ⟨c, hc, -⟩ := (hshows q hmem r).mp hq
    -- a page was mapped, so there is a root
    cases hroot : t.tables.head? with
    | some root => exact absurd hroot (hnone c root hc)
    | none =>
      rw [h.done_eq_nil (List.head?_eq_none_iff.mp hroot)] at hmem
      cases hmem

/-! ## §3. Translation and mappings. -/

/-- A view of a mapping shows the source address: where it leads and what the leaf says of it. -/
structure Mapping.Shows (m : Mapping) (v : View) (b : Word) (r : Translation) : Prop where
  /-- The address lies in the source range. -/
  mem : b.toNat ∈ m.extentFrom v
  /-- The destination lies as far into the destination range. -/
  dest : r.dest.toNat = m.block.dest.toNat + (b.toNat - v.source.toNat)
  /-- The frame is the destination of the page that holds the address. -/
  frame : r.leaf.frame.toNat
    = m.block.dest.toNat + (b.toNat - v.source.toNat) / m.block.page.bytes * m.block.page.bytes
  /-- The permissions are those of the view. -/
  permissions : r.leaf.permissions = v.permissions
  /-- The user flag is that of the view. -/
  user : r.leaf.user = v.user
  /-- The translation is in force if the view says so. -/
  valid : r.leaf.valid = v.valid
  /-- The page counts as used. -/
  accessed : r.leaf.accessed = true
  /-- The page counts as written. -/
  dirty : r.leaf.dirty = true
  /-- The memory type is that of the view, or the region's own where the view asks for none. -/
  pbmt : r.leaf.pbmt = v.pbmt.getD .pma

/-- One of the pages of a mapping shows an address exactly when a view of the mapping does. -/
theorem Mapping.Bounded.shows_iff {m : Mapping} (h : m.Bounded) {b : Word} {r : Translation} :
    (∃ q ∈ m.pageList, q.Shows b r) ↔ ∃ v ∈ m.view?, m.Shows v b r := by
  constructor
  · intro hgiven
    obtain ⟨q, hq, hmem, hleaf, hdest⟩ := hgiven
    obtain ⟨v, hv, i, hi, rfl⟩ := mem_pageList.mp hq
    obtain ⟨hrange, rfl⟩ := (h.mem_page_iff hv).mp ⟨hi, hmem⟩
    have hframe := h.toNat_frame (v := v) hi
    have hsource := h.toNat_source hv hi
    have hle := hmem.1
    simp only [Page.extent] at hle
    refine ⟨v, hv, hrange, by omega, by rw [hleaf, hframe], ?_, ?_, ?_, ?_, ?_, ?_⟩ <;>
      rw [hleaf] <;> rfl
  · intro hgiven
    obtain ⟨v, hv, hshows⟩ := hgiven
    obtain ⟨hi, hmem⟩ := (h.mem_page_iff hv).mpr ⟨hshows.mem, rfl⟩
    have hframe := h.toNat_frame (v := v) hi
    have hsource := h.toNat_source hv hi
    have hle := hmem.1
    simp only [Page.extent] at hle
    refine ⟨_, mem_pageList.mpr ⟨v, hv, _, hi, rfl⟩, hmem, ?_, by rw [hshows.dest]; omega⟩
    obtain ⟨dest, leaf⟩ := r
    have hsame : leaf.frame = (page v m.block _).leaf.frame :=
      UInt64.toNat_inj.mp (hshows.frame.trans hframe.symm)
    have hpermissions := hshows.permissions
    have huser := hshows.user
    have hvalid := hshows.valid
    have haccessed := hshows.accessed
    have hdirty := hshows.dirty
    have hpbmt := hshows.pbmt
    cases leaf
    simp only at hsame hpermissions huser hvalid haccessed hdirty hpbmt
    rw [hsame, hpermissions, huser, hvalid, haccessed, hdirty, hpbmt]
    rfl

/-- A view of a mapping leads every address of its source range somewhere. -/
theorem Mapping.Bounded.exists_shows {m : Mapping} (h : m.Bounded) {v : View} (hv : v ∈ m.view?)
    {b : Word} (hb : b.toNat ∈ m.extentFrom v) : ∃ r, m.Shows v b r := by
  obtain ⟨hi, -⟩ := (h.mem_page_iff hv).mpr ⟨hb, rfl⟩
  have hstop : m.block.dest.toNat + m.block.bytes < Word.count := h.dest_lt
  have hlt : b.toNat < v.source.toNat + m.block.bytes := hb.2
  have hle : v.source.toNat ≤ b.toNat := hb.1
  let leaf := (page v m.block ((b.toNat - v.source.toNat) / m.block.page.bytes)).leaf
  exact ⟨⟨.ofNat (m.block.dest.toNat + (b.toNat - v.source.toNat)), leaf⟩, {
    mem := hb
    dest := Word.toNat_ofNat_of_lt (by omega)
    frame := h.toNat_frame hi
    permissions := rfl
    user := rfl
    valid := rfl
    accessed := rfl
    dirty := rfl
    pbmt := rfl }⟩

namespace StageTables

variable {x : AddressMap} {p₁ p₂ : Platform} {stage : Stage} {pages : Nat} {t : StageTables}

/-- Within reach of the entries, where the map is accepted. -/
theorem inReach_of_accepted (ha : x.AcceptedOn p₁)
    (htables : t.base.toNat + t.used ≤ Entry.reach)
    (hdest : ∀ m ∈ x.entries stage, m.view?.isSome → m.destExtent.stop ≤ Entry.reach) :
    t.InReach (x.pagesOf stage) where
  tables := htables
  frames q hq := by
    refine ⟨ha.frame_mod hq, ?_⟩
    obtain ⟨m, hm, hq⟩ := List.mem_flatMap.mp hq
    obtain ⟨v, hv, i, hi, rfl⟩ := Mapping.mem_pageList.mp hq
    have hstop : m.block.dest.toNat + m.block.bytes ≤ Entry.reach :=
      hdest m hm (Option.isSome_of_mem hv)
    have hroom := Mapping.Bounded.mul_add_le hi
    have hpos := m.block.page.bytes_pos
    rw [(ha.bounded hm).toNat_frame hi]
    omega

/-- **CORRECTNESS OF THE WALK**: tables that are built from an accepted map, within the reach of
their entries, translate an address exactly when a mapping of the stage shows it, and then as that
mapping says; no other mapping of the stage shows the address. -/
theorem translate_refines_mappings (ha : x.AcceptedOn p₁)
    (ht : (ofMap x p₂ stage pages).outcome = .ok t)
    (htables : t.base.toNat + t.used ≤ Entry.reach)
    (hdest : ∀ m ∈ x.entries stage, m.view?.isSome → m.destExtent.stop ≤ Entry.reach) (b : Word) :
    (∀ r, t.translate b = .ok (some r)
        ↔ ∃ m ∈ x.entries stage, ∃ v ∈ m.view?, m.Shows v b r)
      ∧ ((∃ r, t.translate b = .ok (some r))
        ↔ ∃ m ∈ x.entries stage, ∃ v ∈ m.view?, b.toNat ∈ m.extentFrom v)
      ∧ ((∀ m ∈ x.entries stage, ∀ v ∈ m.view?, b.toNat ∉ m.extentFrom v) →
          t.translate b = .ok none)
      ∧ ∀ (i j : Nat) (m n : Mapping) (v w : View), (x.entries stage)[i]? = some m →
          (x.entries stage)[j]? = some n → v ∈ m.view? → w ∈ n.view? →
          b.toNat ∈ m.extentFrom v → b.toNat ∈ n.extentFrom w → i = j := by
  have hbuilt := built_of_ofMap ht
  have hreach := inReach_of_accepted ha htables hdest
  obtain ⟨o, htranslate, ho⟩ := hbuilt.filled.translate_spec hbuilt.isPaged hreach
    (fun q hq => (ha.page_aligned hq).1) b
  have hshows : ∀ r, o = some r ↔ ∃ m ∈ x.entries stage, ∃ v ∈ m.view?, m.Shows v b r := by
    intro r
    rw [ho]
    constructor
    · intro h
      obtain ⟨q, hq, hr⟩ := h
      obtain ⟨m, hm, hq⟩ := List.mem_flatMap.mp hq
      exact ⟨m, hm, (ha.bounded hm).shows_iff.mp ⟨q, hq, hr⟩⟩
    · intro h
      obtain ⟨m, hm, hr⟩ := h
      obtain ⟨q, hq, hr⟩ := (ha.bounded hm).shows_iff.mpr hr
      exact ⟨q, List.mem_flatMap.mpr ⟨m, hm, hq⟩, hr⟩
  -- every address of a view is shown, so some answer comes exactly where a view has the address
  have hcovers : (∃ r, o = some r)
      ↔ ∃ m ∈ x.entries stage, ∃ v ∈ m.view?, b.toNat ∈ m.extentFrom v := by
    constructor
    · intro h
      obtain ⟨r, hr⟩ := h
      obtain ⟨m, hm, v, hv, hr⟩ := (hshows r).mp hr
      exact ⟨m, hm, v, hv, hr.mem⟩
    · intro h
      obtain ⟨m, hm, v, hv, hb⟩ := h
      obtain ⟨r, hr⟩ := (ha.bounded hm).exists_shows hv hb
      exact ⟨r, (hshows r).mpr ⟨m, hm, v, hv, hr⟩⟩
  rw [htranslate]
  refine ⟨fun r => ?_, ?_, fun hnone => ?_, fun i j m n v w hi hj hv hw => ?_⟩
  · rw [Except.ok.injEq, hshows]
  · simp only [Except.ok.injEq]
    exact hcovers
  · cases ho' : o with
    | none => rfl
    | some r =>
      obtain ⟨m, hm, v, hv, hb⟩ := hcovers.mp ⟨r, ho'⟩
      exact absurd hb (hnone m hm v hv)
  · exact ha.index_unique hi hj hv hw

open AddressMap in
/-- Translation in the small image: in the second page of the code, and beside every mapping. -/
theorem translate_smallImage : ∃ t, (ofMap (collect smallImage) threeLevels .s 8).outcome = .ok t
    ∧ t.translate 0xffffffff80001234
        = .ok (some ⟨0x80001234, ⟨0x80001000, .rx, false, true, true, .pma, true⟩⟩)
    ∧ t.translate 0x2000 = .ok none := by
  obtain ⟨t, ht, htables, -⟩ := smallImage_tables
  have hspec := translate_refines_mappings ⟨_, smallImage_accepted⟩ ht htables
    (by decide +kernel)
  refine ⟨t, ht, ((hspec 0xffffffff80001234).1 _).mpr ⟨_, List.mem_cons_self, _, rfl, ?_⟩,
    (hspec 0x2000).2.2.1 (by decide +kernel)⟩
  exact {
    mem := by decide
    dest := by decide
    frame := by decide
    permissions := rfl
    user := rfl
    valid := rfl
    accessed := rfl
    dirty := rfl
    pbmt := rfl }

end StageTables

end FirmwareMap
