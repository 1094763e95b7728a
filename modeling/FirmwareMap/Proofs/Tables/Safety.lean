/-
  FirmwareMap.Proofs.Tables.Safety
  ────────────────────────────────
  **NO SUM LEAVES THE WORDS, AND NOTHING ELSE GOES WRONG.**

  Building tables refuses what it cannot do, and it never faults.  The sums
  that it makes are bounded from two sides: addresses of tables by the region,
  which ends before the last address, and bytes of tables by their number,
  because tables of a level differ in the source addresses that they cover:

      base + used  ≤  end of the region  <  2^64
      used         ≤  Σ bytes · (source addresses / span)  over the levels
                   ≤  2^42

  The first bound alone would not do for a region that starts at zero, where
  `used` and one more table could still leave the words.
-/
import FirmwareMap.Proofs.Tables.Attempt
import FirmwareMap.Proofs.Tables.Image

namespace FirmwareMap

variable {m : Mode} {l : Level} {b s : Word}

/-! ## §1. How many tables there can be. -/

/-- Whether a table of the level can start at a source address. -/
def Mode.Key (m : Mode) (key : Level × Word) : Prop :=
  key.1 ∈ m.levels ∧ ∃ s : Word, s.toNat < m.sourceCount ∧ key.2 = key.1.tableStart s

/-- Tables of a level divide the source addresses of a mode. -/
theorem Mode.span_dvd (hl : l ∈ m.levels) : l.span ∣ m.sourceCount := by
  have hbits : l.index.msb + 1 ≤ m.sourceBits := by
    revert l
    cases m <;> decide
  exact twoPow_dvd_twoPow hbits

/-- Tables of one level are at most as many as the parts that they cover. -/
theorem Mode.card_keys_le {D : Finset (Level × Word)} (h : ∀ key ∈ D, m.Key key)
    (hl : l ∈ m.levels) : (D.filter fun key => key.1 = l).card ≤ m.sourceCount / l.span := by
  rw [← Finset.card_range (m.sourceCount / l.span)]
  -- every part has a number, and no two starts have one number
  refine Finset.card_le_card_of_injOn (fun key => key.2.toNat / l.span) (fun key hkey => ?_)
    fun key hkey key' hkey' heq => ?_
  · obtain ⟨hmem, rfl⟩ := Finset.mem_filter.mp hkey
    obtain ⟨-, s, hs, hstart⟩ := h key hmem
    rw [Finset.coe_range, Set.mem_Iio]
    show key.2.toNat / key.1.span < m.sourceCount / key.1.span
    rw [hstart, Level.toNat_tableStart, Nat.mul_div_cancel _ key.1.span_pos]
    exact Nat.div_lt_div_of_lt_of_dvd (Mode.span_dvd hl) hs
  · obtain ⟨hmem, hlevel⟩ := Finset.mem_filter.mp hkey
    obtain ⟨hmem', hlevel'⟩ := Finset.mem_filter.mp hkey'
    have hmod : ∀ key ∈ D, key.1 = l → key.2.toNat % l.span = 0 := by
      intro key hmem hlevel
      obtain ⟨-, s, -, hstart⟩ := h key hmem
      rw [hstart, hlevel]
      exact l.tableStart_mod_span s
    have hstart := Nat.div_add_mod key.2.toNat l.span
    have hstart' := Nat.div_add_mod key'.2.toNat l.span
    rw [hmod key hmem hlevel, Nat.add_zero] at hstart
    rw [hmod key' hmem' hlevel', Nat.add_zero] at hstart'
    replace heq : key.2.toNat / l.span = key'.2.toNat / l.span := heq
    refine Prod.ext (hlevel.trans hlevel'.symm) (UInt64.toNat_inj.mp ?_)
    rw [← hstart, ← hstart', heq]

/-- **No more than 2^42 bytes of tables can ever be needed.** -/
theorem Mode.demandBytes_le {D : Finset (Level × Word)} (h : ∀ key ∈ D, m.Key key) :
    demandBytes D ≤ twoPow 42 := by
  have hlevels : ∀ key ∈ D, key.1 ∈ m.levels.toFinset := fun key hkey =>
    List.mem_toFinset.mpr (h key hkey).1
  calc demandBytes D
      = ∑ l ∈ m.levels.toFinset, ∑ key ∈ D with key.1 = l, key.1.tableBytes :=
        (Finset.sum_fiberwise_of_maps_to hlevels _).symm
    _ ≤ ∑ l ∈ m.levels.toFinset, m.sourceCount / l.span * l.tableBytes := by
        refine Finset.sum_le_sum fun l hl => ?_
        have hbytes : ∀ key ∈ D.filter (fun key => key.1 = l), key.1.tableBytes = l.tableBytes :=
          fun key hkey => by rw [(Finset.mem_filter.mp hkey).2]
        rw [Finset.sum_const_nat hbytes]
        exact Nat.mul_le_mul_right _ (Mode.card_keys_le h (List.mem_toFinset.mp hl))
    _ ≤ twoPow 42 := by
        cases m <;> decide

namespace StageTables

variable {t t' : StageTables} {q : Page} {pages : Nat} {done : List Page}

/-! ## §2. Sums over tables. -/

/-- The sums over tables are words, whether or not anything asks for them. -/
structure InWords (t : StageTables) : Prop where
  /-- Another table of any level could still be counted. -/
  used_add : ∀ l ∈ t.mode.levels, t.used + l.tableBytes < Word.count
  /-- The bytes of the image can be told by half a word. -/
  used_lt : t.used < twoPow 63
  /-- The address after all tables is one. -/
  next : t.base.toNat + t.used < Word.count
  /-- So is the address after each table. -/
  stop : ∀ u ∈ t.tables, u.address.toNat + u.bytes < Word.count
  /-- Each table starts at a multiple of its bytes. -/
  aligned : ∀ u ∈ t.tables, u.address.toNat % u.bytes = 0
  /-- Each table holds its slots. -/
  slot : ∀ u ∈ t.tables, ∀ s,
    u.address.toNat + (u.level.index.extract s).toNat * entryBytes + entryBytes
      ≤ u.address.toNat + u.bytes

/-- **Tables in a region that holds the budget make no sum that is not a word.** -/
theorem Packed.inWords (h : t.Packed pages) (hhost : t.Hosted pages)
    (hkeys : ∀ u ∈ t.tables, t.mode.Key u.key) : t.InWords := by
  have hbytes : t.used ≤ twoPow 42 := by
    rw [used_eq_total, Table.total_eq_demandBytes h.nodup_keys]
    refine Mode.demandBytes_le (m := t.mode) fun key hkey => ?_
    obtain ⟨u, hu, rfl⟩ := List.mem_map.mp (List.mem_toFinset.mp hkey)
    exact hkeys u hu
  have hwithin := h.within
  have hfits := hhost.fits
  have hroom : twoPow 42 + 16384 < twoPow 63 := by decide
  have hword : twoPow 63 < Word.count := by decide
  refine ⟨fun l hl => ?_, by omega, by omega, fun u hu => ?_, h.aligned, fun u hu s => ?_⟩
  · have hle := Mode.tableBytes_le hl
    omega
  · have hstop : u.address.toNat + u.bytes ≤ _ := (h.packed.bounds hu).2
    rw [← used_eq_total] at hstop
    omega
  · have hindex := Table.index_add_le u.level s
    show _ ≤ u.address.toNat + u.level.tableBytes
    omega

/-- Tables that are filled are tables of source addresses that the mode translates. -/
theorem Filled.key (h : t.Filled pages done) : ∀ u ∈ t.tables, t.mode.Key u.key := by
  intro u hu
  obtain ⟨q, -, l, s, hplace, hcover, -⟩ := h.needed u hu
  exact ⟨h.packed.level_mem u hu, s, hplace.source_lt, hcover.start⟩

/-! ## §3. On the way to a leaf. -/

/-- The tables of a path are those of the stage that cover a source address. -/
structure OnPath (t : StageTables) (s : Word) (path : List Table) : Prop where
  /-- There are at most as many as a mode can have levels. -/
  length_le : path.length ≤ 4
  /-- Each covers the source address. -/
  covers : ∀ u ∈ path, u ∈ t.tables ∧ s.toNat ∈ u.coverage

/-- **However far the tables for an address have been reached**, their sums are words. -/
theorem Filled.reach_inWords (h : t.Filled pages done) (hhost : t.Hosted pages)
    (hs : s.toNat < t.mode.sourceCount) {k : Nat} {path : List Table}
    (hreach : (reach pages s (t.mode.levels.take k) t).outcome = .ok (t', path)) :
    t'.InWords ∧ t'.OnPath s path := by
  have hlevels : ∀ l ∈ t.mode.levels.take k, l ∈ t.mode.levels := fun l hl =>
    List.mem_of_mem_take hl
  have hroot : ∀ l ∈ (t.mode.levels.take k).head?, l.depth = 0 ∨ t.tables ≠ [] := by
    intro l hl
    rw [List.head?_take] at hl
    split at hl
    next => cases hl
    next => exact .inl (Mode.depth_of_head? hl)
  obtain ⟨⟨new, rfl, hnew⟩, hpacked, hpath, hcovers⟩ := reach_spec h.packed hlevels hroot hreach
  refine ⟨hpacked.inWords ⟨hhost.fits, hhost.aligned⟩ fun u hu => ?_, ?_, fun u hu => ?_⟩
  · rcases List.mem_append.mp hu with hu | hu
    · exact h.key u hu
    · obtain ⟨hl, hstart⟩ := hnew u hu
      exact ⟨hlevels _ hl, s, hs, hstart⟩
  · have hlength := congrArg List.length hpath
    rw [List.length_map, List.length_take] at hlength
    have hmode : t.mode.levels.length ≤ 4 := by cases t.mode <;> decide
    omega
  · exact ⟨(hcovers u hu).mem, (hcovers u hu).mem_coverage⟩

end StageTables

/-! ## §4. Pages. -/

/-- The sums of a mapping and of its pages are words, and what its pages allow can be encoded. -/
structure Mapping.InWords (m : Mapping) : Prop where
  /-- The bytes of the mapping and the address after them are words. -/
  stop : m.block.dest.toNat + m.block.bytes < Word.count
  /-- Every page has its two addresses, and no page can be written but not read. -/
  page : ∀ v ∈ m.view?, ∀ i < m.block.count.toNat, ∃ q, Mapping.pageAt v m.block i = .ok q
    ∧ q.source.toNat = v.source.toNat + i * m.block.page.bytes
    ∧ q.leaf.frame.toNat = m.block.dest.toNat + i * m.block.page.bytes
    ∧ (q.leaf.permissions.writable → q.leaf.permissions.readable)

theorem Mapping.Bounded.inWords {m : Mapping} (h : m.Bounded) : m.InWords where
  stop := h.dest_lt
  page v hv i hi := by
    have hsource := h.toNat_source hv hi
    have hframe := h.toNat_frame (v := v) hi
    refine ⟨Mapping.page v m.block i, ?_, hsource, hframe, Permissions.readable_of_writable⟩
    rw [Mapping.pageAt, ← hframe, Word.ofNat?_toNat]
    rfl

namespace StageTables

variable {x : AddressMap} {p p₁ : Platform} {stage : Stage} {pages : Nat} {t : StageTables}

/-! ## §5. Builds. -/

/-- The map of no mappings has no region, so nothing is built from it. -/
theorem startTables_empty : AddressMap.empty.startTables p stage pages ≠ .ok t := by
  intro h
  obtain ⟨-, -, m, hregion, -⟩ := startTables_eq_ok_iff.mp h
  obtain ⟨stage', hm⟩ := mem_of_region hregion
  cases hm

/-- **An attempt is refused or succeeds.** -/
theorem ofMap_refused (hx : x = .empty ∨ x.AcceptedOn p₁) (p : Platform) (stage : Stage)
    (pages : Nat) : (ofMap x p stage pages).FailsOnly fun e => ∃ why, e = .refused why := by
  rcases hx with rfl | ha
  · unfold ofMap
    refine Run.FailsOnly.bind (Run.failsOnly_liftRefusal fun why _ => ⟨why, rfl⟩) fun t ht => ?_
    exact absurd (Run.liftRefusal_eq_ok_iff.mp ht) startTables_empty
  · exact (ofMap_failsOnly ha p stage pages).mono fun e he => by
      cases he with
      | start => exact ⟨_, rfl⟩
      | budget => exact ⟨_, rfl⟩
      | page => exact ⟨_, rfl⟩

/-- Tables that come about lie in a region of an accepted map. -/
theorem Arises.hosted (h : Arises x p stage pages t) (hx : x = .empty ∨ x.AcceptedOn p₁) :
    t.Hosted pages := by
  induction h with
  | start h =>
    rcases hx with rfl | ha
    · exact absurd h startTables_empty
    · exact (hosted_of_startTables ha h).2
  | page before _ h ih =>
    obtain ⟨done, hfilled⟩ := before.exists_filled
    rw [(hfilled.mapPage h).2]
    exact ⟨ih.fits, ih.aligned⟩
  | ends before h ih =>
    obtain ⟨done, hfilled⟩ := before.exists_filled
    rw [(hfilled.pinEnds h).2]
    exact ⟨ih.fits, ih.aligned⟩

/-- **BUILDING NEVER FAULTS**: a build from an accepted map, or from the empty one, on any platform
and within any budget, is refused or succeeds; then there is an image, and every source address is
translated or not.  The sums over mappings, pages and tables that the build makes on its way are
words at every moment, also where nothing checks them.  The control register is not mentioned: its
fields are cut from the mode and the base, so its value takes no sum that could leave the words. -/
theorem build_never_faults (hx : x = .empty ∨ x.AcceptedOn p₁) (p₂ : Platform) (stage : Stage) :
    (∀ budget fault, (build x p₂ stage budget).outcome ≠ .error (.faulted fault))
      ∧ (∀ budget t, (build x p₂ stage budget).outcome = .ok t →
          (∃ bytes, t.image = .ok bytes) ∧ ∀ b, ∃ o, t.translate b = .ok o)
      ∧ (∀ stage', ∀ m ∈ x.entries stage', m.InWords)
      ∧ ∀ pages t, Arises x p₂ stage pages t → t.InWords
          ∧ ∀ b s, t.mode.canonical? b = some s → ∀ k t' path,
              (reach pages s (t.mode.levels.take k) t).outcome = .ok (t', path) →
              t'.InWords ∧ t'.OnPath s path := by
  refine ⟨fun budget fault hfail => ?_, fun budget t ht => ?_, fun stage' m hm => ?_,
    fun pages t ht => ?_⟩
  · obtain ⟨n, hn⟩ := exists_attempt x p₂ stage budget
    obtain ⟨why, hwhy⟩ := ofMap_refused hx p₂ stage n _ (hn.symm.trans hfail)
    cases hwhy
  · obtain ⟨n, hn⟩ := exists_attempt x p₂ stage budget
    rw [hn] at ht
    have hbuilt := built_of_ofMap ht
    have hfits := (ended_of_ofMap ht).fits
    obtain ⟨bytes, hbytes, -⟩ := exists_image_of_ofMap ht
    exact ⟨⟨bytes, hbytes⟩, fun b =>
      hbuilt.filled.packed.translate_eq_ok hbuilt.isPaged hfits b⟩
  · rcases hx with rfl | ha
    · cases hm
    · exact (ha.bounded hm).inWords
  · obtain ⟨done, hfilled⟩ := ht.exists_filled
    have hhost := ht.hosted hx
    exact ⟨hfilled.packed.inWords hhost hfilled.key, fun b s hs k t' path hreach =>
      hfilled.reach_inWords hhost (Mode.canonical?_eq_some_iff.mp hs).2 hreach⟩

open AddressMap in
/-- The small image, accepted for three levels of tables, is built for four within a budget that
grows to the eight pages of its region; the empty map is refused. -/
theorem smallImage_never_faults :
    (∃ t, (build (collect smallImage) fourLevels .s (.growing 6 8)).outcome = .ok t
        ∧ (∃ bytes, t.image = .ok bytes) ∧ ∀ b, ∃ o, t.translate b = .ok o)
      ∧ (∀ budget fault,
          (build (collect smallImage) fourLevels .s budget).outcome ≠ .error (.faulted fault))
      ∧ ∀ budget fault, (build .empty threeLevels .s budget).outcome ≠ .error (.faulted fault) := by
  have haccepted : (collect smallImage).AcceptedOn threeLevels := ⟨_, smallImage_accepted⟩
  have hrun : ((build (collect smallImage) fourLevels .s (.growing 6 8)).outcome.toOption.any
      fun t => decide (t.tables.length = 8)) = true := by
    decide +kernel
  obtain ⟨t, ht, -⟩ := exists_ok_of_any hrun
  obtain ⟨hsmall, hbuilt, -⟩ := build_never_faults (.inr haccepted) fourLevels .s
  have hempty : (AddressMap.empty = .empty) ∨ AddressMap.empty.AcceptedOn threeLevels := .inl rfl
  obtain ⟨hnothing, -⟩ := build_never_faults hempty threeLevels .s
  exact ⟨⟨t, ht, hbuilt _ t ht⟩, hsmall, hnothing⟩

end StageTables

end FirmwareMap
