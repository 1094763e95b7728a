/-
  FirmwareMap.Proofs.Tables.Image
  ───────────────────────────────
  **THE BYTES OF THE TABLES SAY WHAT THE ENTRIES SAY.**

  Every entry stands in a slot of a table, and the tables lie one after the
  other from the base, so each entry is written to a word of its own:

      word i of the image  =  entry at base + 8·i, or zero where there is none

  A machine that has only these bytes and the value of the control register
  therefore reads what a walk over the entries reads, and with the tables
  within the reach of entries it also starts where that walk does.
-/
import FirmwareMap.Proofs.Tables.Demand
import FirmwareMap.Proofs.Tables.Walk
import FirmwareMap.Tables.ImageWalk

namespace FirmwareMap

/-! ## §1. Bytes of words. -/

theorem length_flatMap_bytes (words : List Word) :
    (words.flatMap Word.bytes).length = words.length * entryBytes := by
  induction words with
  | nil => rfl
  | cons w words ih =>
    rw [List.flatMap_cons, List.length_append, Word.length_bytes, ih, List.length_cons,
      Nat.succ_mul, Nat.add_comm]

/-- Eight bytes for each word before it, the bytes of a word follow. -/
theorem take_drop_flatMap_bytes {w : Word} {i : Nat} {words : List Word} (h : words[i]? = some w) :
    ((words.flatMap Word.bytes).drop (i * entryBytes)).take entryBytes = w.bytes := by
  induction words generalizing i with
  | nil => cases h
  | cons v words ih =>
    rw [List.flatMap_cons]
    cases i with
    | zero =>
      obtain rfl := Option.some.inj h
      rw [Nat.zero_mul, List.drop_zero]
      exact List.take_left' v.length_bytes
    | succ i =>
      rw [Nat.succ_mul, Nat.add_comm, ← List.drop_drop, List.drop_left' v.length_bytes]
      exact ih h

/-! ## §2. Writing words. -/

namespace StageTables

variable {t t' : StageTables} {a b v s : Word} {pages i : Nat} {done : List Page}

/-- An address has a place in the image exactly if it is that of a word there. -/
theorem wordIndex_eq_ok_iff :
    t.wordIndex a = .ok i
      ↔ a.toNat = t.base.toNat + i * entryBytes ∧ i * entryBytes + entryBytes ≤ t.used := by
  unfold wordIndex
  rw [require_bind_eq_ok_iff]
  show _ ∧ Except.ok _ = Except.ok i ↔ _
  simp only [Except.ok.injEq, entryBytes]
  omega

/-- No two addresses have one place. -/
theorem eq_of_wordIndex (ha : t.wordIndex a = .ok i) (hb : t.wordIndex b = .ok i) : a = b := by
  rw [wordIndex_eq_ok_iff] at ha hb
  exact UInt64.toNat_inj.mp (ha.1.trans hb.1.symm)

/-- The words after one more entry was written. -/
def place (t : StageTables) (words : Array Word) (entry : Word × Word) :
    Except Fault (Array Word) := do
  return words.setIfInBounds (← t.wordIndex entry.1) entry.2

/-- The words of the image are written one entry after the other. -/
theorem words_eq_foldlM (t : StageTables) :
    t.words = t.entries.toList.foldlM t.place (.replicate (t.used / entryBytes) 0) := rfl

theorem place_eq_ok {words : Array Word} (h : t.wordIndex a = .ok i) :
    t.place words (a, v) = .ok (words.setIfInBounds i v) := by
  show (t.wordIndex a >>= fun i => pure (words.setIfInBounds i v)) = _
  rw [h]
  rfl

/-- **Entries at different places are all kept, and the other words stay what they are.** -/
theorem foldlM_place {entries : List (Word × Word)}
    (hplace : ∀ e ∈ entries, ∃ i, t.wordIndex e.1 = .ok i)
    (hdistinct : entries.Pairwise fun e f => e.1 ≠ f.1) (words : Array Word) :
    ∃ words', entries.foldlM t.place words = .ok words' ∧ words'.size = words.size
      ∧ (∀ a v i, (a, v) ∈ entries → t.wordIndex a = .ok i → i < words.size →
          words'[i]? = some v)
      ∧ ∀ i, (∀ e ∈ entries, t.wordIndex e.1 ≠ .ok i) → words'[i]? = words[i]? := by
  -- the first entry is written first, and no later one has its place
  induction entries generalizing words with
  | nil => exact ⟨words, rfl, rfl, nofun, fun _ _ => rfl⟩
  | cons e rest ih =>
    obtain ⟨hhead, hrest⟩ := List.pairwise_cons.mp hdistinct
    obtain ⟨j, hj⟩ := hplace e List.mem_cons_self
    obtain ⟨words', hrun, hsize, hwritten, hothers⟩ :=
      ih (fun f hf => hplace f (List.mem_cons_of_mem _ hf)) hrest (words.setIfInBounds j e.2)
    rw [Array.size_setIfInBounds] at hsize hwritten
    refine ⟨words', ?_, hsize, fun a v i hmem hi hlt => ?_, fun i hfree => ?_⟩
    · rw [List.foldlM_cons, place_eq_ok hj]
      exact hrun
    · rcases List.mem_cons.mp hmem with rfl | hmem
      · obtain rfl : j = i := Except.ok.inj (hj.symm.trans hi)
        have hfree : ∀ f ∈ rest, t.wordIndex f.1 ≠ .ok j := fun f hf hsame =>
          hhead f hf (eq_of_wordIndex hi hsame)
        rw [hothers j hfree, Array.getElem?_setIfInBounds, if_pos rfl, if_pos hlt]
      · exact hwritten a v i hmem hi hlt
    · have hne : j ≠ i := fun heq => hfree e List.mem_cons_self (heq ▸ hj)
      rw [hothers i fun f hf => hfree f (List.mem_cons_of_mem _ hf),
        Array.getElem?_setIfInBounds, if_neg hne]

/-- **The words of the image are the entries**, if each has a place there. -/
theorem exists_words (h : ∀ a ∈ t.entries, ∃ i, t.wordIndex a = .ok i) :
    ∃ words, t.words = .ok words ∧ words.size = t.used / entryBytes
      ∧ ∀ a i, t.wordIndex a = .ok i → words[i]? = some ((t.entries[a]?).getD 0) := by
  have hplace : ∀ e ∈ t.entries.toList, ∃ i, t.wordIndex e.1 = .ok i := fun e he => by
    have hmem := Std.TreeMap.mem_toList_iff_getElem?_eq_some.mp he
    exact h e.1 (Std.TreeMap.mem_iff_isSome_getElem?.mpr (Option.isSome_of_mem hmem))
  have hdistinct : t.entries.toList.Pairwise fun e f => e.1 ≠ f.1 :=
    Std.TreeMap.distinct_keys_toList.imp fun hne heq => hne (Std.compare_eq_iff_eq.mpr heq)
  obtain ⟨words, hrun, hsize, hwritten, hothers⟩ :=
    foldlM_place hplace hdistinct (.replicate (t.used / entryBytes) 0)
  rw [Array.size_replicate] at hsize hwritten
  refine ⟨words, (words_eq_foldlM t).trans hrun, hsize, fun a i hi => ?_⟩
  have hlt : i < t.used / entryBytes := by
    have hroom := (wordIndex_eq_ok_iff.mp hi).2
    simp only [entryBytes] at hroom ⊢
    omega
  cases hentry : t.entries[a]? with
  | some v =>
    exact hwritten a v i (Std.TreeMap.mem_toList_iff_getElem?_eq_some.mpr hentry) hi hlt
  | none =>
    -- an entry written there would be one at this address
    have hfree : ∀ e ∈ t.entries.toList, t.wordIndex e.1 ≠ .ok i := by
      intro e he hsame
      have hmem := Std.TreeMap.mem_toList_iff_getElem?_eq_some.mp he
      rw [eq_of_wordIndex hsame hi, hentry] at hmem
      cases hmem
    rw [hothers i hfree, Array.getElem?_replicate, if_pos hlt]
    rfl

/-! ## §3. Where entries stand. -/

/-- The base of the tables is the start of a page. -/
theorem Built.base_mod {x : AddressMap} {p : Platform} {stage : Stage}
    (h : t.Built x p stage pages) : t.base.toNat % 4096 = 0 := by
  obtain ⟨-, -, -, -, haligned⟩ := h.region
  have hroot : t.mode.tableBytes 0 % 4096 = 0 := by cases t.mode <;> decide
  exact Nat.mod_eq_zero_of_dvd (Nat.dvd_trans (Nat.dvd_of_mod_eq_zero hroot)
    (Nat.dvd_of_mod_eq_zero haligned))

/-- Every entry stands in a slot of a table. -/
theorem Filled.isSlot (h : t.Filled pages done) (ha : a ∈ t.entries) :
    ∃ u ∈ t.tables, u.IsSlot a := by
  obtain ⟨v, hv⟩ := Option.isSome_iff_exists.mp (Std.TreeMap.mem_iff_isSome_getElem?.mp ha)
  by_cases hzero : v = 0
  · rw [hzero] at hv
    exact h.blank a hv
  · obtain ⟨q, -, hwrites⟩ := (h.entry a v hzero).mp hv
    exact hwrites.isSlot

/-- Every entry has a place in the image. -/
theorem Filled.exists_wordIndex (h : t.Filled pages done) (hbase : t.base.toNat % 4096 = 0)
    (ha : a ∈ t.entries) : ∃ i, t.wordIndex a = .ok i := by
  obtain ⟨u, hu, hslot⟩ := h.isSlot ha
  have hmod := h.table_aligned hu
  obtain ⟨hstart, hstop⟩ := h.packed.packed.bounds hu
  have hge : u.address.toNat ≤ a.toNat := hslot.start_le
  have hle : a.toNat + 8 ≤ u.extent.stop := hslot.le_stop
  have hwhole : (a.toNat - u.address.toNat) % 8 = 0 := hslot.whole
  rw [← used_eq_total] at hstop
  replace hstart : t.base.toNat ≤ u.address.toNat := hstart
  refine ⟨(a.toNat - t.base.toNat) / entryBytes, wordIndex_eq_ok_iff.mpr ?_⟩
  simp only [entryBytes]
  omega

theorem mem_pin : b ∈ (t.pin a).entries ↔ b = a ∨ b ∈ t.entries := by
  show b ∈ t.entries.insertIfNew a 0 ↔ _
  rw [Std.TreeMap.mem_insertIfNew, Std.compare_eq_iff_eq, eq_comm]

/-- The first table starts at the base. -/
theorem Packed.address_of_head? (h : t.Packed pages) {u : Table} (hu : u ∈ t.tables.head?) :
    u.address = t.base := by
  have hpacked := h.packed
  cases htables : t.tables with
  | nil =>
    rw [htables] at hu
    cases hu
  | cons first rest =>
    rw [htables] at hu hpacked
    cases hu
    exact UInt64.toNat_inj.mp hpacked.1

/-- The last table ends where all tables end. -/
theorem Packed.stop_of_getLast? (h : t.Packed pages) {u : Table} (hu : t.tables.getLast? = some u) :
    u.extent.stop = t.base.toNat + t.used := by
  obtain ⟨init, hinit⟩ := List.getLast?_eq_some_iff.mp hu
  have hpacked := h.packed
  rw [hinit] at hpacked
  have haddress := hpacked.address_eq
  have hstop : u.extent.stop = u.address.toNat + u.bytes := rfl
  rw [used_eq_total, hinit, Table.total_append, Table.total_cons, Table.total_nil]
  omega

/-- The ends of the image hold an entry. -/
structure Ended (t : StageTables) : Prop where
  /-- The tables end within the address space. -/
  fits : t.base.toNat + t.used ≤ Word.count
  /-- There is an entry in the first slot. -/
  first : t.tables ≠ [] → t.base ∈ t.entries
  /-- There is an entry in the last slot. -/
  last : t.tables ≠ [] → ∃ last ∈ t.entries, last.toNat + entryBytes = t.base.toNat + t.used

/-- Where there are no tables, there are no ends. -/
theorem ended_of_isEmpty (h : t.tables = []) : t.Ended where
  fits := by
    rw [used_eq_total, h, Table.total_nil]
    exact Nat.le_of_lt t.base.toNat_lt_size
  first hne := absurd h hne
  last hne := absurd h hne

/-- Setting the ends gives them entries. -/
theorem Packed.ended (h : t.Packed pages) (hpin : t.pinEnds = .ok t') : t'.Ended := by
  unfold pinEnds at hpin
  split at hpin
  next first last hfirst hlast =>
    simp only [bind_eq_ok_iff, demand_eq_ok_iff, pure, Except.pure, Except.ok.injEq,
      Word.ofNat?_eq_some_iff] at hpin
    obtain ⟨stop, hstop, rfl⟩ := hpin
    have hend : stop.toNat = t.base.toNat + t.used := hstop.symm.trans (h.stop_of_getLast? hlast)
    refine ⟨?_, fun _ => ?_, fun _ => ⟨stop - .ofNat entryBytes, ?_, ?_⟩⟩
    · show t.base.toNat + t.used ≤ Word.count
      rw [← hend]
      exact Nat.le_of_lt stop.toNat_lt_size
    · exact mem_pin.mpr (.inr (mem_pin.mpr (.inl (h.address_of_head? hfirst).symm)))
    · exact mem_pin.mpr (.inl rfl)
    · -- the last slot ends where its table does, so nothing wraps around
      have hle : 8 ≤ stop.toNat := by
        have hpos := last.level.entries_pos
        have hbytes : last.address.toNat + 8 * last.level.entries = stop.toNat := hstop
        omega
      have hsub : (stop - .ofNat entryBytes).toNat = stop.toNat - 8 :=
        UInt64.toNat_sub_of_le _ _ (UInt64.le_iff_toNat_le.mpr hle)
      show (stop - .ofNat entryBytes).toNat + 8 = t.base.toNat + t.used
      omega
  next hnone =>
    cases hpin
    refine ended_of_isEmpty ?_
    cases htables : t.tables with
    | nil => rfl
    | cons u rest =>
      rw [htables] at hnone
      exact (hnone u _ rfl (List.getLast?_eq_some_getLast (List.cons_ne_nil u rest))).elim

/-! ## §4. The bytes. -/

/-- The bytes say what the entries of the tables say. -/
structure ImageOf (t : StageTables) (bytes : List UInt8) : Prop where
  /-- There are as many bytes as the tables have. -/
  length_eq : bytes.length = t.used
  /-- Every eight bytes are the entry at their address, or zero where there is none. -/
  word : ∀ o, o % entryBytes = 0 → o < t.used → ∃ a : Word, a.toNat = t.base.toNat + o
    ∧ littleEndian ((bytes.drop o).take entryBytes) = ((t.entries[a]?).getD 0).toNat
  /-- Every entry is that of eight such bytes. -/
  inside : ∀ a ∈ t.entries, t.base.toNat ≤ a.toNat ∧ (a.toNat - t.base.toNat) % entryBytes = 0
    ∧ a.toNat + entryBytes ≤ t.base.toNat + t.used

/-- **There is an image**, if every entry has a place in it. -/
theorem exists_image (hfits : t.base.toNat + t.used ≤ Word.count)
    (hused : t.used % entryBytes = 0) (h : ∀ a ∈ t.entries, ∃ i, t.wordIndex a = .ok i) :
    ∃ bytes, t.image = .ok bytes ∧ t.ImageOf bytes := by
  obtain ⟨words, hwords, hsize, hentries⟩ := exists_words h
  refine ⟨words.toList.flatMap Word.bytes, ?_, ?_, fun o hmod hlt => ?_, fun a ha => ?_⟩
  · rw [image, hwords]
    rfl
  · rw [length_flatMap_bytes, Array.length_toList, hsize]
    exact Nat.div_mul_cancel (Nat.dvd_of_mod_eq_zero hused)
  · obtain ⟨i, rfl⟩ : ∃ i, o = i * entryBytes :=
      ⟨o / entryBytes, (Nat.div_mul_cancel (Nat.dvd_of_mod_eq_zero hmod)).symm⟩
    have hroom : i * entryBytes + entryBytes ≤ t.used := by
      simp only [entryBytes] at hused hlt ⊢
      omega
    have haddress : (UInt64.ofNat (t.base.toNat + i * entryBytes)).toNat
        = t.base.toNat + i * entryBytes := Word.toNat_ofNat_of_lt (by omega)
    refine ⟨_, haddress, ?_⟩
    have hword := hentries _ i (wordIndex_eq_ok_iff.mpr ⟨haddress, hroom⟩)
    rw [← Array.getElem?_toList] at hword
    rw [take_drop_flatMap_bytes hword, littleEndian_bytes]
  · obtain ⟨i, hi⟩ := h a ha
    obtain ⟨haddress, hroom⟩ := wordIndex_eq_ok_iff.mp hi
    refine ⟨by omega, ?_, by omega⟩
    rw [haddress, Nat.add_sub_cancel_left]
    exact Nat.mul_mod_left _ _

/-- Memory that holds the image reads as the entries do. -/
theorem ImageOf.sameEntries {bytes : List UInt8} (h : t.ImageOf bytes)
    (hbase : t.base.toNat % entryBytes = 0) :
    SameEntries (Memory.word? ⟨t.base, bytes⟩) (t.entries[·]?) := by
  intro a ha v hv
  have hstop : (Memory.extent ⟨t.base, bytes⟩).stop = t.base.toNat + t.used := by
    rw [← h.length_eq]
    rfl
  unfold Memory.word?
  rw [hstop]
  by_cases hinside : t.base.toNat ≤ a.toNat ∧ a.toNat + entryBytes ≤ t.base.toNat + t.used
  · rw [if_pos hinside]
    obtain ⟨b, hb, hword⟩ := h.word (a.toNat - t.base.toNat)
      (by simp only [entryBytes] at *; omega) (by simp only [entryBytes] at *; omega)
    obtain rfl : b = a := UInt64.toNat_inj.mp (by omega)
    show some (UInt64.ofNat (littleEndian ((bytes.drop _).take entryBytes))) = some v
      ↔ t.entries[b]? = some v
    rw [hword, UInt64.ofNat_toNat]
    cases t.entries[b]? with
    | none => simp [Ne.symm hv]
    | some w => simp
  · rw [if_neg hinside]
    constructor
    · intro hread
      cases hread
    · intro hentry
      obtain ⟨hle, -, hroom⟩ := h.inside a
        (Std.TreeMap.mem_iff_isSome_getElem?.mpr (Option.isSome_of_mem hentry))
      exact absurd ⟨hle, hroom⟩ hinside

end StageTables

/-! ## §5. The control register. -/

namespace Token

theorem toNat_root (token : Word) : (root token).toNat = token.toNat % twoPow 44 * 4096 := by
  have hlt := Nat.mod_lt token.toNat (twoPow_pos 44)
  have hfield : (rootField.extract token).toNat = token.toNat % twoPow 44 := by
    rw [BitRun.toNat_extract]
    show token.toNat / 1 % twoPow 44 = _
    rw [Nat.div_one]
  have hcount : twoPow 44 * 4096 ≤ Word.count := by decide
  unfold root
  rw [hfield]
  exact Word.toNat_ofNat_of_lt (Nat.lt_of_lt_of_le (Nat.mul_lt_mul_of_pos_right hlt (by decide))
    hcount)

/-- The root that a control register names is within the reach of entries. -/
theorem root_lt (token : Word) : (root token).toNat < Entry.reach := by
  have hlt := Nat.mod_lt token.toNat (twoPow_pos 44)
  rw [toNat_root]
  exact Nat.mul_lt_mul_of_pos_right hlt (by decide)

/-- The control register keeps a root at a page, up to the reach of entries. -/
theorem toNat_root_encode (m : Mode) {base : Word} (h : base.toNat % 4096 = 0) :
    (root (encode m base)).toNat = base.toNat % Entry.reach := by
  have hpage : (UInt64.ofNat (base.toNat / PageSize.size4K.bytes)).toNat = base.toNat / 4096 :=
    Word.toNat_ofNat_of_lt (Nat.lt_of_le_of_lt (Nat.div_le_self _ _) base.toNat_lt_size)
  rw [toNat_root, encode, UInt64.toNat_add, BitField.toNat_place, BitField.toNat_place, hpage]
  simp only [modeField, rootField, BitField.bits, BitRun.width, Entry.reach, twoPow, Nat.pow_eq,
    Nat.reducePow, Nat.reduceSub, Nat.reduceAdd]
  omega

end Token

/-! ## §6. Walking the image. -/

namespace StageTables

variable {t : StageTables} {pages : Nat} {done : List Page} {bytes : List UInt8}

/-- Where the bytes are those of no tables, nothing is translated. -/
theorem translate_of_isEmpty (hm : t.mode.isPaged) (h : t.ImageOf bytes) (hused : t.used = 0)
    (token b : Word) : (Memory.mk t.base bytes).translate t.mode token b = .ok none := by
  unfold Memory.translate
  cases hcanonical : t.mode.canonical? b with
  | none => rfl
  | some s =>
    have hroot := Token.root_lt token
    obtain ⟨l, rest, hlevels⟩ := List.exists_cons_of_ne_nil (Mode.isPaged_iff.mp hm)
    have hbytes := Mode.tableBytes_le (l := l) (m := t.mode) (hlevels ▸ List.mem_cons_self)
    have hroom : Entry.reach + 16384 ≤ Word.count := by decide
    have hend : (Token.root token).toNat + l.tableBytes ≤ Word.count := by omega
    obtain ⟨a, hslot⟩ := Table.exists_slotAt hend s
    show walk _ _ _ t.mode.levels _ = _
    rw [hlevels]
    refine walk_blank hslot fun v _ hread => ?_
    -- no byte, so no word
    unfold Memory.word? at hread
    split at hread
    next hinside =>
      have hstop : (Memory.extent ⟨t.base, bytes⟩).stop = t.base.toNat + bytes.length := rfl
      rw [hstop, h.length_eq, hused] at hinside
      have hpos : 0 < entryBytes := by decide
      replace hinside : t.base.toNat ≤ a.toNat ∧ a.toNat + entryBytes ≤ t.base.toNat + 0 := hinside
      omega
    next => cases hread

/-- **The bytes and the control register lead where the entries lead**, if the tables are within the
reach of entries. -/
theorem Packed.translate_image (h : t.Packed pages) (hm : t.mode.isPaged)
    (hbase : t.base.toNat % 4096 = 0) (hreach : t.base.toNat + t.used ≤ Entry.reach)
    (himage : t.ImageOf bytes) (b : Word) :
    (Memory.mk t.base bytes).translate t.mode t.token b = t.translate b := by
  cases htables : t.tables with
  | nil =>
    have hused : t.used = 0 := by rw [used_eq_total, htables, Table.total_nil]
    rw [translate_of_isEmpty hm himage hused]
    unfold translate
    rw [htables]
    cases t.mode.canonical? b <;> rfl
  | cons root rest =>
    have hroot : root.address = t.base := h.address_of_head? (htables ▸ rfl)
    have hlt : t.base.toNat < Entry.reach := by
      have hpos := root.bytes_pos
      rw [used_eq_total, htables, Table.total_cons] at hreach
      omega
    have htoken : Token.root t.token = t.base := by
      rw [← UInt64.toNat_inj, token, Token.toNat_root_encode _ hbase, Nat.mod_eq_of_lt hlt]
    have hword : t.base.toNat % entryBytes = 0 := by
      simp only [entryBytes]
      omega
    unfold translate Memory.translate
    rw [htables, htoken]
    cases t.mode.canonical? b with
    | none => rfl
    | some s =>
      show walk _ _ _ _ t.base = walk _ _ _ _ root.address
      rw [hroot]
      exact walk_congr hm (himage.sameEntries hword) hword

/-! ## §7. The image of tables that were built. -/

variable {x : AddressMap} {p : Platform} {stage : Stage}

/-- Tables that were built have their ends set. -/
theorem ended_of_ofMap (h : (ofMap x p stage pages).outcome = .ok t) : t.Ended := by
  simp only [ofMap, Run.bind_outcome_eq_ok_iff, Run.liftRefusal_eq_ok_iff,
    Run.liftFault_eq_ok_iff, Run.pure_outcome_eq_ok_iff] at h
  obtain ⟨t₀, hstart, t₁, hrun, t₂, hends, -, -, rfl⟩ := h
  obtain ⟨-, -, m, -, -, -, rfl⟩ := startTables_eq_ok_iff.mp hstart
  exact (filled_of_mapAll (filled_start _ _ _) hrun).1.packed.ended hends

/-- Tables that were built have an image. -/
theorem exists_image_of_ofMap (h : (ofMap x p stage pages).outcome = .ok t) :
    ∃ bytes, t.image = .ok bytes ∧ t.ImageOf bytes := by
  have hbuilt := built_of_ofMap h
  have hused : t.used % entryBytes = 0 := by
    have hmod := hbuilt.filled.packed.used_mod
    simp only [entryBytes]
    omega
  exact exists_image (ended_of_ofMap h).fits hused fun a ha =>
    hbuilt.filled.exists_wordIndex hbuilt.base_mod ha

/-- The entry at the lower end comes first of all, and the one at the upper end last. -/
theorem Ended.keys (h : t.Ended) (himage : t.ImageOf bytes) (hne : t.tables ≠ []) :
    t.entries.minKey? = some t.base
      ∧ ∃ last, t.entries.maxKey? = some last
        ∧ last.toNat + entryBytes = t.base.toNat + t.used := by
  obtain ⟨last, hmem, hlast⟩ := h.last hne
  refine ⟨?_, last, ?_, hlast⟩
  · refine Std.TreeMap.minKey?_eq_some_iff_mem_and_forall.mpr ⟨h.first hne, fun a ha => ?_⟩
    rw [Std.isLE_compare, UInt64.le_iff_toNat_le]
    exact (himage.inside a ha).1
  · refine Std.TreeMap.maxKey?_eq_some_iff_mem_and_forall.mpr ⟨hmem, fun a ha => ?_⟩
    obtain ⟨-, -, hroom⟩ := himage.inside a ha
    rw [Std.isLE_compare, UInt64.le_iff_toNat_le]
    omega

/-- **IMAGE, ENTRIES AND CONTROL REGISTER SAY THE SAME**: the image of tables that were built has
their bytes, each word is the entry at its address or zero, no entry stands outside, and with a
table there are entries at both ends.  Within the reach of entries, the image and the control
register lead every source address where the entries lead it. -/
theorem ofMap_image (ht : (ofMap x p stage pages).outcome = .ok t) :
    ∃ bytes, t.image = .ok bytes ∧ t.ImageOf bytes
      ∧ (t.tables ≠ [] → t.entries.minKey? = some t.base
        ∧ ∃ last, t.entries.maxKey? = some last
          ∧ last.toNat + entryBytes = t.base.toNat + t.used)
      ∧ (t.base.toNat + t.used ≤ Entry.reach → ∀ b, ∃ o, t.translate b = .ok o
        ∧ (Memory.mk t.base bytes).translate t.mode t.token b = .ok o) := by
  have hbuilt := built_of_ofMap ht
  have hended := ended_of_ofMap ht
  have hpacked := hbuilt.filled.packed
  obtain ⟨bytes, hbytes, himage⟩ := exists_image_of_ofMap ht
  refine ⟨bytes, hbytes, himage, hended.keys himage, fun hreach b => ?_⟩
  obtain ⟨o, ho⟩ := hpacked.translate_eq_ok hbuilt.isPaged hended.fits b
  exact ⟨o, ho, (hpacked.translate_image hbuilt.isPaged hbuilt.base_mod hreach himage b).trans ho⟩

open AddressMap in
/-- The small image has six tables, and the machine that has only their bytes finds what the entries
say. -/
theorem smallImage_image : ∃ t bytes,
    (ofMap (collect smallImage) threeLevels .s 8).outcome = .ok t
      ∧ t.image = .ok bytes ∧ bytes.length = t.used ∧ t.entries.minKey? = some t.base
      ∧ ∀ b, (Memory.mk t.base bytes).translate t.mode t.token b = t.translate b := by
  obtain ⟨t, ht, hreach, hlength⟩ := smallImage_tables
  obtain ⟨bytes, hbytes, himage, hends, hwalk⟩ := ofMap_image ht
  refine ⟨t, bytes, ht, hbytes, himage.length_eq, (hends fun hnil => ?_).1, fun b => ?_⟩
  · rw [hnil] at hlength
    cases hlength
  · obtain ⟨o, ho, hmemory⟩ := hwalk hreach b
    rw [ho, hmemory]

end StageTables

end FirmwareMap
