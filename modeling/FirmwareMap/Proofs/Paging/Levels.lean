/-
  FirmwareMap.Proofs.Paging.Levels
  ────────────────────────────────
  **HOW THE LEVELS OF A MODE NEST.**

  At each level the source addresses fall into pages of the level's size.  A
  table covers as many pages as it has entries, and the entry for an address
  is told by the number of its page:

      page number  =  table number · entries + index
      span of the next level  =  page of this level

  so two addresses share a table and an index exactly when they share a page,
  and addresses that share a page share every table above it.
-/
import FirmwareMap.Paging.Canonical

namespace FirmwareMap

/-- A multiple below another multiple leaves room for one more. -/
theorem add_le_of_dvd_of_lt {b n k : Nat} (hn : b ∣ n) (hk : b ∣ k) (h : n < k) : n + b ≤ k := by
  have hle := Nat.le_of_dvd (Nat.sub_pos_of_lt h) (Nat.dvd_sub hk hn)
  omega

/-! ## §1. Pages of a level. -/

namespace Level

/-- The number of the page, among pages of the level's size, that holds a source address. -/
def pageNumber (l : Level) (source : Word) : Nat :=
  source.toNat / l.page.bytes

theorem entries_pos (l : Level) : 0 < l.entries :=
  twoPow_pos _

theorem tableBytes_pos (l : Level) : 0 < l.tableBytes :=
  Nat.mul_pos (by decide) l.entries_pos

/-- The first addresses of two tables agree when the addresses share a table. -/
theorem tableStart_eq_iff {l : Level} {s r : Word} :
    l.tableStart s = l.tableStart r ↔ s.toNat / l.span = r.toNat / l.span := by
  rw [← UInt64.toNat_inj, toNat_tableStart, toNat_tableStart]
  exact Nat.mul_right_cancel_iff l.span_pos

/-- Every table starts at a multiple of what it covers. -/
theorem tableStart_mod_span (l : Level) (s : Word) : (l.tableStart s).toNat % l.span = 0 := by
  rw [toNat_tableStart]
  exact Nat.mul_mod_left _ _

/-- The table for the first address of a table is that table. -/
theorem tableStart_tableStart (l : Level) (s : Word) :
    l.tableStart (l.tableStart s) = l.tableStart s := by
  rw [tableStart_eq_iff, toNat_tableStart, Nat.mul_div_cancel _ l.span_pos]

end Level

namespace Mode

variable {m : Mode} {l k : Level}

/-- A table covers a page of the level for each of its entries. -/
theorem span_eq (h : l ∈ m.levels) : l.span = l.page.bytes * l.entries := by
  rw [Level.span, ← BitRun.width_add_lsb, index_lsb h, Nat.add_comm, twoPow_add]
  rfl

theorem toNat_index (h : l ∈ m.levels) (s : Word) :
    (l.index.extract s).toNat = l.pageNumber s % l.entries := by
  rw [BitRun.toNat_extract, index_lsb h]
  rfl

theorem tableNumber_eq (h : l ∈ m.levels) (s : Word) :
    s.toNat / l.span = l.pageNumber s / l.entries := by
  rw [span_eq h, Level.pageNumber, Nat.div_div_eq_div_mul]

/-- **Sharing a table and an index is sharing a page.** -/
theorem pageNumber_eq_iff (h : l ∈ m.levels) {s r : Word} :
    l.pageNumber s = l.pageNumber r
      ↔ l.tableStart s = l.tableStart r
        ∧ (l.index.extract s).toNat = (l.index.extract r).toNat := by
  rw [Level.tableStart_eq_iff, tableNumber_eq h, tableNumber_eq h, toNat_index h, toNat_index h]
  constructor
  · intro hn
    rw [hn]
    exact ⟨rfl, rfl⟩
  · intro hgiven
    obtain ⟨hdiv, hmod⟩ := hgiven
    rw [← Nat.div_add_mod (l.pageNumber s) l.entries, hdiv, hmod, Nat.div_add_mod]

/-! ## §2. One level below another. -/

/-- A level is known by its depth. -/
theorem eq_of_depth_eq (hl : l ∈ m.levels) (hk : k ∈ m.levels) (h : l.depth = k.depth) : l = k := by
  have hlk := levels_getElem?_depth hl
  rw [h, levels_getElem?_depth hk] at hlk
  exact (Option.some.inj hlk).symm

/-- Pages shrink from level to level, each as large as a table of the next level covers. -/
theorem levels_nest (m : Mode) : ∀ l ∈ m.levels, ∀ k ∈ m.levels,
    (k.depth = l.depth + 1 → k.index.msb + 1 = l.page.bits)
      ∧ (l.depth ≤ k.depth → k.page.bits ≤ l.page.bits) := by
  cases m <;> decide

/-- The tables of a level cover the pages of the level above. -/
theorem span_eq_page (hl : l ∈ m.levels) (hk : k ∈ m.levels) (h : k.depth = l.depth + 1) :
    k.span = l.page.bytes := by
  rw [Level.span, (levels_nest m l hl k hk).1 h]
  rfl

/-- The root covers every address that the mode translates. -/
theorem span_root (hl : l ∈ m.levels) (h : l.depth = 0) : l.span = m.sourceCount := by
  have hbits : l.index.msb + 1 = m.sourceBits := by
    revert l
    cases m <;> decide
  rw [Level.span, hbits]
  rfl

/-- Pages of a deeper level subdivide those of a shallower one. -/
theorem page_dvd (hl : l ∈ m.levels) (hk : k ∈ m.levels) (h : l.depth ≤ k.depth) :
    k.page.bytes ∣ l.page.bytes :=
  twoPow_dvd_twoPow ((levels_nest m l hl k hk).2 h)

/-- Addresses that share a page of some level share one of every level above. -/
theorem pageNumber_eq_of_le (hl : l ∈ m.levels) (hk : k ∈ m.levels) (h : l.depth ≤ k.depth)
    {s r : Word} (hp : k.pageNumber s = k.pageNumber r) : l.pageNumber s = l.pageNumber r := by
  obtain ⟨n, hn⟩ := page_dvd hl hk h
  unfold Level.pageNumber at hp ⊢
  rw [hn, ← Nat.div_div_eq_div_mul, ← Nat.div_div_eq_div_mul, hp]

/-- Addresses that share a page share the table of the next level. -/
theorem tableStart_eq_of_pageNumber (hl : l ∈ m.levels) (hk : k ∈ m.levels)
    (h : k.depth = l.depth + 1) {s r : Word} :
    k.tableStart s = k.tableStart r ↔ l.pageNumber s = l.pageNumber r := by
  rw [Level.tableStart_eq_iff, span_eq_page hl hk h]
  exact Iff.rfl

/-- Every address that is translated is in the one table of the root. -/
theorem tableStart_root (hl : l ∈ m.levels) (h : l.depth = 0) {s : Word}
    (hs : s.toNat < m.sourceCount) : l.tableStart s = 0 := by
  rw [← UInt64.toNat_inj, Level.toNat_tableStart, span_root hl h, Nat.div_eq_of_lt hs, Nat.zero_mul]
  rfl

/-! ## §3. Bytes of tables and pages. -/

/-- Tables below the root take one page of the smallest size. -/
theorem tableBytes_of_pos (hl : l ∈ m.levels) (h : 0 < l.depth) : l.tableBytes = 4096 := by
  revert l
  cases m <;> decide

theorem tableBytes_mod (hl : l ∈ m.levels) : l.tableBytes % 4096 = 0 := by
  revert l
  cases m <;> decide

/-- Half of the translated addresses are a whole number of pages. -/
theorem page_dvd_half (hl : l ∈ m.levels) : l.page.bytes ∣ m.sourceCount / 2 := by
  have hbits : l.page.bits + 1 ≤ m.sourceBits := by
    revert l
    cases m <;> decide
  have hhalf : m.sourceCount / 2 = twoPow (m.sourceBits - 1) := by
    rw [sourceCount, show m.sourceBits = m.sourceBits - 1 + 1 by omega, twoPow_add]
    exact Nat.mul_div_cancel _ (by decide)
  rw [hhalf]
  exact twoPow_dvd_twoPow (by omega)

theorem page_dvd_count (hl : l ∈ m.levels) : l.page.bytes ∣ m.sourceCount := by
  have heven : m.sourceCount = m.sourceCount / 2 * 2 := by cases m <;> rfl
  rw [heven]
  exact Nat.dvd_trans (page_dvd_half hl) (Nat.dvd_mul_right _ _)

end Mode

theorem PageSize.bytes_mod (size : PageSize) : size.bytes % 4096 = 0 := by
  cases size <;> decide

/-! ## §4. Pages and their translated bits. -/

namespace Mode

variable {m : Mode} {l : Level}

/-- Whether the upper bits are set is the same all over a page. -/
theorem isNegative_congr (hl : l ∈ m.levels) {s r : Word} (h : l.pageNumber s = l.pageNumber r) :
    m.IsNegative s.toNat ↔ m.IsNegative r.toNat := by
  obtain ⟨n, hn⟩ := page_dvd_half hl
  have hpos := l.page.bytes_pos
  unfold Level.pageNumber at h
  rw [IsNegative, IsNegative, hn, Nat.mul_comm, ← Nat.le_div_iff_mul_le hpos,
    ← Nat.le_div_iff_mul_le hpos, h]

theorem lt_sourceCount_congr (hl : l ∈ m.levels) {s r : Word}
    (h : l.pageNumber s = l.pageNumber r) (hs : s.toNat < m.sourceCount) :
    r.toNat < m.sourceCount := by
  obtain ⟨n, hn⟩ := page_dvd_count hl
  unfold Level.pageNumber at h
  rw [hn, Nat.mul_comm, ← Nat.div_lt_iff_lt_mul l.page.bytes_pos] at hs ⊢
  omega

/-- Within a page, addresses lie as far apart as their translated bits. -/
theorem extend_add (hl : l ∈ m.levels) {s r : Word} (h : l.pageNumber s = l.pageNumber r) :
    m.extend s.toNat + r.toNat = m.extend r.toNat + s.toNat := by
  unfold extend
  simp only [isNegative_congr hl h]
  split <;> omega

/-- An address at the start of a page has translated bits at the start of a page. -/
theorem mod_page_of_extend (hl : l ∈ m.levels) {s : Nat} (h : m.extend s % l.page.bytes = 0) :
    s % l.page.bytes = 0 := by
  have hdvd : l.page.bytes ∣ Word.count - m.sourceCount :=
    Nat.dvd_sub (Nat.dvd_trans (page_dvd_count hl) (twoPow_dvd_twoPow m.sourceBits_le))
      (page_dvd_count hl)
  unfold extend at h
  split at h
  · rwa [Nat.add_mod, Nat.mod_eq_zero_of_dvd hdvd, Nat.add_zero, Nat.mod_mod] at h
  · exact h

/-- In the page at `a`, an address lies as far from the start as its translated bits do. -/
theorem sub_of_pageNumber (hl : l ∈ m.levels) {a s b r : Word} (ha : m.canonical? a = some s)
    (halign : a.toNat % l.page.bytes = 0) (hb : m.canonical? b = some r)
    (hpage : l.pageNumber s = l.pageNumber r) :
    a.toNat ≤ b.toNat ∧ b.toNat - a.toNat = r.toNat % l.page.bytes := by
  obtain ⟨has, -⟩ := canonical?_eq_some_iff.mp ha
  obtain ⟨hbr, -⟩ := canonical?_eq_some_iff.mp hb
  rw [has] at halign
  have hsmod := mod_page_of_extend hl halign
  have hsmul := Nat.div_add_mod s.toNat l.page.bytes
  have hrmul := Nat.div_add_mod r.toNat l.page.bytes
  have hext := extend_add hl hpage
  unfold Level.pageNumber at hpage
  rw [hpage] at hsmul
  omega

/-- **A page of source addresses is a page of translated bits**: the addresses within the page at
`a` are those whose translated bits lie in the page of `a`'s. -/
theorem mem_page_iff (hl : l ∈ m.levels) {a s : Word} (ha : m.canonical? a = some s)
    (halign : a.toNat % l.page.bytes = 0) {b : Word} :
    a.toNat ≤ b.toNat ∧ b.toNat < a.toNat + l.page.bytes
      ↔ ∃ r, m.canonical? b = some r ∧ l.pageNumber s = l.pageNumber r := by
  obtain ⟨has, hs⟩ := canonical?_eq_some_iff.mp ha
  have hpos := l.page.bytes_pos
  constructor
  · intro h
    obtain ⟨hle, hlt⟩ := h
    rw [has] at halign
    have hsmod := mod_page_of_extend hl halign
    have hsmul := Nat.div_add_mod s.toNat l.page.bytes
    -- the candidate lies as far into the page of translated bits
    obtain ⟨o, ho⟩ := Nat.exists_eq_add_of_le hle
    have hodd : o < l.page.bytes := by omega
    have hfit : s.toNat + o < Word.count := by
      obtain ⟨n, hn⟩ := Nat.dvd_trans (page_dvd_count hl) (twoPow_dvd_twoPow m.sourceBits_le)
      have hcount : Word.count = l.page.bytes * n := hn
      have hlt' : s.toNat / l.page.bytes < n := by
        rw [Nat.div_lt_iff_lt_mul hpos, Nat.mul_comm, ← hcount]
        exact s.toNat_lt_size
      have := Nat.mul_le_mul_left l.page.bytes hlt'
      rw [Nat.mul_succ] at this
      omega
    have hr : (UInt64.ofNat (s.toNat + o)).toNat = s.toNat + o := Word.toNat_ofNat_of_lt hfit
    have hpage : l.pageNumber s = l.pageNumber (.ofNat (s.toNat + o)) := by
      unfold Level.pageNumber
      rw [hr, ← hsmul, hsmod, Nat.add_zero, Nat.mul_add_div hpos, Nat.mul_div_cancel_left _ hpos,
        Nat.div_eq_of_lt hodd, Nat.add_zero]
    refine ⟨.ofNat (s.toNat + o), ?_, hpage⟩
    rw [canonical?_eq_some_iff]
    refine ⟨?_, lt_sourceCount_congr hl hpage hs⟩
    have := extend_add hl hpage
    omega
  · intro h
    obtain ⟨r, hb, hpage⟩ := h
    obtain ⟨hle, hsub⟩ := sub_of_pageNumber hl ha halign hb hpage
    have hrlt := Nat.mod_lt r.toNat hpos
    omega

end Mode

end FirmwareMap
