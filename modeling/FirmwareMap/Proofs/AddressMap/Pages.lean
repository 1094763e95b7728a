/-
  FirmwareMap.Proofs.AddressMap.Pages
  ───────────────────────────────────
  **THE PAGES OF A STAGE.**

  A mapping that a stage translates is mapped page by page.  Page `i` starts
  `i` pages into the mapping on either side, so the pages fill the source
  range without a gap and without meeting each other:

      a ∈ source range  ↔  a ∈ page i for some i < count

  In an accepted map no two mappings of a stage share a source address, hence
  no two pages of the stage do, wherever they come from.
-/
import FirmwareMap.Proofs.AddressMap.Acceptance
import FirmwareMap.Proofs.Paging.Levels
import FirmwareMap.Tables.Fill

namespace FirmwareMap

/-- The range of source addresses of a page. -/
def Page.extent (q : Page) : Extent :=
  ⟨q.source.toNat, q.size.bytes⟩

/-- The page starts in its own range. -/
theorem Page.source_mem_extent (q : Page) : q.source.toNat ∈ q.extent :=
  ⟨Nat.le_refl _, Nat.lt_add_of_pos_right q.size.bytes_pos⟩

/-- Each page starts at a multiple of its size, and no page starts within another. -/
structure Page.Apart (ps : List Page) : Prop where
  /-- The source address is a multiple of the size. -/
  aligned : ∀ q ∈ ps, q.source.toNat % q.size.bytes = 0
  /-- A page that starts within a page is that page. -/
  eq_of_mem : ∀ q ∈ ps, ∀ r ∈ ps, r.source.toNat ∈ q.extent → r = q

theorem Page.Apart.subset {ps qs : List Page} (h : Page.Apart qs) (hsub : ps ⊆ qs) :
    Page.Apart ps where
  aligned q hq := h.aligned q (hsub hq)
  eq_of_mem q hq r hr := h.eq_of_mem q (hsub hq) r (hsub hr)

/-! ## §1. The pages of a mapping. -/

namespace Mapping

/-- The page of a view that has so many pages before it, where all of it lies among the words. -/
def page (v : View) (b : Block) (i : Nat) : Page where
  source := .ofNat (v.source.toNat + i * b.page.bytes)
  size := b.page
  leaf := .mapped (.ofNat (b.dest.toNat + i * b.page.bytes)) v.permissions v.user v.pbmt v.valid

/-- The pages that a stage sees, in ascending order. -/
def pageList (m : Mapping) : List Page :=
  match m.view? with
  | none => []
  | some v => (List.range m.block.count.toNat).map (page v m.block)

variable {m : Mapping} {v : View} {b : Block} {i j : Nat} {q : Page}

theorem eq_page_of_pageAt (h : pageAt v b i = .ok q) : q = page v b i := by
  rw [pageAt, bind_eq_ok_iff] at h
  obtain ⟨frame, hframe, h⟩ := h
  rw [demand_eq_ok_iff, Word.ofNat?_eq_some_iff] at hframe
  cases h
  rw [page, hframe, UInt64.ofNat_toNat]

theorem eq_pageList_of_pages {l : List Page} (h : m.pages = .ok l) : l = m.pageList := by
  unfold pages at h
  unfold pageList
  cases hv : m.view? with
  | none =>
    rw [hv] at h
    cases h
    rfl
  | some v =>
    rw [hv] at h
    exact eq_map_of_mapM_eq_ok (fun i q => eq_page_of_pageAt) h

theorem mem_pageList :
    q ∈ m.pageList ↔ ∃ v ∈ m.view?, ∃ i < m.block.count.toNat, q = page v m.block i := by
  unfold pageList
  cases m.view? with
  | none => simp
  | some v => simp [eq_comm]

/-- The number of pages that a stage sees. -/
def pageCount (m : Mapping) : Nat :=
  if m.view?.isSome then m.block.count.toNat else 0

theorem length_pageList (m : Mapping) : m.pageList.length = m.pageCount := by
  unfold pageList pageCount
  cases m.view? <;> simp

theorem getElem?_pageList :
    m.pageList[i]? = some q ↔ ∃ v ∈ m.view?, i < m.block.count.toNat ∧ q = page v m.block i := by
  unfold pageList
  cases m.view? with
  | none => simp
  | some v =>
    simp only [List.getElem?_map, Option.map_eq_some_iff, List.getElem?_eq_some_iff,
      List.getElem_range, List.length_range, Option.mem_def, Option.some.injEq]
    constructor
    · intro h
      obtain ⟨_, ⟨hi, rfl⟩, rfl⟩ := h
      exact ⟨v, rfl, hi, rfl⟩
    · intro h
      obtain ⟨_, rfl, hi, rfl⟩ := h
      exact ⟨i, ⟨hi, rfl⟩, rfl⟩

namespace Bounded

/-- The first `i` pages leave room for one more. -/
theorem mul_add_le (hi : i < b.count.toNat) : i * b.page.bytes + b.page.bytes ≤ b.bytes := by
  rw [← Nat.succ_mul]
  exact Nat.mul_le_mul_right _ hi

/-- A mapping within its bounds has all its pages. -/
theorem pages_eq (h : m.Bounded) : m.pages = .ok m.pageList := by
  unfold pages pageList
  cases hv : m.view? with
  | none => rfl
  | some v =>
    refine mapM_eq_ok_map fun i hi => ?_
    have hroom := mul_add_le (List.mem_range.mp hi)
    have hpos := m.block.page.bytes_pos
    have hstop : m.block.dest.toNat + m.block.bytes < Word.count := h.dest_lt
    have hframe : Word.ofNat? (m.block.dest.toNat + i * m.block.page.bytes)
        = some (.ofNat (m.block.dest.toNat + i * m.block.page.bytes)) :=
      Word.ofNat?_eq_some_iff.mpr (Word.toNat_ofNat_of_lt (by omega)).symm
    rw [pageAt, hframe]
    rfl

theorem toNat_source (h : m.Bounded) (hv : v ∈ m.view?) (hi : i < m.block.count.toNat) :
    (page v m.block i).source.toNat = v.source.toNat + i * m.block.page.bytes := by
  have hstop : v.source.toNat + m.block.bytes ≤ Word.count := h.source_le v hv
  have hroom := mul_add_le hi
  have hpos := m.block.page.bytes_pos
  exact Word.toNat_ofNat_of_lt (by omega)

theorem toNat_frame (h : m.Bounded) (hi : i < m.block.count.toNat) :
    (page v m.block i).leaf.frame.toNat = m.block.dest.toNat + i * m.block.page.bytes := by
  have hstop : m.block.dest.toNat + m.block.bytes < Word.count := h.dest_lt
  have hroom := mul_add_le hi
  exact Word.toNat_ofNat_of_lt (by omega)

/-- Every page starts at a page of its size, on either side. -/
theorem page_aligned (h : m.Bounded) (hq : q ∈ m.pageList) :
    q.source.toNat % q.size.bytes = 0 ∧ q.leaf.frame.toNat % q.size.bytes = 0 := by
  obtain ⟨v, hv, i, hi, rfl⟩ := mem_pageList.mp hq
  have hsize : (page v m.block i).size = m.block.page := rfl
  rw [h.toNat_source hv hi, h.toNat_frame hi, hsize]
  exact ⟨by rw [Nat.add_mul_mod_self_right, h.source_aligned v hv],
    by rw [Nat.add_mul_mod_self_right, h.dest_aligned]⟩

/-- A page ends no later than its mapping. -/
theorem extent_page (h : m.Bounded) (hv : v ∈ m.view?) (hi : i < m.block.count.toNat) :
    (page v m.block i).extent.Within (m.extentFrom v) := by
  have hroom := mul_add_le hi
  have hsource := h.toNat_source hv hi
  have hsize : (page v m.block i).size = m.block.page := rfl
  refine ⟨?_, ?_⟩
  · show v.source.toNat ≤ (page v m.block i).source.toNat
    omega
  · show (page v m.block i).source.toNat + m.block.page.bytes ≤ v.source.toNat + m.block.bytes
    omega

/-- **The pages fill the source range.**  An address lies in the page that as many whole pages
precede as fit between the start of the range and the address. -/
theorem mem_page_iff (h : m.Bounded) (hv : v ∈ m.view?) {n : Nat} :
    i < m.block.count.toNat ∧ n ∈ (page v m.block i).extent
      ↔ n ∈ m.extentFrom v ∧ i = (n - v.source.toNat) / m.block.page.bytes := by
  have hpos := m.block.page.bytes_pos
  have hsize : (page v m.block i).size = m.block.page := rfl
  constructor
  · intro hgiven
    obtain ⟨hi, hn⟩ := hgiven
    refine ⟨Extent.mem_of_within (h.extent_page hv hi) hn, ?_⟩
    obtain ⟨hle, hlt⟩ := Extent.mem_iff.mp hn
    have hsource := h.toNat_source hv hi
    simp only [Page.extent, hsize] at hle hlt
    refine (Nat.div_eq_of_lt_le ?_ ?_).symm
    · omega
    · rw [Nat.succ_mul]
      omega
  · intro hgiven
    obtain ⟨hn, rfl⟩ := hgiven
    obtain ⟨hle, hlt⟩ := Extent.mem_iff.mp hn
    simp only [extentFrom] at hle hlt
    have hi : (n - v.source.toNat) / m.block.page.bytes < m.block.count.toNat := by
      rw [Nat.div_lt_iff_lt_mul hpos]
      show n - v.source.toNat < m.block.bytes
      omega
    have hsource := h.toNat_source hv hi
    have hfloor := Nat.div_mul_le_self (n - v.source.toNat) m.block.page.bytes
    have hceil := Nat.lt_div_mul_add (a := n - v.source.toNat) hpos
    refine ⟨hi, ?_, ?_⟩
    · simp only [Page.extent]
      omega
    · simp only [Page.extent, Extent.stop, page] at hsource ⊢
      omega

/-- The pages of a mapping follow each other. -/
theorem pageList_disjoint (h : m.Bounded) :
    m.pageList.Pairwise fun q r => q.extent.Disjoint r.extent := by
  unfold pageList
  split
  next => exact .nil
  next v hv =>
    rw [List.pairwise_map]
    -- page `i + 1` starts where page `i` ends
    refine List.pairwise_lt_range.imp_of_mem fun {i j} hi hj hij => .inl ?_
    have hsource := h.toNat_source hv (List.mem_range.mp hi)
    have hsource' := h.toNat_source hv (List.mem_range.mp hj)
    have hstep := Nat.mul_le_mul_right m.block.page.bytes (show i + 1 ≤ j from hij)
    rw [Nat.succ_mul] at hstep
    show (page v m.block i).source.toNat + m.block.page.bytes ≤ (page v m.block j).source.toNat
    omega

end Bounded

end Mapping

/-! ## §2. The pages of a stage. -/

namespace AddressMap

/-- The pages of the mappings of a stage, in the order in which they are mapped. -/
def pagesOf (a : AddressMap) (t : Stage) : List Page :=
  (a.entries t).flatMap Mapping.pageList

/-- Page `j` of mapping `i` of a stage. -/
def pageOf? (a : AddressMap) (t : Stage) (i j : Nat) : Option Page :=
  (a.entries t)[i]?.bind fun m => m.pageList[j]?

theorem mem_pagesOf_iff {a : AddressMap} {t : Stage} {q : Page} :
    q ∈ a.pagesOf t ↔ ∃ i j, a.pageOf? t i j = some q := by
  simp only [pagesOf, pageOf?, Option.bind_eq_some_iff]
  rw [List.mem_flatMap]
  constructor
  · intro h
    obtain ⟨m, hm, hq⟩ := h
    obtain ⟨i, hi⟩ := List.mem_iff_getElem?.mp hm
    obtain ⟨j, hj⟩ := List.mem_iff_getElem?.mp hq
    exact ⟨i, j, m, hi, hj⟩
  · intro h
    obtain ⟨i, j, m, hi, hj⟩ := h
    exact ⟨m, List.mem_of_getElem? hi, List.mem_of_getElem? hj⟩

/-- The number of pages that some mappings have for the stage that sees them. -/
def pageTotal (mappings : List Mapping) : Nat :=
  mappings.foldr (fun m n => m.pageCount + n) 0

theorem length_flatMap_pageList (mappings : List Mapping) :
    (mappings.flatMap Mapping.pageList).length = pageTotal mappings := by
  induction mappings with
  | nil => rfl
  | cons m mappings ih =>
    show _ = m.pageCount + pageTotal mappings
    rw [List.flatMap_cons, List.length_append, Mapping.length_pageList, ih]

namespace AcceptedOn

variable {a : AddressMap} {p : Platform} {t : Stage} {q : Page}

theorem page_aligned (h : a.AcceptedOn p) (hq : q ∈ a.pagesOf t) :
    q.source.toNat % q.size.bytes = 0 ∧ q.leaf.frame.toNat % q.size.bytes = 0 := by
  obtain ⟨m, hm, hq⟩ := List.mem_flatMap.mp hq
  exact (h.bounded hm).page_aligned hq

/-- A source address belongs to one of the mappings of a stage. -/
theorem index_unique (h : a.AcceptedOn p) {i j : Nat} {m n : Mapping} {v w : View} {b : Nat}
    (hi : (a.entries t)[i]? = some m) (hj : (a.entries t)[j]? = some n) (hv : v ∈ m.view?)
    (hw : w ∈ n.view?) (hm : b ∈ m.extentFrom v) (hn : b ∈ n.extentFrom w) : i = j := by
  have hsources := (h.coherent t).sources
  rw [List.pairwise_iff_getElem] at hsources
  obtain ⟨hi, hmi⟩ := List.getElem?_eq_some_iff.mp hi
  obtain ⟨hj, hnj⟩ := List.getElem?_eq_some_iff.mp hj
  have hv' : m.extentFrom v ∈ m.sourceExtent? := Option.mem_map_of_mem _ hv
  have hw' : n.extentFrom w ∈ n.sourceExtent? := Option.mem_map_of_mem _ hw
  rcases Nat.lt_trichotomy i j with hlt | heq | hlt
  · have hdisjoint := hsources i j hi hj hlt
    rw [hmi, hnj] at hdisjoint
    exact absurd hn ((hdisjoint _ hv' _ hw').not_mem hm)
  · exact heq
  · have hdisjoint := hsources j i hj hi hlt
    rw [hmi, hnj] at hdisjoint
    exact absurd hm ((hdisjoint _ hw' _ hv').not_mem hn)

/-- A source address belongs to one page of one mapping of a stage. -/
theorem pageOf?_unique (h : a.AcceptedOn p) {i j i' j' : Nat} {r : Page} {b : Nat}
    (hq : a.pageOf? t i j = some q) (hr : a.pageOf? t i' j' = some r) (hbq : b ∈ q.extent)
    (hbr : b ∈ r.extent) : i = i' ∧ j = j' := by
  obtain ⟨m, hi, hj⟩ := Option.bind_eq_some_iff.mp hq
  obtain ⟨n, hi', hj'⟩ := Option.bind_eq_some_iff.mp hr
  obtain ⟨v, hv, hlt, rfl⟩ := Mapping.getElem?_pageList.mp hj
  obtain ⟨w, hw, hlt', rfl⟩ := Mapping.getElem?_pageList.mp hj'
  -- the mapping is told by the address, and the page by how far into the mapping the address lies
  obtain ⟨hm, hindex⟩ := ((h.bounded (List.mem_of_getElem? hi)).mem_page_iff hv).mp ⟨hlt, hbq⟩
  obtain ⟨hn, hindex'⟩ := ((h.bounded (List.mem_of_getElem? hi')).mem_page_iff hw).mp ⟨hlt', hbr⟩
  obtain rfl := h.index_unique hi hi' hv hw hm hn
  obtain rfl := Option.some.inj (hi.symm.trans hi')
  obtain rfl := Option.some.inj (hv.symm.trans hw)
  exact ⟨rfl, hindex.trans hindex'.symm⟩

/-- Frames start at pages of the smallest size. -/
theorem frame_mod (h : a.AcceptedOn p) (hq : q ∈ a.pagesOf t) :
    q.leaf.frame.toNat % 4096 = 0 := by
  have hsmall : 4096 ∣ q.size.bytes := Nat.dvd_of_mod_eq_zero q.size.bytes_mod
  exact Nat.mod_eq_zero_of_dvd
    (Nat.dvd_trans hsmall (Nat.dvd_of_mod_eq_zero (h.page_aligned hq).2))

/-- **No two pages of a stage share a source address.** -/
theorem pagesOf_disjoint (h : a.AcceptedOn p) (t : Stage) :
    (a.pagesOf t).Pairwise fun q r => q.extent.Disjoint r.extent := by
  refine List.pairwise_flatMap.mpr ⟨fun m hm => (h.bounded hm).pageList_disjoint, ?_⟩
  refine (h.coherent t).sources.imp_of_mem fun {m n} hm hn hdisjoint q hq r hr => ?_
  obtain ⟨v, hv, i, hi, rfl⟩ := Mapping.mem_pageList.mp hq
  obtain ⟨w, hw, j, hj, rfl⟩ := Mapping.mem_pageList.mp hr
  have hsources := hdisjoint _ (Option.mem_map_of_mem _ hv) _ (Option.mem_map_of_mem _ hw)
  have hq' := (h.bounded hm).extent_page hv hi
  have hr' := (h.bounded hn).extent_page hw hj
  unfold Extent.Disjoint at hsources ⊢
  unfold Extent.Within at hq' hr'
  omega

/-- The pages of a stage are apart. -/
theorem apart (h : a.AcceptedOn p) (t : Stage) : Page.Apart (a.pagesOf t) where
  aligned _ hq := (h.page_aligned hq).1
  eq_of_mem q hq r hr hmem := by
    obtain ⟨i, j, hq⟩ := mem_pagesOf_iff.mp hq
    obtain ⟨i', j', hr⟩ := mem_pagesOf_iff.mp hr
    obtain ⟨rfl, rfl⟩ := h.pageOf?_unique hr hq r.source_mem_extent hmem
    exact Option.some.inj (hr.symm.trans hq)

end AcceptedOn

end AddressMap

end FirmwareMap
