/-
  FirmwareMap.Proofs.Text.Numeral
  ───────────────────────────────
  **THE GRAMMAR OF NUMERALS.**

      numeral  =  blank* mark digit (digit | '_')* blank*
      mark     =  '0x' | '0X'     radix sixteen
               |  '0b' | '0B'     radix two
               |  nothing         radix ten

  A numeral denotes the number whose digits it has, underscores left out.  It
  is read as that number if the number is a word, and nothing else is read:

      read? s = some w  ↔  s denotes w        s denotes n  →  read? s = ofNat? n

  Nothing of a numeral but the blanks around it is blank, so they are told from
  it; and neither an `x` nor a `b` is a digit of radix ten, so the mark is.
  Digits are read one by one, and each step stays among the words or fails.
  That is no other condition than that the whole number is a word, because more
  digits never make a number smaller.
-/
import FirmwareMap.Text.Numeral
import Mathlib.Data.Nat.Digits.Defs
import Mathlib.Tactic.IntervalCases

namespace FirmwareMap.Numeral

/-! ## §1. The grammar. -/

/-- The character is the digit `d` of the radix: letters count on from ten, in either case. -/
def Radix.IsDigit (r : Radix) (c : Char) (d : Nat) : Prop :=
  d < r.base ∧ (c = d.digitChar ∨ c = d.digitChar.toUpper)

/-- The characters are the digits, with underscores between them. -/
inductive Radix.Digits (r : Radix) : List Char → List Nat → Prop
  | nil : r.Digits [] []
  | digit {c : Char} {d : Nat} {cs : List Char} {ds : List Nat} (hc : r.IsDigit c d)
      (hcs : r.Digits cs ds) : r.Digits (c :: cs) (d :: ds)
  | underscore {cs : List Char} {ds : List Nat} (hcs : r.Digits cs ds) : r.Digits ('_' :: cs) ds

/-- The characters mark the radix. -/
inductive Mark : List Char → Radix → Prop
  | none : Mark [] .decimal
  | lowerHex : Mark ['0', 'x'] .hexadecimal
  | upperHex : Mark ['0', 'X'] .hexadecimal
  | lowerBinary : Mark ['0', 'b'] .binary
  | upperBinary : Mark ['0', 'B'] .binary

/-- The text is a numeral of the grammar, and its digits are those of the number. -/
inductive Denotes (s : String) (n : Nat) : Prop
  | intro (before mark : List Char) (r : Radix) (first : Char) (rest after : List Char) (d : Nat)
      (ds : List Nat) (hbefore : ∀ c ∈ before, Text.isBlank c) (hmark : Mark mark r)
      (hfirst : r.IsDigit first d) (hrest : r.Digits rest ds)
      (hafter : ∀ c ∈ after, Text.isBlank c)
      (htext : s.toList = before ++ (mark ++ first :: rest) ++ after)
      (hvalue : n = Nat.ofDigits r.base (d :: ds).reverse)

/-! ## §2. Digits. -/

variable {r : Radix} {c first : Char} {d : Nat} {cs rest : List Char} {ds : List Nat}

/-- No character beyond the first 128 has a value as a digit. -/
theorem lt_of_digitValue? (h : digitValue? c = some d) : c.toNat < 128 := by
  unfold digitValue? at h
  split_ifs at h with hdigit hlower hupper
  · exact Nat.lt_of_le_of_lt hdigit.2 (by decide)
  · exact Nat.lt_of_le_of_lt hlower.2 (by decide)
  · exact Nat.lt_of_le_of_lt hupper.2 (by decide)

/-- The first 128 characters, one by one. -/
theorem digitValue?_ofNat : ∀ k < 128, ∀ d ∈ digitValue? (Char.ofNat k),
    d < 16 ∧ (Char.ofNat k = d.digitChar ∨ Char.ofNat k = d.digitChar.toUpper) := by
  decide

theorem digitValue?_eq_some_iff :
    digitValue? c = some d ↔ d < 16 ∧ (c = d.digitChar ∨ c = d.digitChar.toUpper) := by
  constructor
  · intro h
    have hdigit := digitValue?_ofNat c.toNat (lt_of_digitValue? h) d
    rw [Char.ofNat_toNat] at hdigit
    exact hdigit h
  · intro h
    obtain ⟨hd, hc⟩ := h
    rcases hc with rfl | rfl <;> interval_cases d <;> decide

theorem Radix.base_le (r : Radix) : r.base ≤ 16 := by
  cases r <;> decide

theorem Radix.digit?_eq_some_iff : r.digit? c = some d ↔ r.IsDigit c d := by
  have hbase := r.base_le
  rw [digit?, Option.filter_eq_some_iff, digitValue?_eq_some_iff, decide_eq_true_iff, IsDigit]
  constructor
  · intro h
    exact ⟨h.2, h.1.2⟩
  · intro h
    exact ⟨⟨Nat.lt_of_lt_of_le h.1 hbase, h.2⟩, h.1⟩

theorem Radix.IsDigit.ne_underscore (h : r.IsDigit c d) : c ≠ '_' := by
  intro hc
  rw [hc, ← digit?_eq_some_iff] at h
  revert h
  cases r <;> exact nofun

theorem Radix.IsDigit.not_blank (h : r.IsDigit c d) : ¬ Text.isBlank c := by
  obtain ⟨hd, hc⟩ := h
  have hlt := Nat.lt_of_lt_of_le hd r.base_le
  rcases hc with rfl | rfl <;> interval_cases d <;> decide

/-- The digits are what remains without the underscores. -/
theorem Radix.digits_iff : r.Digits cs ds ↔ (cs.filter (· ≠ '_')).mapM r.digit? = some ds := by
  constructor
  · intro h
    induction h with
    | nil => rfl
    | digit hc _ ih =>
      have hne := decide_eq_true hc.ne_underscore
      rw [List.filter_cons_of_pos (p := fun c => decide (c ≠ '_')) hne, List.mapM_cons,
        digit?_eq_some_iff.mpr hc, ih]
      rfl
    | underscore _ ih => exact ih
  · intro h
    induction cs generalizing ds with
    | nil =>
      obtain rfl : [] = ds := Option.some.inj h
      exact .nil
    | cons c cs ih =>
      by_cases hc : c = '_'
      · subst hc
        exact .underscore (ih h)
      · have hne := decide_eq_true hc
        rw [List.filter_cons_of_pos (p := fun c => decide (c ≠ '_')) hne, List.mapM_cons] at h
        obtain ⟨d, hd, h⟩ := Option.bind_eq_some_iff.mp h
        obtain ⟨ds', hds, h⟩ := Option.bind_eq_some_iff.mp h
        obtain rfl := Option.some.inj h
        exact .digit (digit?_eq_some_iff.mp hd) (ih hds)

theorem Radix.Digits.not_blank (h : r.Digits cs ds) : ∀ c ∈ cs, ¬ Text.isBlank c := by
  induction h with
  | nil => exact nofun
  | digit hc _ ih => exact List.forall_mem_cons.mpr ⟨hc.not_blank, ih⟩
  | underscore _ ih => exact List.forall_mem_cons.mpr ⟨by decide, ih⟩

theorem Radix.Digits.unique {es : List Nat} (h : r.Digits cs ds) (h' : r.Digits cs es) :
    ds = es := by
  rw [digits_iff] at h h'
  exact Option.some.inj (h.symm.trans h')

/-- The number that the digits spell after those of `n`. -/
def Radix.spell (r : Radix) (n : Nat) (ds : List Nat) : Nat :=
  ds.foldl (fun n d => n * r.base + d) n

/-- Digits alone spell the number that has them as its digits. -/
theorem Radix.spell_zero (r : Radix) (ds : List Nat) :
    r.spell 0 ds = Nat.ofDigits r.base ds.reverse := by
  rw [Nat.ofDigits_eq_foldr, List.foldr_reverse]
  unfold spell
  congr 1
  funext n d
  rw [Nat.add_comm, Nat.mul_comm]
  rfl

/-- More digits never spell less. -/
theorem Radix.le_spell (r : Radix) (ds : List Nat) : ∀ n, n ≤ r.spell n ds := by
  have hbase : 0 < r.base := by cases r <;> decide
  induction ds with
  | nil =>
    intro n
    exact Nat.le_refl n
  | cons d ds ih =>
    intro n
    calc n ≤ n * r.base := Nat.le_mul_of_pos_right n hbase
      _ ≤ n * r.base + d := Nat.le_add_right _ d
      _ ≤ r.spell (n * r.base + d) ds := ih _

/-! ## §3. Reading digits. -/

/-- Two checks in a row come to one check of the sum. -/
theorem Radix.push?_eq (r : Radix) (w : Word) (d : Nat) :
    r.push? w d = Word.ofNat? (w.toNat * r.base + d) := by
  unfold push?
  cases hscaled : Word.ofNat? (w.toNat * r.base) with
  | none =>
    have hlarge := Word.ofNat?_eq_none_iff.mp hscaled
    exact (Word.ofNat?_eq_none_iff.mpr (Nat.le_add_right_of_le hlarge)).symm
  | some scaled =>
    rw [Word.ofNat?_eq_some_iff.mp hscaled]
    rfl

/-- **Digits are read after a word as the number that they spell after it**, if that is a word: a
number that has left the words on the way is never one at the end. -/
theorem Radix.Digits.readAfter?_eq (h : r.Digits cs ds) :
    ∀ w : Word, r.readAfter? w cs = Word.ofNat? (r.spell w.toNat ds) := by
  induction h with
  | nil =>
    intro w
    exact (Word.ofNat?_toNat w).symm
  | @digit c d cs ds hc _ ih =>
    intro w
    rw [readAfter?, if_neg hc.ne_underscore, digit?_eq_some_iff.mpr hc]
    show ((r.push? w d).bind fun w => r.readAfter? w cs)
      = Word.ofNat? (r.spell (w.toNat * r.base + d) ds)
    rw [r.push?_eq]
    cases hnext : Word.ofNat? (w.toNat * r.base + d) with
    | none =>
      have hlarge := Word.ofNat?_eq_none_iff.mp hnext
      have hlarger := r.le_spell ds (w.toNat * r.base + d)
      exact (Word.ofNat?_eq_none_iff.mpr (Nat.le_trans hlarge hlarger)).symm
    | some next => rw [Option.bind_some, ih next, Word.ofNat?_eq_some_iff.mp hnext]
  | underscore _ ih =>
    intro w
    rw [readAfter?, if_pos rfl]
    exact ih w

/-- Only digits and underscores are read. -/
theorem Radix.exists_digits_of_readAfter? :
    ∀ (cs : List Char) (w v : Word), r.readAfter? w cs = some v → ∃ ds, r.Digits cs ds := by
  intro cs
  induction cs with
  | nil =>
    intro w v _
    exact ⟨[], .nil⟩
  | cons c cs ih =>
    intro w v h
    by_cases hc : c = '_'
    · rw [readAfter?, if_pos hc] at h
      obtain ⟨ds, hds⟩ := ih w v h
      exact ⟨ds, hc ▸ .underscore hds⟩
    · rw [readAfter?, if_neg hc] at h
      obtain ⟨d, hd, h⟩ := Option.bind_eq_some_iff.mp h
      obtain ⟨next, -, h⟩ := Option.bind_eq_some_iff.mp h
      obtain ⟨ds, hds⟩ := ih next v h
      exact ⟨d :: ds, .digit (digit?_eq_some_iff.mp hd) hds⟩

/-- The digits are read as the number that they are the digits of. -/
theorem Radix.read?_of_digits (hfirst : r.IsDigit first d) (hrest : r.Digits rest ds) :
    r.read? (first :: rest) = Word.ofNat? (Nat.ofDigits r.base (d :: ds).reverse) := by
  have hall : r.Digits (first :: rest) (d :: ds) := .digit hfirst hrest
  unfold read?
  split
  next heq => cases heq
  next heq => exact absurd (List.cons.inj heq).1 hfirst.ne_underscore
  next => exact (hall.readAfter?_eq 0).trans (congrArg Word.ofNat? (r.spell_zero (d :: ds)))

/-- What is read starts with a digit and goes on with digits and underscores. -/
theorem Radix.exists_digits_of_read? {w : Word} (h : r.read? cs = some w) :
    ∃ first rest d ds, cs = first :: rest ∧ r.IsDigit first d ∧ r.Digits rest ds := by
  unfold read? at h
  split at h
  next => cases h
  next => cases h
  next hnil hunderscore =>
    obtain ⟨ds, hds⟩ := exists_digits_of_readAfter? cs 0 w h
    cases hds with
    | nil => exact absurd rfl hnil
    | digit hc hcs => exact ⟨_, _, _, _, rfl, hc, hcs⟩
    | underscore => exact absurd rfl (hunderscore _)

/-! ## §4. Reading a numeral. -/

theorem Mark.not_blank {mark : List Char} (h : Mark mark r) : ∀ c ∈ mark, ¬ Text.isBlank c := by
  cases h <;> simp [Text.isBlank]

/-- Digits of radix ten do not look like a mark of another radix. -/
theorem splitMark_of_digits (hrest : Radix.decimal.Digits rest ds) :
    splitMark (first :: rest) = (.decimal, first :: rest) := by
  have hletter : ∀ c cs, rest = c :: cs → c ∉ ['x', 'X', 'b', 'B'] := by
    intro c cs heq hmem
    rw [heq] at hrest
    cases hrest with
    | digit hc _ =>
      rw [← Radix.digit?_eq_some_iff] at hc
      simp only [List.mem_cons, List.not_mem_nil, or_false] at hmem
      rcases hmem with rfl | rfl | rfl | rfl <;> cases hc
    | underscore => exact absurd hmem (by decide)
  unfold splitMark
  split
  next heq => exact absurd (by decide) (hletter 'x' _ (List.cons.inj heq).2)
  next heq => exact absurd (by decide) (hletter 'X' _ (List.cons.inj heq).2)
  next heq => exact absurd (by decide) (hletter 'b' _ (List.cons.inj heq).2)
  next heq => exact absurd (by decide) (hletter 'B' _ (List.cons.inj heq).2)
  next => rfl

theorem splitMark_append {mark : List Char} (hmark : Mark mark r) (hrest : r.Digits rest ds) :
    splitMark (mark ++ first :: rest) = (r, first :: rest) := by
  cases hmark with
  | none => exact splitMark_of_digits hrest
  | _ => rfl

/-- Whatever is split off is the mark of the radix. -/
theorem exists_mark (cs : List Char) :
    ∃ mark, Mark mark (splitMark cs).1 ∧ cs = mark ++ (splitMark cs).2 := by
  unfold splitMark
  split
  next => exact ⟨['0', 'x'], .lowerHex, rfl⟩
  next => exact ⟨['0', 'X'], .upperHex, rfl⟩
  next => exact ⟨['0', 'b'], .lowerBinary, rfl⟩
  next => exact ⟨['0', 'B'], .upperBinary, rfl⟩
  next => exact ⟨[], .none, rfl⟩

/-- The blanks and the mark are told from a numeral. -/
theorem Denotes.splitMark_trimChars {s : String} {n : Nat} (h : Denotes s n) :
    ∃ r first rest d ds, splitMark (Text.trimChars s.toList) = (r, first :: rest)
      ∧ r.IsDigit first d ∧ r.Digits rest ds ∧ n = Nat.ofDigits r.base (d :: ds).reverse := by
  obtain ⟨before, mark, r, first, rest, after, d, ds, hbefore, hmark, hfirst, hrest, hafter, htext,
    hvalue⟩ := h
  have hsolid : ∀ c ∈ mark ++ first :: rest, ¬ Text.isBlank c := fun c hc =>
    (List.mem_append.mp hc).elim (hmark.not_blank c)
      ((Radix.Digits.digit hfirst hrest).not_blank c)
  have htrim : Text.trimChars s.toList = mark ++ first :: rest := by
    rw [htext]
    exact Text.trimChars_append hbefore hafter (fun c hc => hsolid c (List.mem_of_mem_head? hc))
      (fun c hc => hsolid c (List.mem_of_getLast? hc)) (by simp)
  rw [htrim, splitMark_append hmark hrest]
  exact ⟨r, first, rest, d, ds, rfl, hfirst, hrest, hvalue⟩

/-- **A numeral is read as the number that it denotes**, if that is a word. -/
theorem Denotes.read?_eq {s : String} {n : Nat} (h : Denotes s n) : read? s = Word.ofNat? n := by
  obtain ⟨r, first, rest, d, ds, hsplit, hfirst, hrest, rfl⟩ := h.splitMark_trimChars
  rw [read?, hsplit]
  exact Radix.read?_of_digits hfirst hrest

/-- What is read is a numeral, and it denotes the word. -/
theorem denotes_of_read? {s : String} {w : Word} (h : read? s = some w) : Denotes s w.toNat := by
  obtain ⟨before, after, hbefore, hafter, htrim⟩ := Text.exists_trimmed s.toList
  obtain ⟨mark, hmark, hchars⟩ := exists_mark (Text.trimChars s.toList)
  have hread : (splitMark (Text.trimChars s.toList)).1.read?
      (splitMark (Text.trimChars s.toList)).2 = some w := h
  obtain ⟨first, rest, d, ds, hcs, hfirst, hrest⟩ := Radix.exists_digits_of_read? hread
  rw [hchars, hcs] at htrim
  have hdenotes : Denotes s _ :=
    .intro before mark _ first rest after d ds hbefore hmark hfirst hrest hafter htrim rfl
  have hword := hdenotes.read?_eq.symm.trans h
  rwa [Word.ofNat?_eq_some_iff.mp hword] at hdenotes

/-- A text denotes one number at most. -/
theorem Denotes.unique {s : String} {m n : Nat} (hm : Denotes s m) (hn : Denotes s n) : m = n := by
  obtain ⟨r, first, rest, d, ds, hsplit, hfirst, hrest, rfl⟩ := hm.splitMark_trimChars
  obtain ⟨r', first', rest', d', ds', hsplit', hfirst', hrest', rfl⟩ := hn.splitMark_trimChars
  obtain ⟨rfl, hchars⟩ := Prod.mk.inj (hsplit.symm.trans hsplit')
  obtain ⟨rfl, rfl⟩ := List.cons.inj hchars
  have hdigits : d :: ds = d' :: ds' :=
    (Radix.Digits.digit hfirst hrest).unique (.digit hfirst' hrest')
  rw [hdigits]

/-- **THE READER ACCEPTS THE GRAMMAR AND NOTHING ELSE**: a text is read as a word if and only if it
is a numeral that denotes the word; it is read as nothing if and only if it denotes no number below
the number of words, that is, if it is no numeral or one of a number that is too large; and what a
text denotes is one number. -/
theorem reads_exactly (s : String) :
    (∀ w, read? s = some w ↔ Denotes s w.toNat)
      ∧ (read? s = none ↔ ¬ ∃ n, n < Word.count ∧ Denotes s n)
      ∧ ∀ m n, Denotes s m → Denotes s n → m = n := by
  have hword : ∀ w, read? s = some w ↔ Denotes s w.toNat := by
    intro w
    constructor
    · exact denotes_of_read?
    · intro h
      rw [h.read?_eq, Word.ofNat?_toNat]
  refine ⟨hword, ?_, fun m n hm hn => hm.unique hn⟩
  constructor
  · intro hnone hgiven
    obtain ⟨n, hlt, hn⟩ := hgiven
    have hlarge := Word.ofNat?_eq_none_iff.mp (hn.read?_eq.symm.trans hnone)
    exact absurd hlt (Nat.not_lt.mpr hlarge)
  · intro hnot
    rw [Option.eq_none_iff_forall_ne_some]
    intro w hw
    exact hnot ⟨w.toNat, w.toNat_lt_size, (hword w).mp hw⟩

/-- The largest word is read, with blanks, underscores and both cases; one more is not, whatever
zeros lead it. -/
theorem limits_read :
    read? " 0xFFFF_ffff_FFFF_ffff " = some 0xffffffffffffffff
      ∧ read? "0018446744073709551616" = none := by
  have hspace : ∀ c ∈ [' '], Text.isBlank c := List.forall_mem_singleton.mpr rfl
  have hlargest : Denotes " 0xFFFF_ffff_FFFF_ffff " (0xffffffffffffffff : Word).toNat :=
    .intro [' '] ['0', 'x'] .hexadecimal 'F' "FFF_ffff_FFFF_ffff".toList [' '] 15
      (List.replicate 15 15) hspace .lowerHex ⟨by decide, .inr rfl⟩ (Radix.digits_iff.mpr rfl)
      hspace rfl rfl
  have hbeyond : Denotes "0018446744073709551616" Word.count :=
    .intro [] [] .decimal '0' "018446744073709551616".toList [] 0
      [0, 1, 8, 4, 4, 6, 7, 4, 4, 0, 7, 3, 7, 0, 9, 5, 5, 1, 6, 1, 6] nofun .none
      ⟨by decide, .inl rfl⟩ (Radix.digits_iff.mpr rfl) nofun rfl rfl
  obtain ⟨hword, -⟩ := reads_exactly " 0xFFFF_ffff_FFFF_ffff "
  obtain ⟨-, hnone, hunique⟩ := reads_exactly "0018446744073709551616"
  refine ⟨(hword _).mpr hlargest, hnone.mpr fun hgiven => ?_⟩
  obtain ⟨n, hlt, hn⟩ := hgiven
  rw [hunique n Word.count hn hbeyond] at hlt
  exact Nat.lt_irrefl _ hlt

end FirmwareMap.Numeral
