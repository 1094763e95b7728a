/-
  FirmwareMap.Text.Blank
  ──────────────────────
  **BLANKS, AND TEXT WITHOUT THEM AT ITS ENDS.**

  A blank is a character with the property White_Space.  `trim` takes the
  blanks off both ends of a text and leaves those inside:

      trim (blanks ++ core ++ blanks') = core

  for every `core` that neither starts nor ends with a blank.
-/
namespace FirmwareMap.Text

/-! ## §1. Blanks. -/

/-- Whether a character is white space. -/
def isBlank (c : Char) : Bool :=
  let n := c.toNat
  (0x09 ≤ n && n ≤ 0x0D) || n == 0x20 || n == 0x85 || n == 0xA0 || n == 0x1680
    || (0x2000 ≤ n && n ≤ 0x200A) || n == 0x2028 || n == 0x2029 || n == 0x202F || n == 0x205F
    || n == 0x3000

/-! ## §2. Trimming. -/

/-- The characters without the blanks that lead. -/
def dropBlanks (cs : List Char) : List Char :=
  cs.dropWhile isBlank

/-- The characters without the blanks at either end. -/
def trimChars (cs : List Char) : List Char :=
  (dropBlanks (dropBlanks cs).reverse).reverse

/-- The text without the blanks at either end. -/
def trim (s : String) : String :=
  .ofList (trimChars s.toList)

theorem dropBlanks_append {blanks cs : List Char} (h : ∀ c ∈ blanks, isBlank c) :
    dropBlanks (blanks ++ cs) = dropBlanks cs := by
  induction blanks with
  | nil => rfl
  | cons b bs ih =>
    have hb : isBlank b := h b List.mem_cons_self
    have ih := ih fun c hc => h c (List.mem_cons_of_mem _ hc)
    simpa [dropBlanks, hb] using ih

theorem dropBlanks_eq_self {cs : List Char} (h : ∀ c ∈ cs.head?, ¬ isBlank c) :
    dropBlanks cs = cs := by
  cases cs with
  | nil => rfl
  | cons c cs => simp [dropBlanks, h c rfl]

/-- What remains of a text that a blank neither starts nor ends is the text. -/
theorem trimChars_append {before core after : List Char} (hb : ∀ c ∈ before, isBlank c)
    (ha : ∀ c ∈ after, isBlank c) (hh : ∀ c ∈ core.head?, ¬ isBlank c)
    (hl : ∀ c ∈ core.getLast?, ¬ isBlank c) (hn : core ≠ []) :
    trimChars (before ++ core ++ after) = core := by
  have h₁ : dropBlanks (before ++ (core ++ after)) = core ++ after := by
    rw [dropBlanks_append hb]
    apply dropBlanks_eq_self
    cases core with
    | nil => exact absurd rfl hn
    | cons c cs => exact hh
  have h₂ : dropBlanks (core ++ after).reverse = core.reverse := by
    rw [List.reverse_append, dropBlanks_append (by simpa using ha)]
    apply dropBlanks_eq_self
    rwa [List.head?_reverse]
  rw [trimChars, List.append_assoc, h₁, h₂, List.reverse_reverse]

theorem exists_dropped (cs : List Char) :
    ∃ blanks, (∀ c ∈ blanks, isBlank c) ∧ cs = blanks ++ dropBlanks cs :=
  ⟨cs.takeWhile isBlank, List.all_eq_true.mp List.all_takeWhile,
    List.takeWhile_append_dropWhile.symm⟩

/-- Nothing but blanks is taken off a text. -/
theorem exists_trimmed (cs : List Char) :
    ∃ before after, (∀ c ∈ before, isBlank c) ∧ (∀ c ∈ after, isBlank c)
      ∧ cs = before ++ trimChars cs ++ after := by
  obtain ⟨before, hbefore, hcs⟩ := exists_dropped cs
  obtain ⟨after, hafter, hrest⟩ := exists_dropped (dropBlanks cs).reverse
  refine ⟨before, after.reverse, hbefore, fun c hc => hafter c (List.mem_reverse.mp hc), ?_⟩
  calc cs = before ++ (dropBlanks cs).reverse.reverse := by rw [List.reverse_reverse, ← hcs]
    _ = before ++ (after ++ dropBlanks (dropBlanks cs).reverse).reverse := by rw [← hrest]
    _ = before ++ trimChars cs ++ after.reverse := by
      rw [List.reverse_append, ← List.append_assoc, trimChars]

/-! ## §3. Lists of names in one text. -/

/-- The names between the commas of a text, trimmed; a name of blanks alone is no name. -/
def names (s : String) : List String :=
  ((s.toList.splitOn ',').map trimChars).filter (· ≠ []) |>.map .ofList

end FirmwareMap.Text
