/-
  FirmwareMap.Proofs.Report.Sequence
  ──────────────────────────────────
  **SEQUENCES OF CHECKS AND OF RUNS.**

  A sequence succeeds when each of its steps does.  For a check of a list that
  is one condition on each element; for a run over a list it is an invariant
  that each step carries from what was done to what was done and one more:

      P b []  and  P preserved by f  and  l.foldlM f b ends with b'  →  P b' l

  Two runs whose steps differ only in that one of them fails are one run where
  both succeed (`Alike`).
-/
import FirmwareMap.Report.Run
import FirmwareMap.Requirement

namespace FirmwareMap

/-! ## §1. Checks. -/

section Checks

variable {ε ε' α β : Type}

/-- A check and what follows it. -/
theorem check_bind_eq_ok_iff {x : Except ε Unit} {f : Unit → Except ε β} {b : β} :
    (x >>= f) = .ok b ↔ x = .ok () ∧ f () = .ok b := by
  rw [bind_eq_ok_iff]
  constructor
  · intro h
    obtain ⟨⟨⟩, hx, hf⟩ := h
    exact ⟨hx, hf⟩
  · intro h
    obtain ⟨hx, hf⟩ := h
    exact ⟨(), hx, hf⟩

/-- Whether a result is a given one, if those that are no errors can be told apart. -/
instance decidableEqOk [DecidableEq α] (x : Except ε α) (a : α) : Decidable (x = .ok a) :=
  match x with
  | .ok b => decidable_of_iff (b = a) (by simp)
  | .error _ => isFalse nofun

/-- What a test says of the result, the result is. -/
theorem exists_ok_of_any {x : Except ε α} {P : α → Bool} (h : x.toOption.any P = true) :
    ∃ a, x = .ok a ∧ P a = true := by
  cases x with
  | error => cases h
  | ok a => exact ⟨a, rfl, h⟩

/-- Naming an error differently does not change success. -/
@[simp] theorem mapError_eq_ok_iff {x : Except ε α} {f : ε → ε'} {a : α} :
    x.mapError f = .ok a ↔ x = .ok a := by
  cases x with
  | error e =>
    constructor <;> intro h <;> cases h
  | ok b =>
    show Except.ok b = Except.ok a ↔ _
    rw [Except.ok.injEq, Except.ok.injEq]

/-- A check of a list succeeds when it does on each element. -/
theorem forM_eq_ok_iff {l : List α} {f : α → Except ε Unit} :
    l.forM f = .ok () ↔ ∀ a ∈ l, f a = .ok () := by
  induction l with
  | nil => simp [pure, Except.pure]
  | cons a l ih =>
    show (f a >>= fun _ => l.forM f) = _ ↔ _
    rw [check_bind_eq_ok_iff, ih, List.forall_mem_cons]

/-- What a list is mapped to, step by step. -/
theorem mapM_cons_eq_ok_iff {a : α} {l : List α} {f : α → Except ε β} {bs : List β} :
    (a :: l).mapM f = .ok bs ↔ ∃ b rest, f a = .ok b ∧ l.mapM f = .ok rest ∧ bs = b :: rest := by
  rw [List.mapM_cons, bind_eq_ok_iff]
  refine exists_congr fun b => ?_
  simp only [bind_eq_ok_iff, pure, Except.pure, Except.ok.injEq]
  constructor
  · intro hgiven
    obtain ⟨hb, rest, hrest, h⟩ := hgiven
    exact ⟨rest, hb, hrest, h.symm⟩
  · intro hgiven
    obtain ⟨rest, hb, hrest, h⟩ := hgiven
    exact ⟨hb, rest, hrest, h.symm⟩

/-- Where each step can only give one value, the list of results is the list of these values. -/
theorem eq_map_of_mapM_eq_ok {f : α → Except ε β} {g : α → β} (hg : ∀ a b, f a = .ok b → b = g a) :
    ∀ {l : List α} {bs : List β}, l.mapM f = .ok bs → bs = l.map g
  | [], bs, h => by
    rw [List.mapM_nil] at h
    cases h
    rfl
  | a :: l, bs, h => by
    obtain ⟨b, rest, hb, hrest, rfl⟩ := mapM_cons_eq_ok_iff.mp h
    rw [List.map_cons, hg a b hb, eq_map_of_mapM_eq_ok hg hrest]

/-- Where each step gives its value, the list of results is the list of these values. -/
theorem mapM_eq_ok_map {f : α → Except ε β} {g : α → β} {l : List α}
    (h : ∀ a ∈ l, f a = .ok (g a)) : l.mapM f = .ok (l.map g) := by
  induction l with
  | nil => rfl
  | cons a l ih =>
    have hl : l.mapM f = .ok (l.map g) := ih fun b hb => h b (List.mem_cons_of_mem _ hb)
    rw [mapM_cons_eq_ok_iff]
    exact ⟨g a, l.map g, h a List.mem_cons_self, hl, rfl⟩

end Checks

/-! ## §2. Runs. -/

namespace Run

variable {α β : Type}

/-- A run succeeds with a value when its first part does and the rest does with what it gave. -/
theorem bind_outcome_eq_ok_iff {x : Run α} {f : α → Run β} {b : β} :
    (x >>= f).outcome = .ok b ↔ ∃ a, x.outcome = .ok a ∧ (f a).outcome = .ok b := by
  rw [outcome_bind, bind_eq_ok_iff]

theorem pure_outcome_eq_ok_iff {a b : α} : (pure a : Run α).outcome = .ok b ↔ a = b := by
  rw [outcome_pure, Except.ok.injEq]

theorem liftRefusal_eq_ok_iff {x : Except Refusal α} {a : α} :
    (liftM x : Run α).outcome = .ok a ↔ x = .ok a := by
  rw [outcome_liftRefusal, mapError_eq_ok_iff]

theorem liftFault_eq_ok_iff {x : Except Fault α} {a : α} :
    (liftM x : Run α).outcome = .ok a ↔ x = .ok a := by
  rw [outcome_liftFault, mapError_eq_ok_iff]

/-- A report always succeeds. -/
theorem report_bind_eq_ok_iff {e : Event} {f : Unit → Run β} {b : β} :
    (report e >>= f).outcome = .ok b ↔ (f ()).outcome = .ok b := by
  rw [outcome_bind, outcome_report]
  rfl

/-- **What every step carries on, a run over a list carries from its start to its end.** -/
theorem foldlM_induct {P : β → List α → Prop} {f : β → α → Run β}
    (step : ∀ b done a b', P b done → (f b a).outcome = .ok b' → P b' (done ++ [a])) :
    ∀ (l : List α) (b b' : β) (done : List α), P b done → (l.foldlM f b).outcome = .ok b' →
      P b' (done ++ l)
  | [], b, b', done, hP, h => by
    rw [List.foldlM_nil, pure_outcome_eq_ok_iff] at h
    rwa [← h, List.append_nil]
  | a :: l, b, b', done, hP, h => by
    rw [List.foldlM_cons, bind_outcome_eq_ok_iff] at h
    obtain ⟨c, hc, h⟩ := h
    have := foldlM_induct step l c b' (done ++ [a]) (step b done a c hP hc) h
    rwa [List.append_assoc] at this

/-! ## §3. Two runs side by side. -/

/-- Where both runs succeed they are one run, in what they report and in what they give. -/
def Alike (x y : Run α) : Prop :=
  ∀ a b, x.outcome = .ok a → y.outcome = .ok b → x = y

theorem Alike.refl (x : Run α) : x.Alike x := by
  intro a b _ _
  rfl

theorem alike_liftRefusal {c c' : Except Refusal α} (h : ∀ a b, c = .ok a → c' = .ok b → a = b) :
    (liftM c : Run α).Alike (liftM c') := by
  intro a b ha hb
  rw [liftRefusal_eq_ok_iff] at ha hb
  rw [ha, hb, h a b ha hb]

/-- **Sequences are alike if their parts are**, the later ones from one and the same value on. -/
theorem Alike.bind {x y : Run α} {f g : α → Run β} (hxy : x.Alike y)
    (hfg : ∀ a, (f a).Alike (g a)) : (x >>= f).Alike (y >>= g) := by
  intro c d hc hd
  obtain ⟨a, ha, hc⟩ := bind_outcome_eq_ok_iff.mp hc
  obtain ⟨b, hb, hd⟩ := bind_outcome_eq_ok_iff.mp hd
  -- one run gives one value, so what follows starts in one place
  have heq : x = y := hxy a b ha hb
  subst heq
  obtain rfl : a = b := by
    rw [ha] at hb
    exact Except.ok.inj hb
  have hrest : f a = g a := hfg a c d hc hd
  show andThen x f = andThen x g
  unfold andThen
  rw [ha]
  show (⟨_, _⟩ : Run β) = ⟨_, _⟩
  rw [hrest]

theorem alike_foldlM {f g : β → α → Run β} (hfg : ∀ b a, (f b a).Alike (g b a)) :
    ∀ (l : List α) (b : β), (l.foldlM f b).Alike (l.foldlM g b) := by
  intro l
  induction l with
  | nil =>
    intro b
    exact Alike.refl _
  | cons a l ih =>
    intro b
    rw [List.foldlM_cons, List.foldlM_cons]
    exact (hfg b a).bind ih

end Run

end FirmwareMap
