/-
  FirmwareMap.Proofs.Report.Failures
  ──────────────────────────────────
  **HOW A RUN CAN FAIL.**

  `x.FailsOnly E` bounds the failures of a run: if there is one, it is one of
  those that `E` allows.  A sequence fails only as its parts do, and a part is
  reached only with what the parts before it gave:

      x.FailsOnly E  and  (x ends with a  →  (f a).FailsOnly E)
          →  (x >>= f).FailsOnly E

  A run that no failure is allowed for ends with a value.
-/
import FirmwareMap.Proofs.Report.Sequence

namespace FirmwareMap

theorem require_eq_error_iff {ε : Type} {p : Prop} [Decidable p] {e e' : ε} :
    require p e = .error e' ↔ ¬ p ∧ e' = e := by
  unfold require
  by_cases h : p
  · simp [h]
  · simp [h, eq_comm]

theorem demand_eq_error_iff {ε α : Type} {o : Option α} {e e' : ε} :
    demand o e = .error e' ↔ o = none ∧ e' = e := by
  cases o with
  | none => simp [eq_comm]
  | some a => simp

/-- A sequence fails when its first step does, or the rest does with its result. -/
theorem bind_eq_error_iff {ε α β : Type} {x : Except ε α} {f : α → Except ε β} {e : ε} :
    (x >>= f) = .error e ↔ x = .error e ∨ ∃ a, x = .ok a ∧ f a = .error e := by
  cases x with
  | error e' => simp [bind, Except.bind]
  | ok a => simp [bind, Except.bind]

/-- A result with its errors named differently fails as the result does. -/
theorem mapError_eq_error_iff {ε ε' α : Type} {x : Except ε α} {f : ε → ε'} {e : ε'} :
    x.mapError f = .error e ↔ ∃ e', x = .error e' ∧ f e' = e := by
  cases x with
  | error e' =>
    show Except.error (f e') = Except.error e ↔ _
    simp
  | ok a =>
    show Except.ok a = Except.error e ↔ _
    simp

namespace Run

variable {α β : Type} {E F : Failure → Prop} {x : Run α}

/-! ## §1. Bounds on the failures of a run. -/

/-- Every failure of the run is one of those that are allowed. -/
def FailsOnly (x : Run α) (E : Failure → Prop) : Prop :=
  ∀ e, x.outcome = .error e → E e

theorem FailsOnly.mono (h : x.FailsOnly E) (hEF : ∀ e, E e → F e) : x.FailsOnly F := by
  intro e he
  exact hEF e (h e he)

/-- A run that does not fail ends with a value. -/
theorem FailsOnly.exists_ok (h : x.FailsOnly fun _ => False) : ∃ a, x.outcome = .ok a := by
  cases hx : x.outcome with
  | ok a => exact ⟨a, rfl⟩
  | error e => exact (h e hx).elim

theorem failsOnly_of_ok {a : α} (h : x.outcome = .ok a) : x.FailsOnly E := by
  intro e he
  rw [h] at he
  cases he

/-! ## §2. Steps. -/

theorem failsOnly_pure (a : α) : (pure a : Run α).FailsOnly E :=
  failsOnly_of_ok rfl

theorem failsOnly_report (event : Event) : (report event).FailsOnly E :=
  failsOnly_of_ok rfl

/-- **A sequence fails only as its parts do.** -/
theorem FailsOnly.bind {f : α → Run β} (hx : x.FailsOnly E)
    (hf : ∀ a, x.outcome = .ok a → (f a).FailsOnly E) : (x >>= f).FailsOnly E := by
  intro e he
  rw [outcome_bind, bind_eq_error_iff] at he
  rcases he with he | ⟨a, ha, he⟩
  · exact hx e he
  · exact hf a ha e he

theorem failsOnly_liftRefusal {c : Except Refusal α}
    (h : ∀ why, c = .error why → E (.refused why)) : (liftM c : Run α).FailsOnly E := by
  intro e he
  rw [outcome_liftRefusal] at he
  cases c with
  | error why =>
    cases he
    exact h why rfl
  | ok a => cases he

theorem failsOnly_liftFault {c : Except Fault α}
    (h : ∀ what, c = .error what → E (.faulted what)) : (liftM c : Run α).FailsOnly E := by
  intro e he
  rw [outcome_liftFault] at he
  cases c with
  | error what =>
    cases he
    exact h what rfl
  | ok a => cases he

/-! ## §3. Runs over lists. -/

/-- **A run over a list fails only as its steps do**, each from where the steps before it led. -/
theorem foldlM_failsOnly {P : β → List α → Prop} {f : β → α → Run β}
    (step : ∀ b done a b', P b done → (f b a).outcome = .ok b' → P b' (done ++ [a])) :
    ∀ (l done : List α) (b : β), P b done →
      (∀ before a after b, l = before ++ a :: after → P b (done ++ before) →
        (f b a).FailsOnly E) →
      (l.foldlM f b).FailsOnly E := by
  intro l
  induction l with
  | nil =>
    intro done b _ _
    exact failsOnly_pure b
  | cons a l ih =>
    intro done b hP hfails
    rw [List.foldlM_cons]
    refine FailsOnly.bind (hfails [] a l b rfl (by rwa [List.append_nil])) fun b' hb' => ?_
    refine ih (done ++ [a]) b' (step b done a b' hP hb') fun before c after b'' hl hP' => ?_
    refine hfails (a :: before) c after b'' (by rw [hl, List.cons_append]) ?_
    rwa [List.append_assoc] at hP'

end Run

end FirmwareMap
