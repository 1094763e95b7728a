/-
  FirmwareMap.Requirement
  ───────────────────────
  **CONDITIONS THAT HAVE TO HOLD, IN THEIR ORDER.**

  A check is a sequence of requirements; the first that does not hold gives
  the fault.  `require` asks for a condition, `demand` for a value:

      (require p e >>= fun _ => rest) = .ok r  ↔  p  and  rest = .ok r
      (demand o e >>= f) = .ok r               ↔  o = some a  and  f a = .ok r

  Often the value is the one of a list that has some key, such as a name.
-/
namespace FirmwareMap

variable {ε α β : Type}

/-- Goes on if the condition holds. -/
def require (p : Prop) [Decidable p] (e : ε) : Except ε Unit :=
  if p then .ok () else .error e

/-- Goes on with the value, if there is one. -/
def demand (o : Option α) (e : ε) : Except ε α :=
  match o with
  | some a => .ok a
  | none => .error e

@[simp] theorem require_eq_ok_iff {p : Prop} [Decidable p] {e : ε} {u : Unit} :
    require p e = .ok u ↔ p := by
  unfold require
  split <;> simp_all

@[simp] theorem demand_eq_ok_iff {o : Option α} {e : ε} {a : α} :
    demand o e = .ok a ↔ o = some a := by
  cases o <;> simp [demand]

@[simp] theorem demand_some (a : α) (e : ε) : demand (some a) e = .ok a := rfl

@[simp] theorem demand_none (e : ε) : demand (none : Option α) e = .error e := rfl

/-- A sequence succeeds when its first step does and the rest does with its result. -/
theorem bind_eq_ok_iff {x : Except ε α} {f : α → Except ε β} {b : β} :
    (x >>= f) = .ok b ↔ ∃ a, x = .ok a ∧ f a = .ok b := by
  cases x <;> simp [bind, Except.bind]

theorem require_bind_eq_ok_iff {p : Prop} [Decidable p] {e : ε} {f : Unit → Except ε β} {b : β} :
    (require p e >>= f) = .ok b ↔ p ∧ f () = .ok b := by
  by_cases h : p <;> simp [require, h, bind, Except.bind]

/-- If each value is found by its own key, a key finds the value that has it and no other. -/
theorem find?_key_eq_some_iff {κ : Type} [DecidableEq κ] {key : α → κ} {l : List α}
    (hown : ∀ a, l.find? (fun b => key b = key a) = some a) {a : α} {k : κ} :
    l.find? (fun b => key b = k) = some a ↔ key a = k := by
  constructor
  · intro h
    simpa using List.find?_some h
  · intro h
    rw [← h]
    exact hown a

end FirmwareMap
