/-
  FirmwareMap.Report.Run
  ──────────────────────
  **A COMPUTATION, WHAT IT REPORTED, AND HOW IT ENDED.**

  A run has events and an outcome.  The outcome is a value, a refusal of the
  input, or a fault: a state of affairs that the library itself excludes.
  Runs in sequence report one after the other, and what was reported stays
  reported when a later step fails:

      (x >>= f).events  = x.events ++ (f a).events     if x ends with a
      (x >>= f).outcome = x.outcome >>= fun a => (f a).outcome
-/
import FirmwareMap.Refusal
import FirmwareMap.Report.Event

namespace FirmwareMap

/-! ## §1. How a run ends. -/

/-- A step that cannot be taken on words or inside a table. -/
inductive Fault where
  /-- A sum of addresses is not an address. -/
  | overflow
  /-- A table does not start at a multiple of its size. -/
  | misalignedTable (address : Word)
  /-- A slot lies outside its table. -/
  | slotOutsideTable (slot : Word)
  /-- An entry lies outside the image of the tables, or across two of its words. -/
  | entryOutsideImage (address : Word)
  deriving DecidableEq, Repr

/-- Why there is no result. -/
inductive Failure where
  /-- The input is refused. -/
  | refused (why : Refusal)
  /-- Something impossible was asked for. -/
  | faulted (what : Fault)
  deriving DecidableEq, Repr

/-! ## §2. Runs. -/

/-- The events of a computation and its outcome. -/
structure Run (α : Type) where
  /-- What was reported, in order. -/
  events : List Event
  /-- How it ended. -/
  outcome : Except Failure α

namespace Run

variable {α β : Type}

/-- The run that reports nothing. -/
def ofExcept (outcome : Except Failure α) : Run α :=
  ⟨[], outcome⟩

/-- The run that only reports. -/
def report (e : Event) : Run Unit :=
  ⟨[e], .ok ()⟩

/-- The run that refuses the input. -/
def refuse (why : Refusal) : Run α :=
  ofExcept (.error (.refused why))

/-- A run; if it ends in a refusal that `next?` takes up, then what comes next. -/
def recover (x : Run α) (next? : Refusal → Option (Run α)) : Run α :=
  match x.outcome with
  | .error (.refused why) =>
    match next? why with
    | some y => ⟨x.events ++ y.events, y.outcome⟩
    | none => x
  | .error (.faulted _) | .ok _ => x

/-- One run after another. -/
def andThen (x : Run α) (f : α → Run β) : Run β :=
  match x.outcome with
  | .ok a =>
    let y := f a
    ⟨x.events ++ y.events, y.outcome⟩
  | .error e => ⟨x.events, .error e⟩

instance : Monad Run where
  pure a := ofExcept (.ok a)
  bind := andThen

instance : MonadLift (Except Refusal) Run where
  monadLift x := ofExcept (x.mapError .refused)

instance : MonadLift (Except Fault) Run where
  monadLift x := ofExcept (x.mapError .faulted)

/-! ## §3. Sequences. -/

@[simp] theorem outcome_pure (a : α) : (pure a : Run α).outcome = .ok a := rfl

@[simp] theorem outcome_report (e : Event) : (report e).outcome = .ok () := rfl

@[simp] theorem outcome_bind (x : Run α) (f : α → Run β) :
    (x >>= f).outcome = x.outcome >>= fun a => (f a).outcome := by
  show (andThen x f).outcome = _
  unfold andThen
  cases x.outcome <;> rfl

@[simp] theorem outcome_liftRefusal (x : Except Refusal α) :
    (liftM x : Run α).outcome = x.mapError .refused := rfl

@[simp] theorem outcome_liftFault (x : Except Fault α) :
    (liftM x : Run α).outcome = x.mapError .faulted := rfl

theorem andThen_ofExcept_ok (x : Run α) : x.andThen (fun a => ofExcept (.ok a)) = x := by
  obtain ⟨events, outcome⟩ := x
  cases outcome <;> simp [andThen, ofExcept]

theorem andThen_assoc {γ : Type} (x : Run α) (f : α → Run β) (g : β → Run γ) :
    (x.andThen f).andThen g = x.andThen fun a => (f a).andThen g := by
  obtain ⟨events, outcome⟩ := x
  cases outcome with
  | error => rfl
  | ok a => cases h : (f a).outcome <;> simp [andThen, h]

instance : LawfulMonad Run :=
  LawfulMonad.mk' Run andThen_ofExcept_ok (fun _ _ => rfl) andThen_assoc

end Run

end FirmwareMap
