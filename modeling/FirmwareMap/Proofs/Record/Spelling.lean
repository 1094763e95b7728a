/-
  FirmwareMap.Proofs.Record.Spelling
  ──────────────────────────────────
  **WHAT A RECORD SAYS, AND WHAT IT LEAVES OUT.**

  A record says `x` in a field if it has a value under the name of the field
  that means `x` there.  A record that is well spelled either says something in
  a field or does not have it, so what is read from it tells the two apart:

      r.field? f = some x  ↔  r says x in f
      r.field? f = none    ↔  r does not have f          (well spelled)
-/
import FirmwareMap.Proofs.Record.Reading
import FirmwareMap.Proofs.Report.Sequence

namespace FirmwareMap

namespace Field

theorem eq_of_name_eq {f g : Field} (h : g.name = f.name) : f = g := by
  rw [← ofName?_eq_some_iff, f.ofName?_name] at h
  exact Option.some.inj h

end Field

namespace Record

variable {r : Record} {f : Field}

/-! ## §1. Fields of a record. -/

/-- The record has the field, with a value that means `x` there. -/
def Says (r : Record) (f : Field) (x : f.Carrier) : Prop :=
  ∃ v, r.get? f.name = some v ∧ f.Means v x

/-- The record does not have the field. -/
def Lacks (r : Record) (f : Field) : Prop :=
  r.get? f.name = none

/-- All names are those of fields, and all values mean something in theirs. -/
def WellSpelled (r : Record) : Prop :=
  ∀ name v, (name, v) ∈ r.fields → ∃ (f : Field) (x : f.Carrier), f.name = name ∧ f.Means v x

theorem Says.unique {x y : f.Carrier} (hx : r.Says f x) (hy : r.Says f y) : x = y := by
  obtain ⟨v, hv, hx⟩ := hx
  obtain ⟨w, hw, hy⟩ := hy
  obtain rfl := Option.some.inj (hv.symm.trans hw)
  exact hx.unique hy

theorem Lacks.not_says (h : r.Lacks f) (x : f.Carrier) : ¬ r.Says f x := by
  intro hx
  obtain ⟨v, hv, -⟩ := hx
  rw [Lacks, hv] at h
  cases h

/-! ## §2. Reading. -/

theorem check_eq_ok_iff : r.check = .ok () ↔ r.WellSpelled := by
  unfold check
  rw [forM_eq_ok_iff, Prod.forall]
  refine forall_congr' fun name => forall_congr' fun v => imp_congr_right fun _ => ?_
  simp only [bind_eq_ok_iff, demand_eq_ok_iff, Field.ofName?_eq_some_iff, Field.read_eq_ok_iff]
  constructor
  · intro h
    obtain ⟨f, hf, x, hx, -⟩ := h
    exact ⟨f, x, hf, hx⟩
  · intro h
    obtain ⟨f, x, hf, hx⟩ := h
    exact ⟨f, hf, x, hx, rfl⟩

theorem field?_eq_some_iff {x : f.Carrier} : r.field? f = some x ↔ r.Says f x := by
  unfold field?
  rw [Option.bind_eq_some_iff]
  refine exists_congr fun v => and_congr_right fun _ => ?_
  rw [← Field.read_eq_ok_iff]
  cases f.read v <;> simp [Except.toOption]

/-- What is found in a record is one of its fields. -/
theorem mem_of_get? {name : String} {v : Value} (h : r.get? name = some v) :
    (name, v) ∈ r.fields := by
  obtain ⟨before, after, heq, -⟩ := List.lookup_eq_some_iff.mp h
  rw [heq]
  exact List.mem_append_right _ List.mem_cons_self

/-- A well-spelled record says something in each field that it has. -/
theorem WellSpelled.exists_says (h : r.WellSpelled) (hf : ¬ r.Lacks f) : ∃ x, r.Says f x := by
  obtain ⟨v, hv⟩ := Option.ne_none_iff_exists'.mp hf
  obtain ⟨g, x, hname, hx⟩ := h f.name v (mem_of_get? hv)
  -- the name belongs to one field only
  obtain rfl := Field.eq_of_name_eq hname
  exact ⟨x, v, hv, hx⟩

theorem WellSpelled.field?_eq_none_iff (h : r.WellSpelled) : r.field? f = none ↔ r.Lacks f := by
  constructor
  · intro hnone
    by_cases hf : r.Lacks f
    · exact hf
    · obtain ⟨x, hx⟩ := h.exists_says hf
      rw [field?_eq_some_iff.mpr hx] at hnone
      cases hnone
  · intro hf
    unfold field?
    rw [hf]
    rfl

theorem WellSpelled.isSome_field? (h : r.WellSpelled) :
    (r.field? f).isSome = true ↔ ¬ r.Lacks f := by
  rw [← h.field?_eq_none_iff, Option.isSome_iff_ne_none]

/-! ## §3. Fields that may be left out. -/

/-- The value is what the record says in the field, or the default if it does not have it. -/
def Reads (r : Record) (f : Field) (default x : f.Carrier) : Prop :=
  r.Says f x ∨ (r.Lacks f ∧ x = default)

/-- The value is what the record says in the field, if it has it. -/
def MayRead (r : Record) (f : Field) (o : Option f.Carrier) : Prop :=
  (∃ x, r.Says f x ∧ o = some x) ∨ (r.Lacks f ∧ o = none)

theorem Reads.unique {d x y : f.Carrier} (hx : r.Reads f d x) (hy : r.Reads f d y) : x = y := by
  rcases hx with hx | ⟨hf, rfl⟩
  · rcases hy with hy | ⟨hf, -⟩
    · exact hx.unique hy
    · exact absurd hx (hf.not_says x)
  · rcases hy with hy | ⟨-, rfl⟩
    · exact absurd hy (hf.not_says y)
    · rfl

theorem MayRead.unique {o o' : Option f.Carrier} (h : r.MayRead f o) (h' : r.MayRead f o') :
    o = o' := by
  rcases h with ⟨x, hx, rfl⟩ | ⟨hf, rfl⟩
  · rcases h' with ⟨y, hy, rfl⟩ | ⟨hf, -⟩
    · rw [hx.unique hy]
    · exact absurd hx (hf.not_says x)
  · rcases h' with ⟨y, hy, -⟩ | ⟨-, rfl⟩
    · exact absurd hy (hf.not_says y)
    · rfl

theorem WellSpelled.reads_iff (h : r.WellSpelled) {x d : f.Carrier} :
    r.Reads f d x ↔ x = (r.field? f).getD d := by
  unfold Reads
  rw [← field?_eq_some_iff, ← h.field?_eq_none_iff]
  cases r.field? f with
  | none => simp
  | some y => simp [eq_comm]

theorem WellSpelled.mayRead_iff (h : r.WellSpelled) {o : Option f.Carrier} :
    r.MayRead f o ↔ o = r.field? f := by
  unfold MayRead
  simp only [← field?_eq_some_iff, ← h.field?_eq_none_iff]
  cases r.field? f with
  | none => simp
  | some y => simp

end Record

end FirmwareMap
