import Mathlib.Data.List.Sort
import ModuleLink.Connection

/-!
This module contains facts about sets of runtimes and the conditions on them. A condition that holds in some
runtimes also holds when more runtimes are looked at together.
-/

namespace ModuleLink

namespace RuntimeSpec

variable {s t : RuntimeSpec} {name : String}

@[simp]
theorem mem_ofNames {names : List String} : name ∈ (ofNames names).names ↔ name ∈ names := mem_increasing

@[simp]
theorem mem_single {r : String} : name ∈ (single r).names ↔ name = r := by
  simp [single]

@[simp]
theorem mem_merge : name ∈ (s.merge t).names ↔ name ∈ s.names ∨ name ∈ t.names := by
  simp [merge]

theorem eq_of_mem_iff (h : ∀ name, name ∈ s.names ↔ name ∈ t.names) : s = t := by
  obtain ⟨names, hs⟩ := s
  obtain ⟨names', ht⟩ := t
  have heq : names = names' := hs.eq_of_mem_iff ht h
  subst heq
  rfl

theorem covers_mono {condition : RuntimeSpec} (hsub : ∀ name ∈ s.names, name ∈ t.names)
    (h : condition.covers (some s)) : condition.covers (some t) := by
  simp only [covers, intersects, List.any_eq_true, contains, List.contains_iff_mem] at h ⊢
  obtain ⟨name, hcondition, hs⟩ := h
  exact ⟨name, hcondition, hsub name hs⟩

end RuntimeSpec

theorem Activity.intersect_eq_active {a b : Activity} : a.intersect b = .active ↔ a = .active ∧ b = .active := by
  cases a <;> cases b <;> decide

namespace Condition

theorem evaluateAll_eq_active {runtime : Option RuntimeSpec} {state : Activity} {conditions : List Condition}
    : evaluateAll runtime state conditions = .active
        ↔
      state = .active ∧ ∀ c ∈ conditions, c.evaluate runtime = .active := by
  induction conditions generalizing state with
  | nil => simp [evaluateAll]
  | cons c cs ih =>
    rw [evaluateAll, ih, Activity.intersect_eq_active, List.forall_mem_cons]
    exact and_assoc

theorem evaluate_mono {s t : RuntimeSpec} (hsub : ∀ name ∈ s.names, name ∈ t.names)
    : ∀ c : Condition, c.evaluate (some s) = .active → c.evaluate (some t) = .active
  | .always, _ => by rw [evaluate]
  | .never, h | .transitiveOnly, h => by
    rw [evaluate] at h
    cases h
  | .inRuntimes spec, h => by
    rw [evaluate] at h ⊢
    split at h
    next hcovers => rw [if_pos (RuntimeSpec.covers_mono hsub hcovers)]
    · cases h
  | .all cs, h => by
    rw [evaluate, evaluateAll_eq_active] at h ⊢
    exact ⟨rfl, fun c hc => evaluate_mono hsub c (h.2 c hc)⟩

end Condition

theorem Connection.isTargetActive_mono {c : Connection} {s t : RuntimeSpec}
    (hsub : ∀ name ∈ s.names, name ∈ t.names) (h : c.isTargetActive (some s)) : c.isTargetActive (some t) := by
  unfold isTargetActive activity at h ⊢
  cases hcondition : c.condition with
  | none =>
    rw [hcondition] at h
    exact h
  | some condition =>
    rw [hcondition] at h
    exact beq_iff_eq.2 (condition.evaluate_mono hsub (beq_iff_eq.1 h))

end ModuleLink
