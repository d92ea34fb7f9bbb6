import Mathlib.Data.List.DropRight
import ModuleLink.Proofs.Condition
import ModuleLink.Proofs.Graph.Operation

/-!
This module contains the laws by which conditions compose, and what they mean for a connection. Its activity is that of
the last switch, or of its dependency, as far as all the conditions leave it that were added since.
-/

namespace ModuleLink

namespace Activity

def ofSwitch (on : Bool) : Activity := if on then .active else .inactive

@[simp]
theorem active_intersect (a : Activity) : active.intersect a = a := by
  cases a <;> rfl

@[simp]
theorem intersect_active (a : Activity) : a.intersect active = a := by
  cases a <;> rfl

@[simp]
theorem inactive_intersect (a : Activity) : inactive.intersect a = inactive := by
  cases a <;> rfl

theorem intersect_comm (a b : Activity) : a.intersect b = b.intersect a := by
  cases a <;> cases b <;> rfl

instance associative_intersect : Std.Associative intersect where
  assoc := by
    intro a b c
    cases a <;> cases b <;> cases c <;> rfl

theorem intersect_right_comm (a b c : Activity) : (a.intersect b).intersect c = (a.intersect c).intersect b := by
  rw [associative_intersect.assoc, intersect_comm b, associative_intersect.assoc]

theorem foldl_intersect (as : List Activity) (a b : Activity)
    : as.foldl intersect (a.intersect b) = a.intersect (as.foldl intersect b) :=
  List.foldl_assoc

theorem foldl_intersect_perm {as bs : List Activity} (h : as.Perm bs) (state : Activity)
    : as.foldl intersect state = bs.foldl intersect state :=
  h.foldl_eq' (fun a _ b _ state => intersect_right_comm state a b) state

end Activity

namespace Condition

variable {runtime : Option RuntimeSpec}

theorem evaluateAll_eq_foldl (state : Activity) (conditions : List Condition)
    : evaluateAll runtime state conditions = (conditions.map (·.evaluate runtime)).foldl Activity.intersect state := by
  induction conditions generalizing state with
  | nil => rfl
  | cons c cs ih => rw [evaluateAll, ih, List.map_cons, List.foldl_cons]

theorem evaluate_append (cs ds : List Condition)
    : evaluate runtime (.all (cs ++ ds)) = (evaluate runtime (.all cs)).intersect (evaluate runtime (.all ds)) := by
  simp only [evaluate, evaluateAll_eq_foldl, List.map_append, List.foldl_append]
  rw [← Activity.foldl_intersect, Activity.intersect_active]

theorem evaluate_singleton (c : Condition) : evaluate runtime (.all [c]) = c.evaluate runtime := by
  simp [evaluate, evaluateAll]

theorem evaluate_and (a b : Condition)
    : (a.and b).evaluate runtime = (a.evaluate runtime).intersect (b.evaluate runtime) := by
  fun_cases Condition.and a b with
  | case1 => rw [evaluate, Activity.active_intersect]
  | case2 => rw [evaluate, Activity.intersect_active]
  | case3 cs ds => exact evaluate_append cs ds
  | case4 cs => rw [evaluate_append, evaluate_singleton]
  | case5 cs => rw [evaluate_append, evaluate_singleton, Activity.intersect_comm]
  | case6 => rw [← evaluate_singleton a, ← evaluate_singleton b, ← evaluate_append, List.singleton_append]

end Condition

namespace Connection

variable {runtime : Option RuntimeSpec}

theorem activity_of_condition {c : Connection} {condition : Condition} (h : c.condition = some condition)
    : c.activity runtime = condition.evaluate runtime := by
  unfold activity
  rw [h]

theorem activity_of_none {c : Connection} (h : c.condition = none) : c.activity runtime = .ofSwitch c.active := by
  unfold activity
  rw [h]
  rfl

theorem activity_resolve (id : ConnectionId) (origin : Option ModuleId) (number : DependencyId)
    (dependency : Dependency) (target : ModuleId)
    : (resolve id origin number dependency target).activity runtime = dependency.condition.evaluate runtime := by
  unfold activity resolve
  dsimp only
  cases dependency.condition with
  | always =>
    rw [Condition.evaluate]
    rfl
  | _ => rfl

/--
The restriction is kept as a condition, unless the connection is switched off, where nothing is left to restrict.
-/
theorem activity_addCondition (c : Connection) (condition : Condition)
    : (c.addCondition condition).activity runtime = (c.activity runtime).intersect (condition.evaluate runtime) := by
  cases hc : c.condition with
  | some existing =>
    rw [activity_of_condition hc, ← Condition.evaluate_and]
    apply activity_of_condition
    simp only [addCondition, hc]
  | none =>
    rw [activity_of_none hc]
    cases hactive : c.active with
    | true =>
      rw [Activity.ofSwitch, if_pos rfl, Activity.active_intersect]
      apply activity_of_condition
      simp only [addCondition, hc, hactive, if_true]
    | false =>
      have hsame : c.addCondition condition = c := by
        simp [addCondition, hc, hactive]
      rw [hsame, activity_of_none hc, hactive]
      exact (Activity.inactive_intersect _).symm

theorem activity_addExplanation (c : Connection) (explanation : String)
    : (c.addExplanation explanation).activity runtime = c.activity runtime := rfl

theorem activity_foldl_addCondition (conditions : List Condition) (c : Connection)
    : (conditions.foldl addCondition c).activity runtime
        =
      (conditions.map (·.evaluate runtime)).foldl Activity.intersect (c.activity runtime) := by
  induction conditions generalizing c with
  | nil => rfl
  | cons condition conditions ih =>
    rw [List.foldl_cons, ih, activity_addCondition, List.map_cons, List.foldl_cons]

end Connection

namespace ConnectionEdit

def switch? : ConnectionEdit → Option Bool
  | .setActive active => some active
  | _ => none

def condition? : ConnectionEdit → Option Condition
  | .addCondition condition => some condition
  | _ => none

def lastSwitch? (edits : List ConnectionEdit) : Option Bool := (edits.filterMap switch?).getLast?

def conditionsSince (edits : List ConnectionEdit) : List Condition :=
  (edits.rtakeWhile (·.switch?.isNone)).filterMap condition?

theorem lastSwitch?_concat (edits : List ConnectionEdit) (e : ConnectionEdit)
    : lastSwitch? (edits ++ [e]) = e.switch?.or (lastSwitch? edits) := by
  unfold lastSwitch?
  rw [List.filterMap_append]
  cases h : e.switch? with
  | none => simp [h]
  | some active => simp [h]

theorem conditionsSince_concat (edits : List ConnectionEdit) (e : ConnectionEdit)
    : conditionsSince (edits ++ [e])
        =
      if e.switch?.isNone then conditionsSince edits ++ e.condition?.toList else [] := by
  unfold conditionsSince
  rw [List.rtakeWhile_concat]
  split
  · rw [List.filterMap_append]
    cases h : e.condition? <;> simp [h]
  · rfl

def remaining (runtime : Option RuntimeSpec) (state : Activity) (edits : List ConnectionEdit) : Activity :=
  ((conditionsSince edits).map (·.evaluate runtime)).foldl Activity.intersect
    (((lastSwitch? edits).map Activity.ofSwitch).getD state)

theorem remaining_concat (runtime : Option RuntimeSpec) (state : Activity) (edits : List ConnectionEdit)
    (e : ConnectionEdit) {c : Connection} (h : c.activity runtime = remaining runtime state edits)
    : (e.apply c).activity runtime = remaining runtime state (edits ++ [e]) := by
  unfold remaining at h ⊢
  rw [lastSwitch?_concat, conditionsSince_concat]
  cases e with
  | setActive active => rfl
  | addCondition condition =>
    rw [apply, Connection.activity_addCondition, h]
    simp [switch?, condition?]
  | addExplanation explanation =>
    rw [apply, Connection.activity_addExplanation, h]
    simp [switch?, condition?]

theorem activity_edits (runtime : Option RuntimeSpec) (edits : List ConnectionEdit) (c : Connection)
    : (edits.foldl apply c).activity runtime = remaining runtime (c.activity runtime) edits :=
  foldl_prefix_induction
    (fun edits (x : Connection) => x.activity runtime = remaining runtime (c.activity runtime) edits)
    (fun edits _ e h => remaining_concat runtime _ edits e h) rfl edits

end ConnectionEdit

open ConnectionEdit in
/--
Conditions compose as the activities do to which they evaluate. Hence a connection is as active as the last switch or
its dependency allow together with every condition since, whatever the order of these.
-/
theorem Connection.conditions_compose (runtime : Option RuntimeSpec)
    : (∀ a b : Condition, (a.and b).evaluate runtime = (a.evaluate runtime).intersect (b.evaluate runtime))
        ∧
      (∀ (id : ConnectionId) (origin : Option ModuleId) (number : DependencyId) (dependency : Dependency)
          (target : ModuleId) (edits : List ConnectionEdit),
        (edits.foldl ConnectionEdit.apply (resolve id origin number dependency target)).activity runtime
          =
        ((conditionsSince edits).map (·.evaluate runtime)).foldl Activity.intersect
          (((lastSwitch? edits).map Activity.ofSwitch).getD (dependency.condition.evaluate runtime)))
        ∧
      (∀ (c : Connection) (condition : Condition), c.activity runtime = .inactive →
        (c.addCondition condition).activity runtime = .inactive)
        ∧
      ∀ (c : Connection) (cs ds : List Condition), cs.Perm ds →
        (cs.foldl addCondition c).activity runtime = (ds.foldl addCondition c).activity runtime := by
  refine ⟨Condition.evaluate_and, ?_, ?_, ?_⟩
  · intro id origin number dependency target edits
    rw [activity_edits, activity_resolve]
    rfl
  · intro c condition hc
    rw [activity_addCondition, hc, Activity.inactive_intersect]
  · intro c cs ds hperm
    rw [activity_foldl_addCondition, activity_foldl_addCondition]
    exact Activity.foldl_intersect_perm (hperm.map _) _

namespace Sample

def live : RuntimeSpec := .single "live"

def draft : RuntimeSpec := .single "draft"

def preview : Connection :=
  .resolve ⟨0⟩ none ⟨0⟩ { request := "./chart", condition := .inRuntimes draft } ⟨"./chart"⟩

def release : List ConnectionEdit := [
  .addCondition .never, .setActive true, .addCondition (.all [.always, .inRuntimes live]),
  .addExplanation "release", .addCondition .transitiveOnly]

end Sample

theorem Connection.conditions_compose_sample
    : (Sample.release.foldl ConnectionEdit.apply Sample.preview).activity (some Sample.live) = .transitiveOnly ∧
      (Sample.release.foldl ConnectionEdit.apply Sample.preview).activity (some Sample.draft) = .inactive ∧
      Sample.preview.activity (some Sample.live) = .inactive ∧
      (Sample.preview.addCondition .always).activity (some Sample.live) = .inactive ∧
      ([.inRuntimes Sample.draft, .transitiveOnly].foldl addCondition Sample.preview).activity (some Sample.draft)
        =
      ([.transitiveOnly, .inRuntimes Sample.draft].foldl addCondition Sample.preview).activity (some Sample.draft) := by
  have hlive := conditions_compose (some Sample.live)
  have hdraft := conditions_compose (some Sample.draft)
  have hoff : Sample.preview.activity (some Sample.live) = .inactive := by decide
  refine ⟨?_, ?_, hoff, hlive.2.2.1 _ _ hoff, hdraft.2.2.2 _ _ _ (.swap _ _ [])⟩
  · rw [Sample.preview, hlive.2.1]
    decide
  · rw [Sample.preview, hdraft.2.1]
    decide

end ModuleLink
