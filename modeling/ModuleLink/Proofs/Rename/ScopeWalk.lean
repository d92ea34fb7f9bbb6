import ModuleLink.Proofs.MergeSet
import ModuleLink.Rename.Visibility

/-!
This module contains the proof that a walk outwards comes to its end, also where the links between scopes are dangling
or cyclic. It passes no scope twice, so the number of scopes that are left to pass gets smaller with every step.
-/

namespace ModuleLink
namespace ModuleScope

def unpassed (s : ModuleScope) (passed : ScopeId → Bool) : Nat :=
  ((List.range s.scopes.size).filter fun i => !passed ⟨i⟩).length

variable {s : ModuleScope} {id : ScopeId} {scope : Scope}

theorem lt_size_of_scope? (h : s.scope? id = some scope) : id.index < s.scopes.size := by
  unfold scope? at h
  exact (Array.getElem?_eq_some_iff.1 h).1

theorem unpassed_le (s : ModuleScope) (passed : ScopeId → Bool) : s.unpassed passed ≤ s.scopes.size := by
  unfold unpassed
  have hle := List.length_filter_le (fun i => !passed ⟨i⟩) (List.range s.scopes.size)
  rwa [List.length_range] at hle

theorem unpassed_lt {passed passed' : ScopeId → Bool} (hscope : s.scope? id = some scope)
    (hgrows : ∀ i, passed i → passed' i) (hid : ¬passed id) (hid' : passed' id)
    : s.unpassed passed' < s.unpassed passed := by
  have hsublist : ((List.range s.scopes.size).filter fun i => !passed' ⟨i⟩).Sublist
      ((List.range s.scopes.size).filter fun i => !passed ⟨i⟩) := by
    apply List.monotone_filter_right
    intro i hi
    rw [Bool.not_eq_true', Bool.eq_false_iff] at hi ⊢
    exact fun h => hi (hgrows _ h)
  apply Nat.lt_of_le_of_ne hsublist.length_le
  intro hlength
  -- The scope itself is among those that are left before, but not after.
  have hleft : id.index ∈ (List.range s.scopes.size).filter fun i => !passed ⟨i⟩ := by
    rw [List.mem_filter, List.mem_range]
    exact ⟨lt_size_of_scope? hscope, by simpa using hid⟩
  rw [← hsublist.eq_of_length hlength, List.mem_filter] at hleft
  simp [hid'] at hleft

end ModuleScope

namespace Visibility

/--
A walk of `owner` without any bound: it goes from one scope to the next until there is a reason to stop.
-/
inductive Walks (owner : ModuleId) (scope : ModuleScope) : Visibility → ScopeId → Visibility → Prop where
  | stop {v : Visibility} {id : ScopeId} :
      id = scope.moduleScope ∨ v.checked.contains (owner, id) → Walks owner scope v id v
  | missing {v : Visibility} {id : ScopeId} :
      ¬(id = scope.moduleScope ∨ v.checked.contains (owner, id)) → scope.scope? id = none →
      Walks owner scope v id ⟨v.names, (owner, id) :: v.checked⟩
  | last {v : Visibility} {id : ScopeId} {inner : Scope} :
      ¬(id = scope.moduleScope ∨ v.checked.contains (owner, id)) → scope.scope? id = some inner →
      inner.upper = none → Walks owner scope v id ⟨v.names ++ inner.names, (owner, id) :: v.checked⟩
  | next {v v' : Visibility} {id up : ScopeId} {inner : Scope} :
      ¬(id = scope.moduleScope ∨ v.checked.contains (owner, id)) → scope.scope? id = some inner →
      inner.upper = some up → Walks owner scope ⟨v.names ++ inner.names, (owner, id) :: v.checked⟩ up v' →
      Walks owner scope v id v'

variable {owner : ModuleId} {scope : ModuleScope} {v v' v'' : Visibility} {id start : ScopeId}

theorem addScopeChain.go_walks {fuel : Nat}
    (hfuel : scope.unpassed (fun i => v.checked.contains (owner, i)) < fuel)
    : Walks owner scope v id (go owner scope fuel v id) := by
  induction fuel generalizing v id with
  | zero => cases hfuel
  | succ fuel ih =>
    unfold go
    split
    · next hstop => exact .stop hstop
    · next hgo =>
      split
      · next hmissing => exact .missing hgo hmissing
      · next inner hinner =>
        split
        · next hroot => exact .last hgo hinner hroot
        · next up hup =>
          refine .next hgo hinner hup (ih ?_)
          have hless : scope.unpassed (fun i => List.contains ((owner, id) :: v.checked) (owner, i))
              < scope.unpassed fun i => v.checked.contains (owner, i) := by
            apply ModuleScope.unpassed_lt hinner
            · intro i hi
              rw [List.contains_cons, hi, Bool.or_true]
            · exact fun hchecked => hgo (.inr hchecked)
            · rw [List.contains_cons, BEq.rfl, Bool.true_or]
          exact Nat.lt_of_lt_of_le hless (Nat.le_of_lt_succ hfuel)

theorem Walks.unique (h : Walks owner scope v id v') (h' : Walks owner scope v id v'') : v' = v'' := by
  induction h with
  | stop hstop =>
    cases h' with
    | stop => rfl
    | missing hgo | last hgo | next hgo => exact absurd hstop hgo
  | missing hgo hmissing =>
    cases h' with
    | stop hstop => exact absurd hstop hgo
    | missing => rfl
    | last _ hinner | next _ hinner => cases hmissing.symm.trans hinner
  | last hgo hinner hroot =>
    cases h' with
    | stop hstop => exact absurd hstop hgo
    | missing _ hmissing => cases hmissing.symm.trans hinner
    | last _ hinner' =>
      cases hinner.symm.trans hinner'
      rfl
    | next _ hinner' hup =>
      cases hinner.symm.trans hinner'
      cases hroot.symm.trans hup
  | next hgo hinner hup _ ih =>
    cases h' with
    | stop hstop => exact absurd hstop hgo
    | missing _ hmissing => cases hmissing.symm.trans hinner
    | last _ hinner' hroot =>
      cases hinner.symm.trans hinner'
      cases hroot.symm.trans hup
    | next _ hinner' hup' hrest =>
      cases hinner.symm.trans hinner'
      cases hup.symm.trans hup'
      exact ih hrest

theorem walks_iff : Walks owner scope v start v' ↔ v.addScopeChain owner scope start = v' := by
  have hwalks : Walks owner scope v start (v.addScopeChain owner scope start) :=
    addScopeChain.go_walks (Nat.lt_succ_of_le (scope.unpassed_le _))
  constructor
  · exact hwalks.unique
  · rintro rfl
    exact hwalks

end Visibility
end ModuleLink
