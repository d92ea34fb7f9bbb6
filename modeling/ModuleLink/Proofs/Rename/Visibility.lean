import ModuleLink.Proofs.Rename.Capture

/-!
This module contains the proof that a walk outwards which remembers all earlier walks collects the same names as walks
that remember nothing but themselves, however often and in whatever order they are made.
-/

namespace ModuleLink
namespace ModuleScope

variable {s : ModuleScope} {id up x start : ScopeId} {name : String}

theorem upper?_eq_some : s.upper? id = some up ↔ ∃ scope, s.scope? id = some scope ∧ scope.upper = some up := by
  unfold upper?
  exact Option.bind_eq_some_iff

/--
The scopes that are met on the way outwards from `id`, up to the scope of the module or one of those in `met`, which
were met before. A missing scope is the last, since nothing is above it.
-/
def outwards (s : ModuleScope) (met : List ScopeId) (id : ScopeId) : List ScopeId :=
  if id = s.moduleScope ∨ id ∈ met then
    []
  else
    match _ : s.upper? id with
    | none => [id]
    | some up => id :: s.outwards (id :: met) up
termination_by s.unpassed (· ∈ met)
decreasing_by
  next hgo hup =>
    obtain ⟨scope, hscope, -⟩ := upper?_eq_some.1 hup
    apply unpassed_lt hscope
    · intro i hi
      simp only [decide_eq_true_eq] at hi ⊢
      exact List.mem_cons_of_mem id hi
    · simpa using fun hmet => hgo (.inr hmet)
    · simp

def outerNames (s : ModuleScope) (start : ScopeId) : List String :=
  (s.outwards [] start).flatMap fun id => (s.scope? id).elim [] (·.names)

theorem Meets.of_upper (h : s.Meets up x) (hup : s.upper? id = some up) (hne : id ≠ s.moduleScope) : s.Meets id x := by
  induction h with
  | start hstart => exact .upper (.start hne) hup hstart
  | upper _ hupper hmodule ih => exact .upper ih hupper hmodule

theorem meets_of_mem_outwards {met : List ScopeId} (h : x ∈ s.outwards met id) : s.Meets id x := by
  fun_induction outwards s met id with
  | case1 => cases h
  | case2 met id hgo hup =>
    cases List.mem_singleton.1 h
    exact .start fun hmodule => hgo (.inl hmodule)
  | case3 met id hgo up hup ih =>
    have hne : id ≠ s.moduleScope := fun hmodule => hgo (.inl hmodule)
    rcases List.mem_cons.1 h with rfl | h
    · exact .start hne
    · exact (ih h).of_upper hup hne

theorem mem_outwards_self {met : List ScopeId} (hmodule : id ≠ s.moduleScope) (hmet : id ∉ met)
    : id ∈ s.outwards met id := by
  unfold outwards
  rw [if_neg (not_or.2 ⟨hmodule, hmet⟩)]
  split
  · exact List.mem_singleton_self id
  · exact List.mem_cons_self

theorem upper_mem_outwards {met : List ScopeId} (h : x ∈ s.outwards met id) (hup : s.upper? x = some up)
    (hmodule : up ≠ s.moduleScope) : up ∈ s.outwards met id ∨ up ∈ met := by
  -- A walk stops nowhere else: the scope above one that is met is met as well, then or before.
  fun_induction outwards s met id with
  | case1 => cases h
  | case2 met id hgo hroot =>
    cases List.mem_singleton.1 h
    cases hroot.symm.trans hup
  | case3 met id hgo up' hup' ih =>
    have hnext : up ∈ s.outwards (id :: met) up' ∨ up ∈ id :: met := by
      rcases List.mem_cons.1 h with rfl | h
      · cases hup'.symm.trans hup
        by_cases hmet : up ∈ x :: met
        · exact .inr hmet
        · exact .inl (mem_outwards_self hmodule hmet)
      · exact ih h
    rcases hnext with hrest | hmet
    · exact .inl (List.mem_cons_of_mem id hrest)
    · rcases List.mem_cons.1 hmet with rfl | hmet
      · exact .inl List.mem_cons_self
      · exact .inr hmet

theorem mem_outwards_iff : x ∈ s.outwards [] start ↔ s.Meets start x := by
  constructor
  · exact meets_of_mem_outwards
  · intro h
    induction h with
    | start hmodule => exact mem_outwards_self hmodule List.not_mem_nil
    | upper _ hup hmodule ih => exact (upper_mem_outwards ih hup hmodule).resolve_right List.not_mem_nil

theorem mem_outerNames_iff : name ∈ s.outerNames start ↔ s.Sees start name := by
  unfold outerNames Sees
  simp only [List.mem_flatMap, mem_outwards_iff]
  constructor
  · rintro ⟨id, hmeets, hname⟩
    cases hscope : s.scope? id with
    | none =>
      rw [hscope] at hname
      cases hname
    | some scope =>
      rw [hscope] at hname
      exact ⟨id, scope, hmeets, hscope, hname⟩
  · rintro ⟨id, scope, hmeets, hscope, hname⟩
    refine ⟨id, hmeets, ?_⟩
    rw [hscope]
    exact hname

end ModuleScope

namespace Visibility

variable {owner : ModuleId} {scope : ModuleScope} {v v' : Visibility} {id : ScopeId} {name : String}

theorem Walks.names (h : Walks owner scope v id v') (hname : name ∈ v'.names)
    : name ∈ v.names ∨ scope.Sees id name := by
  induction h with
  | stop => exact .inl hname
  | missing => exact .inl hname
  | last hgo hinner _ =>
    rcases List.mem_append.1 hname with hbefore | hhere
    · exact .inl hbefore
    · exact .inr ⟨_, _, .start fun hmodule => hgo (.inl hmodule), hinner, hhere⟩
  | next hgo hinner hup _ ih =>
    have hmodule : _ ≠ scope.moduleScope := fun hmodule => hgo (.inl hmodule)
    rcases ih hname with hbefore | ⟨x, outer, hmeets, hrest⟩
    · rcases List.mem_append.1 hbefore with hbefore | hhere
      · exact .inl hbefore
      · exact .inr ⟨_, _, .start hmodule, hinner, hhere⟩
    · have hupper := ModuleScope.upper?_eq_some.2 ⟨_, hinner, hup⟩
      exact .inr ⟨x, outer, hmeets.of_upper hupper hmodule, hrest⟩

def addWalks (v : Visibility) (scopeOf : ModuleId → ModuleScope) (walks : List (ModuleId × ScopeId)) : Visibility :=
  walks.foldl (fun v walk => v.addScopeChain walk.1 (scopeOf walk.1) walk.2) v

theorem mem_names_addWalks {scopeOf : ModuleId → ModuleScope} (hscopeOf : ∀ a b, a == b → scopeOf a = scopeOf b)
    (hv : v.Closed scopeOf []) (walks : List (ModuleId × ScopeId))
    : name ∈ (v.addWalks scopeOf walks).names
        ↔
      name ∈ v.names ∨ ∃ walk ∈ walks, (scopeOf walk.1).Sees walk.2 name := by
  unfold addWalks
  induction walks generalizing v with
  | nil => simp
  | cons walk walks ih =>
    have ⟨hextends, hclosed, hseen⟩ := addScopeChain_closed hscopeOf hv walk.1 walk.2
    have hwalk : name ∈ (v.addScopeChain walk.1 (scopeOf walk.1) walk.2).names
        ↔ name ∈ v.names ∨ (scopeOf walk.1).Sees walk.2 name := by
      constructor
      · exact (walks_iff.2 rfl).names
      · rintro (hbefore | hsees)
        · exact hextends.names hbefore
        · exact hseen name hsees
    rw [List.foldl_cons, ih hclosed, hwalk, or_assoc, List.exists_mem_cons_iff]

/--
Every walk ends, whatever was walked through before, and a sequence of walks collects the names that each of them would
meet on its own. So neither the order of the walks nor their repetition matters.
-/
theorem addWalks_names (scopeOf : ModuleId → ModuleScope) (hscopeOf : ∀ a b, a == b → scopeOf a = scopeOf b)
    : (∀ (v : Visibility) (owner : ModuleId) (start : ScopeId) (v' : Visibility),
        Walks owner (scopeOf owner) v start v' ↔ v.addScopeChain owner (scopeOf owner) start = v')
        ∧
      (∀ (walks : List (ModuleId × ScopeId)) (name : String),
        name ∈ (({} : Visibility).addWalks scopeOf walks).names
          ↔ ∃ walk ∈ walks, name ∈ (scopeOf walk.1).outerNames walk.2)
        ∧
      ∀ walks walks' : List (ModuleId × ScopeId), (∀ walk, walk ∈ walks ↔ walk ∈ walks') →
        ∀ name, name ∈ (({} : Visibility).addWalks scopeOf walks).names
          ↔ name ∈ (({} : Visibility).addWalks scopeOf walks').names := by
  have hnames (walks : List (ModuleId × ScopeId)) (name : String)
      : name ∈ (({} : Visibility).addWalks scopeOf walks).names
        ↔ ∃ walk ∈ walks, name ∈ (scopeOf walk.1).outerNames walk.2 := by
    simp only [mem_names_addWalks hscopeOf closed_empty, ModuleScope.mem_outerNames_iff, List.not_mem_nil, false_or]
  refine ⟨fun _ _ _ _ => walks_iff, hnames, ?_⟩
  intro walks walks' hsame name
  simp only [hnames, hsame]

end Visibility

namespace Sample

/--
The first two inner scopes enclose each other, the third is in one that does not exist, and the last is in the first.
-/
def tangled : ModuleScope := ({} : ModuleScope)
  |>.addScope (some ⟨2⟩) ["x"]
  |>.addScope (some ⟨1⟩) ["y"]
  |>.addScope (some ⟨9⟩) ["z"]
  |>.addScope (some ⟨1⟩) ["w"]

end Sample

namespace Visibility

open Sample

theorem addWalks_names_sample
    : (({} : Visibility).addWalks (fun _ => tangled) [(a, ⟨4⟩), (a, ⟨2⟩), (b, ⟨3⟩)]).names = ["w", "x", "y", "z"]
        ∧
      (∃ walk ∈ [(a, ⟨4⟩), (a, ⟨2⟩), (b, ⟨3⟩)], "y" ∈ tangled.outerNames walk.2)
        ∧
      (∃ v, Walks a tangled {} ⟨4⟩ v ∧ v.names = ["w", "x", "y"])
        ∧
      ∀ name, name ∈ (({} : Visibility).addWalks (fun _ => tangled) [(a, ⟨2⟩), (b, ⟨3⟩), (a, ⟨4⟩), (a, ⟨2⟩)]).names
        ↔ name ∈ ["w", "x", "y", "z"] := by
  have hmem {p q r walk : ModuleId × ScopeId} : walk ∈ [q, r, p, q] ↔ walk ∈ [p, q, r] := by
    simp only [List.mem_cons, List.not_mem_nil]
    tauto
  obtain ⟨hwalks, hnames, hsame⟩ := addWalks_names (fun _ => tangled) fun _ _ _ => rfl
  have hcollected : (({} : Visibility).addWalks (fun _ => tangled) [(a, ⟨4⟩), (a, ⟨2⟩), (b, ⟨3⟩)]).names
      = ["w", "x", "y", "z"] := by
    decide
  refine ⟨hcollected, ?_, ?_, ?_⟩
  · apply (hnames _ _).1
    rw [hcollected]
    decide
  · refine ⟨_, (hwalks _ _ _ _).2 rfl, ?_⟩
    decide
  · intro name
    rw [← hcollected]
    exact hsame _ _ (fun _ => hmem) name

end Visibility
end ModuleLink
