import ModuleLink.Proofs.Graph.Lists
import ModuleLink.Proofs.Merge.External

/-!
This module contains what a connection does for a merge set if it carries bindings in none of the runtimes. Whether a
connection is an import is decided for all runtimes together, and in which of them it is one only after that. A
conjunction can hold for the runtimes together and in none of them alone; the connection is then an import without
any runtime.
-/

namespace ModuleLink

theorem filterMap_erase_of_none {α : Type u} {β : Type v} [DecidableEq α] {f : α → Option β} {a : α} (h : f a = none)
    (as : List α) : (as.erase a).filterMap f = as.filterMap f := by
  induction as with
  | nil => rfl
  | cons b bs ih =>
    by_cases hb : b = a
    · subst hb
      rw [List.erase_cons_head, List.filterMap_cons_none h]
    · rw [List.erase_cons_tail (by simpa using hb), List.filterMap_cons, List.filterMap_cons, ih]

theorem foldl_filterMap_of_skip {α : Type u} {β : Type v} {γ : Type w} {f : γ → β → γ} {p q : α → Option β}
    {as : List α} (h : ∀ a ∈ as, q a = p a ∨ q a = none ∧ ∀ b, p a = some b → ∀ state, f state b = state) (state : γ)
    : (as.filterMap q).foldl f state = (as.filterMap p).foldl f state := by
  induction as generalizing state with
  | nil => rfl
  | cons a as ih =>
    rw [List.forall_mem_cons] at h
    rcases h.1 with hsame | ⟨hnone, hskip⟩
    · rw [List.filterMap_cons, List.filterMap_cons, hsame]
      cases p a with
      | none => exact ih h.2 state
      | some b => exact ih h.2 (f state b)
    · rw [List.filterMap_cons_none hnone, ih h.2]
      cases hp : p a with
      | none => rw [List.filterMap_cons_none hp]
      | some b => rw [List.filterMap_cons_some hp, List.foldl_cons, hskip b hp]

def Connection.IsIdle (x : Connection) (spec : RuntimeSpec) : Prop :=
  ∀ name ∈ spec.names, x.isTargetActive (some (.single name)) = false

namespace Graph

variable {g : Graph} {c : ConnectionId} {x : Connection} {runtime : Option RuntimeSpec}

def without (g : Graph) (c : ConnectionId) : Graph :=
  { g with
    nodes := g.nodes.mapValues fun _ n => (n.removeIncoming c).removeOutgoing c
    connections := g.connections.setIfInBounds c.index none
    current := ⟨g.current.entries.filter fun e => e.2 != c⟩ }

theorem outgoing_without (id : ModuleId)
    : (g.without c).outgoing id
        =
      (g.node id).map fun n => (n.outgoing.getD []).filterMap fun c' => if c = c' then none else g.connection? c' := by
  have hcollect (n : Node) : (g.without c).collect (((n.removeIncoming c).removeOutgoing c).outgoing.getD [])
      = (n.outgoing.getD []).filterMap fun c' => if c = c' then none else g.connection? c' := by
    unfold collect Node.removeOutgoing Node.removeIncoming
    rw [funext (connection?_emptied rfl)]
    cases n.outgoing with
    | none => rfl
    | some cs => exact filterMap_erase_of_none (a := c) (if_pos rfl) cs
  unfold outgoing node
  have hnode : (g.without c).nodes.get? id = (g.nodes.get? id).map fun n => (n.removeIncoming c).removeOutgoing c :=
    Dict.get?_mapValues ..
  rw [hnode]
  cases g.nodes.get? id with
  | none => rfl
  | some n => exact congrArg Except.ok (hcollect n)

theorem imports_without (hx : g.connection? c = some x) (h : ∀ id, ¬g.Follows runtime id x) (id : ModuleId)
    : (g.without c).imports runtime id = g.imports runtime id := by
  unfold imports
  rw [outgoing_without]
  cases hnode : g.node id with
  | error e =>
    unfold outgoing
    rw [hnode]
    rfl
  | ok n =>
    have hout : g.outgoing id = .ok (g.collect (n.outgoing.getD [])) := by
      unfold outgoing
      rw [hnode]
      rfl
    rw [hout]
    refine congrArg (fun imports : Dict ModuleId (Option RuntimeSpec × Bool) =>
      Except.ok (imports.entries.map fun e => (⟨e.1, e.2.1, e.2.2⟩ : Import))) (foldl_filterMap_of_skip ?_ _)
    intro c' hc'
    by_cases heq : c = c'
    · right
      subst heq
      refine ⟨if_pos rfl, ?_⟩
      rw [hx]
      rintro _ ⟨⟩ imports
      split
      next hown =>
        have ⟨hdependency, horigin⟩ := Bool.and_eq_true_iff.1 hown
        have hinactive : x.isTargetActive runtime = false := by
          rw [← Bool.not_eq_true]
          intro hactive
          exact h id ⟨⟨_, hout, List.mem_filterMap.2 ⟨c, hc', hx⟩⟩, hdependency, horigin, hactive⟩
        rw [Connection.importCondition?_eq_none.2 hinactive]
      next => rfl
    · left
      exact if_neg heq

end Graph

section Congruence

variable {g g' : Graph} {runtime : Option RuntimeSpec} (h : ∀ id, g'.imports runtime id = g.imports runtime id)
include h

theorem Walk.enter_congr (fuel : Nat) : Walk.enter g' runtime fuel = Walk.enter g runtime fuel := by
  induction fuel with
  | zero =>
    funext w i
    unfold Walk.enter
    split
    · rfl
    · cases w.pending.get? i.target with
      | none => rfl
      | some member => rfl
  | succ n ih =>
    funext w i
    unfold Walk.enter
    split
    · rfl
    · cases w.pending.get? i.target with
      | none => rfl
      | some member =>
        dsimp only
        rw [h, ih]

theorem MergeSet.ofGraph_congr (root : ModuleId) (members : List Member)
    : MergeSet.ofGraph g' root members runtime = MergeSet.ofGraph g root members runtime := by
  unfold MergeSet.ofGraph
  dsimp only
  rw [h, Walk.enter_congr h]

end Congruence

theorem RuntimeSpec.covers_iff_exists {condition spec : RuntimeSpec}
    : condition.covers (some spec) ↔ ∃ name ∈ spec.names, condition.covers (some (.single name)) := by
  simp only [covers, intersects, List.any_eq_true, contains, List.contains_iff_mem, mem_single]
  constructor
  · rintro ⟨name, hcondition, hname⟩
    exact ⟨name, hname, name, hcondition, rfl⟩
  · rintro ⟨name, hname, _, hcondition, rfl⟩
    exact ⟨_, hcondition, hname⟩

namespace Connection

variable {x : Connection} {spec : RuntimeSpec}

theorem isTargetActive_of_condition {condition : Condition} (h : x.condition = some condition)
    (runtime : Option RuntimeSpec) : x.isTargetActive runtime ↔ condition.evaluate runtime = .active := by
  unfold isTargetActive activity
  rw [h]
  exact beq_iff_eq

theorem evaluate_inRuntimes {runtimes : RuntimeSpec} {runtime : Option RuntimeSpec}
    : (Condition.inRuntimes runtimes).evaluate runtime = .active ↔ runtimes.covers runtime := by
  rw [Condition.evaluate]
  split <;> simp_all

namespace IsIdle

theorem condition_eq_all (hidle : x.IsIdle spec) (hspec : spec.names ≠ []) (hactive : x.isTargetActive (some spec))
    : ∃ cs, x.condition = some (.all cs) := by
  obtain ⟨name, hname⟩ := List.exists_mem_of_ne_nil _ hspec
  have hfalse (r : String) (hr : r ∈ spec.names) : ¬x.isTargetActive (some (.single r)) := by
    rw [hidle r hr]
    exact Bool.false_ne_true
  cases hcondition : x.condition with
  | none =>
    rw [isTargetActive_of_not_isConditional (by simp [isConditional, hcondition]) _ (some (.single name))] at hactive
    exact absurd hactive (hfalse name hname)
  | some condition =>
    have hiff := isTargetActive_of_condition hcondition
    rw [hiff] at hactive
    cases condition with
    | all cs => exact ⟨cs, rfl⟩
    | always => exact absurd ((hiff _).2 rfl) (hfalse name hname)
    | never => cases hactive
    | transitiveOnly => cases hactive
    | inRuntimes runtimes =>
      rw [evaluate_inRuntimes, RuntimeSpec.covers_iff_exists] at hactive
      obtain ⟨r, hr, hcovers⟩ := hactive
      exact absurd ((hiff _).2 (evaluate_inRuntimes.2 hcovers)) (hfalse r hr)

theorem not_isSteady (hidle : x.IsIdle spec) (hspec : spec.names ≠ []) : ¬x.IsSteady (some spec) := by
  obtain ⟨name, hname⟩ := List.exists_mem_of_ne_nil _ hspec
  intro hsteady
  have htrue := hsteady spec rfl name hname
  rw [hidle name hname] at htrue
  cases htrue

theorem importCondition? (hidle : x.IsIdle spec) (hspec : spec.names ≠ []) (hactive : x.isTargetActive (some spec))
    : x.importCondition? (some spec) = some (some (.ofNames [])) := by
  have hnone : spec.names.filter (fun name => x.isTargetActive (some (.single name))) = [] := by
    apply List.filter_eq_nil_iff.2
    intro name hname
    rw [hidle name hname]
    exact Bool.false_ne_true
  cases hcondition : x.importCondition? (some spec) with
  | none =>
    rw [importCondition?_eq_none.1 hcondition] at hactive
    cases hactive
  | some condition =>
    rcases importCondition?_cases hcondition with ⟨_, hsteady⟩ | ⟨_, _, ⟨⟩, hnames⟩
    · exact absurd hsteady (hidle.not_isSteady hspec)
    · rw [hnames, hnone]

end IsIdle
end Connection

theorem Gathered.condition_eq_empty {spec : RuntimeSpec} {among : Connection → Prop} {v : Option RuntimeSpec} {d : Bool}
    (h : Gathered (some spec) among v d) (hspec : spec.names ≠ [])
    : v = some (.ofNames []) ↔ ∀ c, among c → c.IsIdle spec := by
  constructor
  · rintro rfl c hc name hname
    obtain ⟨_, ⟨⟩, hnames⟩ := h.names _ rfl
    rw [← Bool.not_eq_true]
    intro hactive
    have hmem := (hnames name).2 ⟨hname, c, hc, hactive⟩
    simp at hmem
  · intro hidle
    cases v with
    | none =>
      obtain ⟨c, hc, hsteady⟩ := h.always.1 rfl
      exact absurd hsteady ((hidle c hc).not_isSteady hspec)
    | some s =>
      obtain ⟨_, ⟨⟩, hnames⟩ := h.names s rfl
      refine congrArg some (RuntimeSpec.eq_of_mem_iff fun name => ?_)
      simp only [hnames, RuntimeSpec.mem_ofNames, List.not_mem_nil, iff_false]
      rintro ⟨hname, c, hc, hactive⟩
      rw [hidle c hc name hname] at hactive
      cases hactive

namespace MergeSet

variable {g : Graph} {root a : ModuleId} {members : List Member} {spec : RuntimeSpec} {c : ConnectionId}
  {x : Connection} {s : MergeSet}

theorem isMember_of_mem {runtime : Option RuntimeSpec} {m : Member} (hs : ofGraph g root members runtime = .ok s)
    (hm : .concatenated m ∈ s.entries) : IsMember members m.module := by
  rcases ofGraph_cases g root members runtime with ⟨e, he, _⟩ | ⟨_, w, _, hw, hresult⟩
  · rw [he] at hs
    cases hs
  · rw [hresult] at hs
    split at hs
    · cases hs
      exact isMember_of_lastMember? (hw.concatenated m hm).1
    · cases hs

theorem exists_external (hs : ofGraph g root members (some spec) = .ok s) (ha : IsMember members a)
    (hx : g.Follows (some spec) a x) (htarget : ¬IsMember members x.target)
    : ∃ e, .external e ∈ s.entries ∧ e.module == x.target ∧
        Gathered (some spec) (g.ImportsOver members (some spec) x.target) e.condition e.deferred := by
  have hrecords := records_ofGraph hs
  obtain ⟨e, he, hmodule⟩ := hrecords.listed x ⟨a, ha, hx⟩ htarget
  cases e with
  | external e =>
    have hmodule : e.module == x.target := hmodule
    refine ⟨e, he, hmodule, (gathered_external hs he).congr fun c => ?_⟩
    unfold Graph.ImportsOver
    simp only [BEq.congr_right hmodule]
  | concatenated m => exact absurd ((isMember_of_mem hs he).congr hmodule) htarget

/--
A connection that carries bindings in none of the runtimes contributes nothing, unless it is followed for all of them
together. This takes a conjunction, and then makes the connection an import without any runtime: a module that the
members import over such connections only has an entry, the condition of which names no runtime.
-/
theorem ofGraph_without (root : ModuleId) (members : List Member) (hx : g.connection? c = some x)
    (hidle : x.IsIdle spec)
    : ((∀ a, ¬g.Follows (some spec) a x) →
        ofGraph (g.without c) root members (some spec) = ofGraph g root members (some spec)) ∧
      (spec.names ≠ [] → ∀ a, g.Follows (some spec) a x →
        (∃ cs, x.condition = some (.all cs)) ∧
        x.importCondition? (some spec) = some (some (.ofNames [])) ∧
        ∀ s, ofGraph g root members (some spec) = .ok s → IsMember members a → ¬IsMember members x.target →
          ∃ e, .external e ∈ s.entries ∧ e.module == x.target ∧ (e.deferred → x.deferred) ∧
            (e.condition = some (.ofNames [])
              ↔
            ∀ y, g.ImportsOver members (some spec) x.target y → y.IsIdle spec)) := by
  constructor
  · intro hunfollowed
    exact ofGraph_congr (Graph.imports_without hx hunfollowed) root members
  · intro hspec a ha
    refine ⟨hidle.condition_eq_all hspec ha.active, hidle.importCondition? hspec ha.active, ?_⟩
    intro s hs hmember htarget
    obtain ⟨e, he, hmodule, hgathered⟩ := exists_external hs hmember ha htarget
    refine ⟨e, he, hmodule, ?_, hgathered.condition_eq_empty hspec⟩
    intro hdeferred
    exact hgathered.deferral.1 hdeferred x ⟨a, hmember, ha, BEq.rfl⟩

end MergeSet

namespace Sample

def crossed : Graph :=
  importing (importing (importing (.ofModules [{ id := frame }, { id := panel }, { id := widget }])
    frame panel (.all [inMain, inWorker])) frame widget .always) widget panel .always

def crossing : Connection := link 0 frame panel (.all [inMain, inWorker])

theorem connection?_crossed : crossed.connection? ⟨0⟩ = some crossing := rfl

theorem isIdle_crossing : crossing.IsIdle runtimes := by
  intro name hname
  have hname : name = "main" ∨ name = "worker" := by simpa [runtimes] using hname
  rcases hname with rfl | rfl
  · decide
  · decide

theorem follows_crossing : crossed.Follows (some runtimes) frame crossing where
  outgoing := ⟨[crossing, link 1 frame widget .always], rfl, by simp⟩
  dependency := rfl
  origin := by decide
  active := by decide

theorem isIdle_crossing_main : crossing.IsIdle (.single "main") := by
  intro name hname
  cases RuntimeSpec.mem_single.1 hname
  decide

def lone : List Member := [{ module := frame }]

def strayed : MergeSet := assembled [
  .external { module := panel, condition := some (.ofNames []) }, .external { module := widget },
  .concatenated { module := frame }]

theorem ofGraph_crossed : MergeSet.ofGraph crossed frame lone (some runtimes) = .ok strayed := by decide

theorem not_isMember_panel : ¬IsMember lone panel := by
  rintro ⟨m, hm, hpanel⟩
  cases List.mem_singleton.1 hm
  revert hpanel
  decide

end Sample

theorem MergeSet.ofGraph_without_sample
    : Sample.crossed.connection? ⟨0⟩ = some Sample.crossing ∧
      Sample.crossing.IsIdle (.single "main") ∧
      ofGraph (Sample.crossed.without ⟨0⟩) Sample.frame Sample.parts (some (.single "main"))
        =
      ofGraph Sample.crossed Sample.frame Sample.parts (some (.single "main")) ∧
      Sample.crossing.IsIdle Sample.runtimes ∧
      ofGraph Sample.crossed Sample.frame Sample.lone (some Sample.runtimes) = .ok Sample.strayed ∧
      ∃ e, .external e ∈ Sample.strayed.entries ∧ e.module == Sample.panel ∧
        (e.condition = some (.ofNames [])
          ↔
        ∀ y, Sample.crossed.ImportsOver Sample.lone (some Sample.runtimes) Sample.panel y →
          y.IsIdle Sample.runtimes) := by
  have hmain := (ofGraph_without Sample.frame Sample.parts Sample.connection?_crossed Sample.isIdle_crossing_main).1
  have ⟨_, _, hentry⟩ := (ofGraph_without Sample.frame Sample.lone Sample.connection?_crossed
    Sample.isIdle_crossing).2 (by decide) Sample.frame Sample.follows_crossing
  obtain ⟨e, he, hmodule, _, hcondition⟩ := hentry Sample.strayed Sample.ofGraph_crossed
    ⟨_, List.mem_singleton_self _, BEq.rfl⟩ Sample.not_isMember_panel
  refine ⟨Sample.connection?_crossed, Sample.isIdle_crossing_main, hmain ?_, Sample.isIdle_crossing,
    Sample.ofGraph_crossed, e, he, hmodule, hcondition⟩
  intro a ha
  have hinactive : Sample.crossing.isTargetActive (some (.single "main")) = false := by decide
  have hactive := ha.active
  rw [hinactive] at hactive
  cases hactive

/--
The connection gives `panel` an entry without runtimes, and keeps it from being a member.
-/
theorem MergeSet.ofGraph_follows_idle
    : Sample.crossed.connection? ⟨0⟩ = some Sample.crossing ∧ Sample.crossing.IsIdle Sample.runtimes ∧
      ofGraph Sample.crossed Sample.frame Sample.lone (some Sample.runtimes)
        =
      .ok (Sample.assembled [
        .external { module := Sample.panel, condition := some (.ofNames []) }, .external { module := Sample.widget },
        .concatenated { module := Sample.frame }]) ∧
      ofGraph (Sample.crossed.without ⟨0⟩) Sample.frame Sample.lone (some Sample.runtimes)
        =
      .ok (Sample.assembled [
        .external { module := Sample.widget }, .concatenated { module := Sample.frame }]) ∧
      ofGraph Sample.crossed Sample.frame Sample.parts (some Sample.runtimes)
        =
      .error (.conditionalMember Sample.panel) ∧
      ofGraph (Sample.crossed.without ⟨0⟩) Sample.frame Sample.parts (some Sample.runtimes)
        =
      .ok (Sample.assembled [
        .concatenated { module := Sample.panel }, .concatenated { module := Sample.widget },
        .concatenated { module := Sample.frame }]) := by
  refine ⟨Sample.connection?_crossed, Sample.isIdle_crossing, Sample.ofGraph_crossed, ?_, ?_, ?_⟩
  · decide
  · decide
  · decide

end ModuleLink
