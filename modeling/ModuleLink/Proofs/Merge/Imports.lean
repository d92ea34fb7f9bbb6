import Mathlib.Logic.Relation
import ModuleLink.Proofs.Condition
import ModuleLink.Proofs.MergeSet

/-!
This module contains what the imports of a module are in terms of its connections, and the paths that they make
between the members of a merge set.
-/

namespace ModuleLink

def IsMember (members : List Member) (id : ModuleId) : Prop := ∃ m ∈ members, m.module == id

def Connection.IsSteady (c : Connection) (runtime : Option RuntimeSpec) : Prop :=
  ∀ spec, runtime = some spec → ∀ name ∈ spec.names, c.isTargetActive (some (.single name))

/--
The connection starts at `id`, stands for an import that `id` makes itself, and carries bindings.
-/
structure Graph.Follows (g : Graph) (runtime : Option RuntimeSpec) (id : ModuleId) (c : Connection) : Prop where
  outgoing : ∃ cs, g.outgoing id = .ok cs ∧ c ∈ cs
  dependency : c.dependency.isSome
  origin : c.resolvedOrigin == some id
  active : c.isTargetActive runtime

structure Graph.FollowsSteadily (g : Graph) (runtime : Option RuntimeSpec) (id : ModuleId) (c : Connection) : Prop
    extends g.Follows runtime id c where
  steady : c.IsSteady runtime

structure Leads (follows : ModuleId → Connection → Prop) (members : List Member) (a b : ModuleId) : Prop where
  origin : IsMember members a
  target : IsMember members b
  connection : ∃ c, follows a c ∧ c.target == b

def Graph.ImportsOver (g : Graph) (members : List Member) (runtime : Option RuntimeSpec) (id : ModuleId)
    (c : Connection) : Prop :=
  ∃ a, IsMember members a ∧ g.Follows runtime a c ∧ c.target == id

/--
A path through members leads from one module to another. Spellings of a module do not count.
-/
def Reaches (follows : ModuleId → Connection → Prop) (members : List Member) : ModuleId → ModuleId → Prop :=
  Relation.ReflTransGen fun a b => a == b ∨ Leads follows members a b

theorem Graph.Follows.congr {g : Graph} {runtime : Option RuntimeSpec} {a b : ModuleId} {c : Connection}
    (h : g.Follows runtime a c) (hab : a == b) : g.Follows runtime b c where
  outgoing := by
    obtain ⟨cs, hcs, hc⟩ := h.outgoing
    refine ⟨cs, ?_, hc⟩
    unfold Graph.outgoing Graph.node at hcs ⊢
    rw [Dict.get?_congr hab] at hcs
    split at hcs
    · exact hcs
    · contradiction
  dependency := h.dependency
  origin := by
    have horigin := h.origin
    cases ho : c.resolvedOrigin with
    | none =>
      rw [ho] at horigin
      cases horigin
    | some o =>
      rw [ho] at horigin
      have hoa : o == a := horigin
      have hob : o == b := BEq.trans hoa hab
      exact hob
  active := h.active

theorem Graph.Follows.mono {g : Graph} {s t : RuntimeSpec} {id : ModuleId} {c : Connection}
    (h : g.Follows (some s) id c) (hsub : ∀ name ∈ s.names, name ∈ t.names) : g.Follows (some t) id c :=
  { h with active := c.isTargetActive_mono hsub h.active }

section Paths

variable {follows follows' : ModuleId → Connection → Prop} {members : List Member} {a b c : ModuleId}

theorem IsMember.congr (h : IsMember members a) (hab : a == b) : IsMember members b := by
  obtain ⟨m, hm, ha⟩ := h
  exact ⟨m, hm, BEq.trans ha hab⟩

namespace Reaches

theorem of_beq (h : a == b) : Reaches follows members a b := .single (.inl h)

theorem tail (h : Reaches follows members a b) (hbc : Leads follows members b c) : Reaches follows members a c :=
  Relation.ReflTransGen.tail h (.inr hbc)

theorem trans (h : Reaches follows members a b) (hbc : Reaches follows members b c)
    : Reaches follows members a c :=
  Relation.ReflTransGen.trans h hbc

theorem closed {motive : ModuleId → Prop} (hbeq : ∀ a b, a == b → motive a → motive b)
    (hleads : ∀ a b, Leads follows members a b → motive a → motive b) (h : Reaches follows members a b)
    (ha : motive a) : motive b := by
  induction h with
  | refl => exact ha
  | tail _ hstep ih =>
    rcases hstep with heq | hstep
    · exact hbeq _ _ heq ih
    · exact hleads _ _ hstep ih

theorem mono (hfollows : ∀ id c, follows id c → follows' id c) (h : Reaches follows members a b)
    : Reaches follows' members a b := by
  refine h.closed (motive := Reaches follows' members a) ?_ ?_ .refl
  · intro b c hbc hb
    exact hb.trans (.of_beq hbc)
  · rintro b c ⟨hb, hc, x, hx, htarget⟩ hreaches
    exact hreaches.tail ⟨hb, hc, x, hfollows b x hx, htarget⟩

end Reaches
end Paths

namespace Connection

variable {c : Connection} {runtime : Option RuntimeSpec}

theorem importCondition?_eq_none : c.importCondition? runtime = none ↔ c.isTargetActive runtime = false := by
  unfold importCondition?
  cases hactive : c.isTargetActive runtime with
  | false => simp
  | true =>
    simp only [Bool.not_true, Bool.false_eq_true, if_false, reduceCtorEq, iff_false]
    split
    · simp
    · split
      · simp
      · split
        · simp
        · simp

theorem isTargetActive_of_importCondition? {condition : Option RuntimeSpec}
    (h : c.importCondition? runtime = some condition) : c.isTargetActive runtime := by
  cases hactive : c.isTargetActive runtime with
  | true => rfl
  | false =>
    rw [importCondition?_eq_none.2 hactive] at h
    cases h

theorem isTargetActive_of_not_isConditional (h : c.isConditional = false) (runtime runtime' : Option RuntimeSpec)
    : c.isTargetActive runtime = c.isTargetActive runtime' := by
  have hcondition : c.condition = none := by simpa [isConditional] using h
  unfold isTargetActive activity
  rw [hcondition]

theorem importCondition?_cases {condition : Option RuntimeSpec} (h : c.importCondition? runtime = some condition)
    : condition = none ∧ c.IsSteady runtime
        ∨
      ¬c.IsSteady runtime ∧ ∃ spec, runtime = some spec ∧
        condition = some (.ofNames (spec.names.filter fun name => c.isTargetActive (some (.single name)))) := by
  have hactive := isTargetActive_of_importCondition? h
  unfold importCondition? at h
  simp only [hactive, Bool.not_true, Bool.false_eq_true, if_false] at h
  split at h
  next hconditional =>
    cases h
    refine .inl ⟨rfl, ?_⟩
    rintro spec rfl name _
    rw [isTargetActive_of_not_isConditional (by simpa using hconditional) _ (some spec), hactive]
  · cases runtime with
    | none =>
      cases h
      exact .inl ⟨rfl, nofun⟩
    | some spec =>
      dsimp only at h
      split at h
      next hall =>
        cases h
        refine .inl ⟨rfl, ?_⟩
        intro spec' hspec'
        cases hspec'
        exact List.length_filter_eq_length_iff.1 hall
      next hall =>
        cases h
        refine .inr ⟨fun hsteady => hall ?_, spec, rfl, rfl⟩
        exact List.length_filter_eq_length_iff.2 (hsteady spec rfl)

end Connection

theorem RuntimeSpec.mergeCondition_eq_none {v v' : Option RuntimeSpec}
    : mergeCondition v v' = none ↔ v = none ∨ v' = none := by
  cases v <;> cases v' <;> simp [mergeCondition]

theorem RuntimeSpec.mergeCondition_eq_some {v v' : Option RuntimeSpec} {s : RuntimeSpec}
    (h : mergeCondition v v' = some s) : ∃ a b, v = some a ∧ v' = some b ∧ s = a.merge b := by
  cases v with
  | none => cases h
  | some a =>
    cases v' with
    | none => cases h
    | some b =>
      cases h
      exact ⟨a, b, rfl, rfl, rfl⟩

/--
What the connections in `among` tell together: the runtimes in which one of them carries bindings, where `none` stands
for one that does so in all, and whether they are all deferred.
-/
structure Gathered (runtime : Option RuntimeSpec) (among : Connection → Prop) (condition : Option RuntimeSpec)
    (deferred : Bool) : Prop where
  always : condition = none ↔ ∃ c, among c ∧ c.IsSteady runtime
  names : ∀ s, condition = some s → ∃ spec, runtime = some spec ∧
    ∀ r, r ∈ s.names ↔ r ∈ spec.names ∧ ∃ c, among c ∧ c.isTargetActive (some (.single r))
  deferral : deferred ↔ ∀ c, among c → c.deferred

namespace Gathered

variable {runtime : Option RuntimeSpec} {among among' : Connection → Prop} {v v' : Option RuntimeSpec} {d d' : Bool}

theorem congr (h : Gathered runtime among v d) (hsame : ∀ c, among c ↔ among' c) : Gathered runtime among' v d := by
  have heq : among = among' := funext fun c => propext (hsame c)
  subst heq
  exact h

theorem one {c : Connection} (h : c.importCondition? runtime = some v) : Gathered runtime (· = c) v c.deferred where
  always := by
    simp only [exists_eq_left]
    rcases Connection.importCondition?_cases h with ⟨rfl, hsteady⟩ | ⟨hsteady, spec, _, rfl⟩
    · simp [hsteady]
    · simp [hsteady]
  names := by
    rintro s rfl
    rcases Connection.importCondition?_cases h with ⟨hnone, _⟩ | ⟨_, spec, rfl, hsome⟩
    · cases hnone
    · cases hsome
      exact ⟨spec, rfl, by simp⟩
  deferral := by simp

theorem union (h : Gathered runtime among v d) (h' : Gathered runtime among' v' d')
    : Gathered runtime (fun c => among c ∨ among' c) (RuntimeSpec.mergeCondition v v') (d && d') where
  always := by
    rw [RuntimeSpec.mergeCondition_eq_none, h.always, h'.always]
    simp only [or_and_right, exists_or]
  names := by
    intro s hs
    obtain ⟨a, b, rfl, rfl, rfl⟩ := RuntimeSpec.mergeCondition_eq_some hs
    obtain ⟨spec, rfl, ha⟩ := h.names a rfl
    obtain ⟨_, hspec, hb⟩ := h'.names b rfl
    cases hspec
    refine ⟨spec, rfl, fun r => ?_⟩
    rw [RuntimeSpec.mem_merge, ha, hb]
    simp only [or_and_right, exists_or, and_or_left]
  deferral := by
    rw [Bool.and_eq_true, h.deferral, h'.deferral]
    simp only [or_imp, forall_and]

end Gathered

namespace Graph

variable {g : Graph} {runtime : Option RuntimeSpec} {id : ModuleId}

/--
The connection is among `cs` and stands for an import of `t` that `id` makes itself and that is followed.
-/
def TakenFrom (runtime : Option RuntimeSpec) (id t : ModuleId) (cs : List Connection) (c : Connection) : Prop :=
  c ∈ cs ∧ isOwnImport id c ∧ c.isTargetActive runtime ∧ c.target == t

theorem takenFrom_concat {t : ModuleId} {cs : List Connection} {c c' : Connection}
    : TakenFrom runtime id t (cs ++ [c']) c
        ↔
      TakenFrom runtime id t cs c ∨ TakenFrom runtime id t [c'] c := by
  unfold TakenFrom
  rw [List.mem_append, or_and_right]

theorem takenFrom_congr {t t' : ModuleId} (h : t == t') {cs : List Connection} {c : Connection}
    : TakenFrom runtime id t cs c ↔ TakenFrom runtime id t' cs c := by
  unfold TakenFrom
  rw [BEq.congr_right h]

theorem takenFrom_singleton {c c' : Connection} (hown : isOwnImport id c) (hactive : c.isTargetActive runtime)
    : TakenFrom runtime id c.target [c] c' ↔ c' = c := by
  constructor
  · rintro ⟨hc', _⟩
    exact List.mem_singleton.1 hc'
  · rintro rfl
    exact ⟨List.mem_singleton_self c', hown, hactive, BEq.rfl⟩

theorem not_takenFrom_singleton {t : ModuleId} {c c' : Connection} (h : ¬(c.target == t) = true)
    : ¬TakenFrom runtime id t [c] c' := by
  rintro ⟨hc', _, _, htarget⟩
  cases List.mem_singleton.1 hc'
  exact h htarget

theorem takenFrom_iff {t : ModuleId} {cs : List Connection} (hcs : g.outgoing id = .ok cs) {c : Connection}
    : TakenFrom runtime id t cs c ↔ g.Follows runtime id c ∧ c.target == t := by
  constructor
  · rintro ⟨hc, hown, hactive, htarget⟩
    have ⟨hdependency, horigin⟩ := Bool.and_eq_true_iff.1 hown
    exact ⟨⟨⟨cs, hcs, hc⟩, hdependency, horigin, hactive⟩, htarget⟩
  · rintro ⟨⟨⟨cs', hcs', hc⟩, hdependency, horigin, hactive⟩, htarget⟩
    rw [hcs] at hcs'
    cases hcs'
    exact ⟨hc, Bool.and_eq_true_iff.2 ⟨hdependency, horigin⟩, hactive, htarget⟩

structure Collected (runtime : Option RuntimeSpec) (id : ModuleId) (cs : List Connection)
    (imports : Dict ModuleId (Option RuntimeSpec × Bool)) : Prop where
  keys : imports.DistinctKeys
  target : ∀ t, (imports.get? t).isSome ↔ ∃ c, TakenFrom runtime id t cs c
  gathered : ∀ t v, imports.get? t = some v → Gathered runtime (TakenFrom runtime id t cs) v.1 v.2

namespace Collected

variable {cs : List Connection} {imports : Dict ModuleId (Option RuntimeSpec × Bool)}

theorem empty : Collected runtime id [] .empty where
  keys := Dict.distinctKeys_empty
  target := by simp [TakenFrom]
  gathered := nofun

theorem skip (h : Collected runtime id cs imports) {c : Connection}
    (hc : ∀ t c', ¬TakenFrom runtime id t [c] c') : Collected runtime id (cs ++ [c]) imports where
  keys := h.keys
  target := by
    intro t
    rw [h.target]
    simp only [takenFrom_concat, hc, or_false]
  gathered := by
    intro t v ht
    refine (h.gathered t v ht).congr fun c' => ?_
    simp only [takenFrom_concat, hc, or_false]

theorem insert (h : Collected runtime id cs imports) {c : Connection} (hown : isOwnImport id c)
    (hactive : c.isTargetActive runtime) {v : Option RuntimeSpec × Bool}
    (hv : Gathered runtime (TakenFrom runtime id c.target (cs ++ [c])) v.1 v.2)
    : Collected runtime id (cs ++ [c]) (imports.insert c.target v) where
  keys := h.keys.insert _ _
  target := by
    intro t
    rw [Dict.get?_insert]
    split
    next heq =>
      simp only [Option.isSome_some, true_iff]
      exact ⟨c, List.mem_concat_self, hown, hactive, heq⟩
    next hne =>
      rw [h.target]
      simp only [takenFrom_concat, not_takenFrom_singleton hne, or_false]
  gathered := by
    intro t v' ht
    rw [Dict.get?_insert] at ht
    split at ht
    next heq =>
      cases ht
      exact hv.congr fun c' => takenFrom_congr heq
    next hne =>
      refine (h.gathered t v' ht).congr fun c' => ?_
      simp only [takenFrom_concat, not_takenFrom_singleton hne, or_false]

end Collected

theorem exists_collected {imports : List Import} (h : g.imports runtime id = .ok imports)
    : ∃ cs collected, g.outgoing id = .ok cs ∧ Collected runtime id cs collected ∧
        imports = collected.entries.map fun e => ⟨e.1, e.2.1, e.2.2⟩ := by
  unfold Graph.imports at h
  rw [bind_eq_ok] at h
  obtain ⟨cs, hcs, h⟩ := h
  cases h
  refine ⟨cs, _, hcs, foldl_prefix_induction (Collected runtime id) ?_ .empty cs, rfl⟩
  intro cs collected c hcollected
  split
  next hown =>
    split
    next hnone =>
      apply hcollected.skip
      rintro t c' ⟨hc', _, hactive, _⟩
      cases List.mem_singleton.1 hc'
      rw [Connection.importCondition?_eq_none.1 hnone] at hactive
      cases hactive
    next condition hcondition =>
      have hactive := Connection.isTargetActive_of_importCondition? hcondition
      have hone := Gathered.one hcondition
      split
      next hnew =>
        -- No connection to the target was collected before.
        refine hcollected.insert hown hactive (hone.congr fun c' => ?_)
        have hnone : ¬TakenFrom runtime id c.target cs c' := by
          intro hc'
          have hsome := (hcollected.target c.target).2 ⟨c', hc'⟩
          rw [hnew] at hsome
          cases hsome
        rw [takenFrom_concat, takenFrom_singleton hown hactive]
        simp only [hnone, false_or]
      next existing deferred hexisting =>
        refine hcollected.insert hown hactive (((hcollected.gathered _ _ hexisting).union hone).congr fun c' => ?_)
        rw [takenFrom_concat, takenFrom_singleton hown hactive]
  next hown =>
    apply hcollected.skip
    rintro t c' ⟨hc', hown', _⟩
    cases List.mem_singleton.1 hc'
    exact hown hown'

/--
A connection that is followed leads to the target of the import; it is steady if the import has no condition.
-/
def ImportedBy (g : Graph) (runtime : Option RuntimeSpec) (id : ModuleId) (i : Import) : Prop :=
  ∃ c, g.Follows runtime id c ∧ c.target == i.target ∧ (i.condition = none → c.IsSteady runtime)

structure ImportsOf (g : Graph) (runtime : Option RuntimeSpec) (id : ModuleId) (imports : List Import)
    : Prop where
  target : ∀ c, g.Follows runtime id c → ∃ i ∈ imports, i.target == c.target
  connection : ∀ i ∈ imports, g.ImportedBy runtime id i

theorem importsOf_imports {imports : List Import} (h : g.imports runtime id = .ok imports)
    : g.ImportsOf runtime id imports := by
  obtain ⟨cs, collected, hcs, hcollected, rfl⟩ := exists_collected h
  refine ⟨?_, ?_⟩
  · intro c hc
    have hsome := (hcollected.target c.target).2 ⟨c, (takenFrom_iff hcs).2 ⟨hc, BEq.rfl⟩⟩
    obtain ⟨v, hv⟩ := Option.isSome_iff_exists.1 hsome
    obtain ⟨t, ht, hmem⟩ := Dict.mem_entries_of_get? hv
    exact ⟨_, List.mem_map_of_mem hmem, ht⟩
  · intro i hi
    obtain ⟨⟨t, v⟩, hmem, rfl⟩ := List.mem_map.1 hi
    have hv := Dict.get?_of_mem_entries hcollected.keys hmem
    have hgathered := hcollected.gathered t v hv
    dsimp only
    cases hcondition : v.1 with
    | none =>
      obtain ⟨c, hc, hsteady⟩ := hgathered.always.1 hcondition
      have ⟨hfollows, htarget⟩ := (takenFrom_iff hcs).1 hc
      exact ⟨c, hfollows, htarget, fun _ => hsteady⟩
    | some s =>
      obtain ⟨c, hc⟩ := (hcollected.target t).1 (Option.isSome_of_eq_some hv)
      have ⟨hfollows, htarget⟩ := (takenFrom_iff hcs).1 hc
      exact ⟨c, hfollows, htarget, nofun⟩

theorem gathered_import {imports : List Import} (h : g.imports runtime id = .ok imports) {i : Import}
    (hi : i ∈ imports)
    : Gathered runtime (fun c => g.Follows runtime id c ∧ c.target == i.target) i.condition i.deferred := by
  obtain ⟨cs, collected, hcs, hcollected, rfl⟩ := exists_collected h
  obtain ⟨⟨t, v⟩, hmem, rfl⟩ := List.mem_map.1 hi
  have hv := Dict.get?_of_mem_entries hcollected.keys hmem
  exact (hcollected.gathered t v hv).congr fun c => takenFrom_iff hcs

end Graph
end ModuleLink
