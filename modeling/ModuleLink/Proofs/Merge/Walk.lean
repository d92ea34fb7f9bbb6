import ModuleLink.Proofs.Merge.Imports

/-!
This module contains the trace of the walk that makes a merge set: which members it has entered and by which
paths, and what stands before what in the list of entries. The members that are entered and not listed yet lie on
one path, and so an import that is passed over because of them closes a cycle.
-/

namespace ModuleLink

def lastMember? (members : List Member) (id : ModuleId) : Option Member :=
  members.reverse.find? (·.module == id)

section Members

variable {members : List Member} {a b id : ModuleId} {m : Member}

theorem get?_ofMembers_eq (members : List Member) (id : ModuleId)
    : (Dict.ofList (members.map fun m => (m.module, m))).get? id = lastMember? members id := by
  unfold lastMember?
  rw [Dict.get?_ofList, ← List.map_reverse, List.find?_map, Option.map_map]
  exact Option.map_id'

theorem lastMember?_congr (h : a == b) (members : List Member)
    : lastMember? members a = lastMember? members b := by
  unfold lastMember?
  congr 1
  funext m
  exact BEq.congr_right h

theorem module_of_lastMember? (h : lastMember? members id = some m) : m.module == id := by
  simpa using List.find?_some h

theorem isMember_iff : IsMember members id ↔ (lastMember? members id).isSome := by
  unfold lastMember? IsMember
  rw [List.find?_isSome]
  simp

theorem isMember_of_lastMember? (h : lastMember? members id = some m) : IsMember members id :=
  isMember_iff.2 (Option.isSome_of_eq_some h)

end Members

namespace MergeEntry

variable {es : List MergeEntry} {a b id : ModuleId}

def Listed (es : List MergeEntry) (id : ModuleId) : Prop := ∃ e ∈ es, e.module == id

def Precedes (es : List MergeEntry) (a b : ModuleId) : Prop :=
  ∃ e e', [e, e'].Sublist es ∧ e.module == a ∧ e'.module == b

theorem Listed.append (h : Listed es id) (es' : List MergeEntry) : Listed (es ++ es') id := by
  obtain ⟨e, he, hid⟩ := h
  exact ⟨e, List.mem_append_left _ he, hid⟩

theorem Precedes.append (h : Precedes es a b) (es' : List MergeEntry) : Precedes (es ++ es') a b := by
  obtain ⟨e, e', hsublist, ha, hb⟩ := h
  exact ⟨e, e', hsublist.trans (List.sublist_append_left es es'), ha, hb⟩

theorem Precedes.listed (h : Precedes es a b) : Listed es a := by
  obtain ⟨e, e', hsublist, ha, _⟩ := h
  exact ⟨e, hsublist.subset List.mem_cons_self, ha⟩

theorem Precedes.congr_right (h : Precedes es a b) {b' : ModuleId} (hb : b == b') : Precedes es a b' := by
  obtain ⟨e, e', hsublist, ha, he'⟩ := h
  exact ⟨e, e', hsublist, ha, BEq.trans he' hb⟩

theorem Listed.precedes (h : Listed es a) {e : MergeEntry} (he : e.module == b) : Precedes (es ++ [e]) a b := by
  obtain ⟨e', he', ha⟩ := h
  exact ⟨e', e, (List.singleton_sublist.2 he').append (List.Sublist.refl [e]), ha, he⟩

end MergeEntry

namespace Walk

def Handled (w : Walk) (opened : List ModuleId) (id : ModuleId) : Prop :=
  MergeEntry.Listed w.entries id ∨ ∃ o ∈ opened, o == id

theorem Handled.congr {w : Walk} {opened : List ModuleId} {a b : ModuleId} (h : w.Handled opened a) (hab : a == b)
    : w.Handled opened b := by
  rcases h with ⟨e, he, ha⟩ | ⟨o, ho, ha⟩
  · exact .inl ⟨e, he, BEq.trans ha hab⟩
  · exact .inr ⟨o, ho, BEq.trans ha hab⟩

theorem Handled.cons {w : Walk} {opened : List ModuleId} {id : ModuleId} (h : w.Handled opened id) (o : ModuleId)
    : w.Handled (o :: opened) id :=
  h.imp_right fun ⟨o', ho', hid⟩ => ⟨o', List.mem_cons_of_mem o ho', hid⟩

theorem Handled.close {w : Walk} {opened : List ModuleId} {o id : ModuleId} (h : w.Handled (o :: opened) id)
    {e : MergeEntry} (he : e.module == o) : (w.push e).Handled opened id := by
  rcases h with h | ⟨o', ho', hid⟩
  · exact .inl (h.append _)
  · rcases List.mem_cons.1 ho' with rfl | ho'
    · exact .inl ⟨e, List.mem_append_right _ List.mem_cons_self, BEq.trans he hid⟩
    · exact .inr ⟨o', ho', hid⟩

theorem contains_cons_of_contains {id id' : ModuleId} {ids : List ModuleId} (h : ids.contains id')
    : (id :: ids).contains id' := by
  rw [List.contains_cons, h, Bool.or_true]

structure AddsExternal (id : ModuleId) (es es' : List MergeEntry) : Prop where
  listed : ∀ {a}, MergeEntry.Listed es a → MergeEntry.Listed es' a
  precedes : ∀ {a b}, MergeEntry.Precedes es a b → MergeEntry.Precedes es' a b
  concatenated : ∀ {m}, .concatenated m ∈ es' → .concatenated m ∈ es
  external : ∀ {x}, .external x ∈ es' → x.module = id ∨ ∃ y, .external y ∈ es ∧ y.module = x.module
  target : MergeEntry.Listed es' id

theorem mergeImport_eq_concatenated {i : Import} {e : MergeEntry} {m : Member}
    (h : mergeImport i e = .concatenated m) : e = .concatenated m := by
  unfold mergeImport at h
  split at h
  · cases e with
    | concatenated m' => exact h
    | external x => cases h
  · exact h

theorem mergeImport_eq_external {i : Import} {e : MergeEntry} {x : External} (h : mergeImport i e = .external x)
    : ∃ y, e = .external y ∧ y.module = x.module := by
  have hmodule := mergeImport_module i e
  rw [h] at hmodule
  cases e with
  | concatenated m =>
    unfold mergeImport at h
    split at h
    · cases h
    · cases h
  | external y => exact ⟨y, rfl, hmodule.symm⟩

theorem addsExternal {w : Walk} (hw : w.Indexed) (i : Import)
    : AddsExternal i.target w.entries (w.addExternal i).entries := by
  rcases addExternal_cases hw i with ⟨hfound, hmerged⟩ | ⟨-, hpushed⟩
  · rw [hmerged]
    have hlisted {a} (h : MergeEntry.Listed w.entries a)
        : MergeEntry.Listed (w.entries.map (mergeImport i)) a := by
      obtain ⟨e, he, ha⟩ := h
      refine ⟨_, List.mem_map_of_mem he, ?_⟩
      rw [mergeImport_module]
      exact ha
    refine ⟨hlisted, ?_, ?_, ?_, hlisted hfound⟩
    · rintro a b ⟨e, e', hsublist, ha, hb⟩
      refine ⟨_, _, hsublist.map (mergeImport i), ?_, ?_⟩
      · rw [mergeImport_module]
        exact ha
      · rw [mergeImport_module]
        exact hb
    · intro m hm
      obtain ⟨e, he, heq⟩ := List.mem_map.1 hm
      rw [← mergeImport_eq_concatenated heq]
      exact he
    · intro x hx
      obtain ⟨e, he, heq⟩ := List.mem_map.1 hx
      obtain ⟨y, rfl, hy⟩ := mergeImport_eq_external heq
      exact .inr ⟨y, he, hy⟩
  · rw [hpushed]
    refine ⟨(·.append _), (·.append _), ?_, ?_, ⟨_, List.mem_append_right _ List.mem_cons_self, BEq.rfl⟩⟩
    · intro m hm
      exact (List.mem_append.1 hm).resolve_right (by simp)
    · intro x hx
      rcases List.mem_append.1 hx with hx | hx
      · exact .inr ⟨x, hx, rfl⟩
      · cases List.mem_singleton.1 hx
        exact .inl rfl

theorem pending_addExternal (w : Walk) (i : Import) : (w.addExternal i).pending = w.pending := by
  unfold Walk.addExternal
  split <;> rfl

theorem entered_addExternal (w : Walk) (i : Import) : (w.addExternal i).entered = w.entered := by
  unfold Walk.addExternal
  split <;> rfl

/--
What holds throughout a walk from `root` in which the members in `stack` are not listed yet.
-/
structure Traced (g : Graph) (runtime : Option RuntimeSpec) (members : List Member) (root : ModuleId)
    (stack : List ModuleId) (w : Walk) : Prop extends w.Inv stack where
  given : ∀ id m, w.pending.get? id = some m → lastMember? members id = some m
  known : ∀ id, IsMember members id ↔ (w.pending.get? id).isSome ∨ w.entered.contains id
  apart : ∀ id, w.entered.contains id → w.pending.get? id = none
  concatenated : ∀ m, .concatenated m ∈ w.entries →
    lastMember? members m.module = some m ∧ w.entered.contains m.module
  external : ∀ x, .external x ∈ w.entries →
    ¬IsMember members x.module ∧ ∃ a c, IsMember members a ∧ g.Follows runtime a c ∧ c.target == x.module
  handled : ∀ id, w.entered.contains id → w.Handled stack id
  reached : ∀ id, w.entered.contains id → Reaches (g.FollowsSteadily runtime) members root id
  path : stack.Pairwise fun a b => Reaches (g.Follows runtime) members b a
  order : ∀ m, .concatenated m ∈ w.entries → ∀ c, g.Follows runtime m.module c →
    MergeEntry.Precedes w.entries c.target m.module ∨
    w.entered.contains c.target ∧ Reaches (g.Follows runtime) members c.target m.module

variable {g : Graph} {runtime : Option RuntimeSpec} {members : List Member} {root id : ModuleId}
  {opened : List ModuleId} {w : Walk}

theorem Traced.start (g : Graph) (runtime : Option RuntimeSpec) (members : List Member) (root : ModuleId)
    : Traced g runtime members root [] { pending := Dict.ofList (members.map fun m => (m.module, m)), entered := [] } where
  keys := Dict.distinctKeys_ofList _
  member := fun _ _ => get?_ofMembers
  indexed := EntryTable.indexed_empty
  pending := nofun
  entered := nofun
  opened := nofun
  given := by
    intro id m h
    rw [← get?_ofMembers_eq]
    exact h
  known := by
    intro id
    rw [get?_ofMembers_eq, isMember_iff]
    simp
  apart := nofun
  concatenated := nofun
  external := nofun
  handled := nofun
  reached := nofun
  path := List.Pairwise.nil
  order := nofun

theorem Traced.isMember_of_mem (hw : Traced g runtime members root opened w) (hid : id ∈ opened)
    : IsMember members id :=
  (hw.known id).2 (.inr (hw.entered id hid))

theorem Traced.addExternal (hw : Traced g runtime members root opened w) {i : Import}
    (hentered : w.entered.contains i.target = false) (hpending : w.pending.get? i.target = none)
    (himport : ∃ a c, IsMember members a ∧ g.Follows runtime a c ∧ c.target == i.target)
    : Traced g runtime members root opened (w.addExternal i) := by
  have hadds := addsExternal hw.indexed i
  have hpending' := pending_addExternal w i
  have hentered' := entered_addExternal w i
  constructor
  · exact hw.toInv.addExternal hentered hpending
  · rw [hpending']
    exact hw.given
  · rw [hpending', hentered']
    exact hw.known
  · rw [hpending', hentered']
    exact hw.apart
  · intro m hm
    rw [hentered']
    exact hw.concatenated m (hadds.concatenated hm)
  · intro x hx
    rcases hadds.external hx with heq | ⟨y, hy, heq⟩
    · rw [heq]
      refine ⟨?_, himport⟩
      rw [hw.known, hpending, hentered]
      simp
    · rw [← heq]
      exact hw.external y hy
  · intro id hid
    rw [hentered'] at hid
    exact (hw.handled id hid).imp_left hadds.listed
  · rw [hentered']
    exact hw.reached
  · exact hw.path
  · intro m hm c hc
    rw [hentered']
    exact (hw.order m (hadds.concatenated hm) c hc).imp_left hadds.precedes

theorem Traced.open (hw : Traced g runtime members root opened w) {m : Member} (hm : w.pending.get? id = some m)
    (hreached : Reaches (g.FollowsSteadily runtime) members root id)
    (hpath : ∀ o ∈ opened, Reaches (g.Follows runtime) members o id)
    : Traced g runtime members root (id :: opened)
        { w with pending := w.pending.erase id, entered := id :: w.entered } where
  toInv := hw.toInv.open hm
  given := by
    intro id' m' h
    rw [Dict.get?_erase hw.keys] at h
    split at h
    · cases h
    · exact hw.given id' m' h
  known := by
    intro id'
    rw [Dict.get?_erase hw.keys, List.contains_cons]
    split
    next heq =>
      have hid' : IsMember members id' := ((hw.known id).2 (.inl (Option.isSome_of_eq_some hm))).congr heq
      simp [hid', BEq.symm heq]
    next hne =>
      rw [hw.known, BEq.comm, Bool.eq_false_iff.2 hne, Bool.false_or]
  apart := by
    intro id' h
    rw [Dict.get?_erase hw.keys]
    split
    · rfl
    next hne =>
      rw [List.contains_cons, BEq.comm, Bool.eq_false_iff.2 hne, Bool.false_or] at h
      exact hw.apart id' h
  concatenated := by
    intro m' hm'
    have ⟨hlast, hentered⟩ := hw.concatenated m' hm'
    exact ⟨hlast, contains_cons_of_contains hentered⟩
  external := hw.external
  handled := by
    intro id' h
    rcases Bool.or_eq_true_iff.1 h with h | h
    · exact .inr ⟨id, List.mem_cons_self, BEq.symm h⟩
    · exact (hw.handled id' h).cons id
  reached := by
    intro id' h
    rcases Bool.or_eq_true_iff.1 h with h | h
    · exact hreached.trans (.of_beq (BEq.symm h))
    · exact hw.reached id' h
  path := List.pairwise_cons.2 ⟨hpath, hw.path⟩
  order := by
    intro m' hm' c hc
    refine (hw.order m' hm' c hc).imp_right fun ⟨hentered, hreaches⟩ => ?_
    exact ⟨contains_cons_of_contains hentered, hreaches⟩

theorem Traced.openImport {top : ModuleId} (hw : Traced g runtime members root (top :: opened) w) {i : Import}
    (himport : g.ImportedBy runtime top i) {m : Member} (hm : w.pending.get? i.target = some m)
    (hcondition : i.condition = none)
    : Traced g runtime members root (i.target :: top :: opened)
        { w with pending := w.pending.erase i.target, entered := i.target :: w.entered } := by
  obtain ⟨c, hc, htarget, hsteady⟩ := himport
  have htop := hw.isMember_of_mem List.mem_cons_self
  have hmember : IsMember members i.target := (hw.known _).2 (.inl (Option.isSome_of_eq_some hm))
  have hleads : Leads (g.Follows runtime) members top i.target := ⟨htop, hmember, c, hc, htarget⟩
  apply hw.open hm
  · exact (hw.reached top (hw.entered top List.mem_cons_self)).tail
      ⟨htop, hmember, c, ⟨hc, hsteady hcondition⟩, htarget⟩
  · intro o ho
    rcases List.mem_cons.1 ho with rfl | ho
    · exact Reaches.tail .refl hleads
    · exact Reaches.tail ((List.pairwise_cons.1 hw.path).1 o ho) hleads

theorem Traced.close (hw : Traced g runtime members root (id :: opened) w) {m : Member}
    (hm : lastMember? members id = some m) (hid : ∀ o ∈ opened, (id == o) = false)
    (hdone : ∀ c, g.Follows runtime id c → w.Handled (id :: opened) c.target)
    : Traced g runtime members root opened (w.push (.concatenated m)) := by
  have hmodule := module_of_lastMember? hm
  have ⟨hfirst, hpath⟩ := List.pairwise_cons.1 hw.path
  constructor
  · exact hw.toInv.close hmodule hid
  · exact hw.given
  · exact hw.known
  · exact hw.apart
  · intro m' hm'
    rcases List.mem_append.1 hm' with hm' | hm'
    · exact hw.concatenated m' hm'
    · cases List.mem_singleton.1 hm'
      refine ⟨?_, ?_⟩
      · rw [lastMember?_congr hmodule]
        exact hm
      · rw [contains_congr hmodule]
        exact hw.entered id List.mem_cons_self
  · intro x hx
    exact hw.external x ((List.mem_append.1 hx).resolve_right (by simp))
  · intro id' h
    exact (hw.handled id' h).close hmodule
  · exact hw.reached
  · exact hpath
  · intro m' hm' c hc
    rcases List.mem_append.1 hm' with hm' | hm'
    · exact (hw.order m' hm' c hc).imp_left (·.append _)
    · cases List.mem_singleton.1 hm'
      rcases hdone c (hc.congr hmodule) with hlisted | ⟨o, ho, htarget⟩
      · exact .inl (hlisted.precedes BEq.rfl)
      · -- The target is open, so that it leads to the member that is listed now.
        have hreaches : Reaches (g.Follows runtime) members o id := by
          rcases List.mem_cons.1 ho with rfl | ho
          · exact .refl
          · exact hfirst o ho
        refine .inr ⟨?_, ?_⟩
        · rw [← contains_congr htarget]
          exact hw.entered o ho
        · exact (Reaches.of_beq (BEq.symm htarget)).trans (hreaches.trans (.of_beq (BEq.symm hmodule)))

theorem ofGraph_eq_ok {α : Type} {x : Except GraphError α} {a : α} (h : LinkError.ofGraph x = .ok a)
    : x = .ok a := by
  cases x with
  | error e => cases h
  | ok a' =>
    cases h
    rfl

/--
The ways in which an import is followed: it is passed over, it is external, or it enters a member.
-/
theorem enter_cases {fuel : Nat} {w' : Walk} {i : Import} (hfuel : w.pending.size ≤ fuel)
    (h : enter g runtime fuel w i = .ok w')
    : w.entered.contains i.target ∧ w' = w
        ∨
      w.entered.contains i.target = false ∧ w.pending.get? i.target = none ∧ w' = w.addExternal i
        ∨
      w.entered.contains i.target = false ∧ ∃ n m imports w'', fuel = n + 1 ∧ w.pending.get? i.target = some m ∧
        i.condition = none ∧ g.imports runtime i.target = .ok imports ∧
        imports.foldlM (enter g runtime n)
          { w with pending := w.pending.erase i.target, entered := i.target :: w.entered } = .ok w'' ∧
        w' = w''.push (.concatenated m) := by
  unfold enter at h
  split at h
  next hentered =>
    cases h
    exact .inl ⟨hentered, rfl⟩
  next hentered =>
    have hentered := Bool.eq_false_iff.2 hentered
    split at h
    next hpending =>
      cases h
      exact .inr (.inl ⟨hentered, hpending, rfl⟩)
    next m hm =>
      have hsize := Dict.size_erase hm
      omega
    next m n hm =>
      split at h
      · cases h
      next hcondition =>
        rw [bind_eq_ok] at h
        obtain ⟨imports, himports, h⟩ := h
        rw [bind_eq_ok] at h
        obtain ⟨w'', hfold, h⟩ := h
        cases h
        refine .inr (.inr ⟨hentered, n, m, imports, w'', rfl, hm, ?_, ofGraph_eq_ok himports, hfold, rfl⟩)
        simpa using hcondition

structure Advances (g : Graph) (runtime : Option RuntimeSpec) (members : List Member) (root : ModuleId)
    (stack : List ModuleId) (fuel : Nat) (w w' : Walk) : Prop where
  traced : Traced g runtime members root stack w'
  size : w'.pending.size ≤ fuel
  handled : ∀ id, w.Handled stack id → w'.Handled stack id

theorem fold_traced {fuel : Nat} {imports : List Import} {w' : Walk}
    (hstep : ∀ {w w' : Walk} {i : Import}, Traced g runtime members root (id :: opened) w →
      w.pending.size ≤ fuel → g.ImportedBy runtime id i → enter g runtime fuel w i = .ok w' →
      Advances g runtime members root (id :: opened) fuel w w' ∧ w'.Handled (id :: opened) i.target)
    (hw : Traced g runtime members root (id :: opened) w) (hsize : w.pending.size ≤ fuel)
    (himports : g.imports runtime id = .ok imports) (hfold : imports.foldlM (enter g runtime fuel) w = .ok w')
    : Advances g runtime members root (id :: opened) fuel w w'
        ∧
      ∀ c, g.Follows runtime id c → w'.Handled (id :: opened) c.target := by
  have himportsOf := Graph.importsOf_imports himports
  have ⟨⟨hw', hsize'⟩, hall, hkept⟩ := foldlM_ok_forall Import.target
    (fun w => Traced g runtime members root (id :: opened) w ∧ w.pending.size ≤ fuel)
    (fun t w => w.Handled (id :: opened) t)
    (by
      rintro w w' i hi ⟨hw, hsize⟩ hok
      have ⟨⟨hw', hsize', hkept⟩, hhandled⟩ := hstep hw hsize (himportsOf.connection i hi) hok
      exact ⟨⟨hw', hsize'⟩, hhandled, hkept⟩)
    ⟨hw, hsize⟩ hfold
  refine ⟨⟨hw', hsize', hkept⟩, fun c hc => ?_⟩
  obtain ⟨i, hi, htarget⟩ := himportsOf.target c hc
  exact (hall i hi).congr htarget

theorem enter_traced (fuel : Nat) {top : ModuleId} {w' : Walk} {i : Import}
    (hw : Traced g runtime members root (top :: opened) w) (hfuel : w.pending.size ≤ fuel)
    (himport : g.ImportedBy runtime top i) (h : enter g runtime fuel w i = .ok w')
    : Advances g runtime members root (top :: opened) fuel w w' ∧ w'.Handled (top :: opened) i.target := by
  -- The bound on the depth is not exceeded because a member that is entered is pending no longer.
  induction fuel using Nat.strongRecOn generalizing top opened w w' i with
  | _ fuel ih =>
    rcases enter_cases hfuel h with ⟨hentered, rfl⟩ | ⟨hentered, hpending, rfl⟩ |
      ⟨hentered, n, m, imports, w'', rfl, hm, hcondition, himports, hfold, rfl⟩
    · exact ⟨⟨hw, hfuel, fun _ => id⟩, hw.handled _ hentered⟩
    · obtain ⟨c, hc, htarget, _⟩ := himport
      have htop := hw.isMember_of_mem List.mem_cons_self
      have hadds := addsExternal hw.indexed i
      refine ⟨⟨hw.addExternal hentered hpending ⟨top, c, htop, hc, htarget⟩, ?_, ?_⟩, .inl hadds.target⟩
      · rw [pending_addExternal]
        exact hfuel
      · exact fun id hid => hid.imp_left hadds.listed
    · have hsize : (w.pending.erase i.target).size ≤ n := by
        have := Dict.size_erase hm
        omega
      have ⟨⟨hw'', hsize'', hkept⟩, hdone⟩ :=
        fold_traced (ih n (Nat.lt_succ_self n)) (hw.openImport himport hm hcondition) hsize himports hfold
      have hmodule := hw.member _ _ hm
      refine ⟨⟨?_, Nat.le_succ_of_le hsize'', ?_⟩, ?_⟩
      · exact hw''.close (hw.given _ _ hm) (not_beq_of_entered hw.toInv hentered) hdone
      · intro id hid
        exact (hkept id (hid.cons i.target)).close hmodule
      · exact Handled.close (.inr ⟨i.target, List.mem_cons_self, BEq.rfl⟩) hmodule

theorem ofGraph_eq_error {α : Type} {x : Except GraphError α} {e : LinkError} (h : LinkError.ofGraph x = .error e)
    : ∃ cause, e = .graph cause := by
  cases x with
  | error cause =>
    cases h
    exact ⟨cause, rfl⟩
  | ok a => cases h

/--
A member that was entered imports `t` under a condition, although `t` is to be a member as well.
-/
structure Refuses (g : Graph) (runtime : Option RuntimeSpec) (members : List Member) (root t : ModuleId) : Prop where
  member : IsMember members t
  notRoot : (t == root) = false
  importer : ∃ a imports, IsMember members a ∧ Reaches (g.FollowsSteadily runtime) members root a ∧
    g.imports runtime a = .ok imports ∧ ∃ i ∈ imports, i.target = t ∧ i.condition ≠ none

def FailsWith (g : Graph) (runtime : Option RuntimeSpec) (members : List Member) (root : ModuleId) (e : LinkError)
    : Prop :=
  (∃ cause, e = .graph cause) ∨ ∃ t, e = .conditionalMember t ∧ Refuses g runtime members root t

theorem fold_error {fuel : Nat} {imports : List Import} {e : LinkError}
    (hstep : ∀ {w : Walk} {i : Import}, Traced g runtime members root (id :: opened) w → w.pending.size ≤ fuel →
      i ∈ imports → enter g runtime fuel w i = .error e → FailsWith g runtime members root e)
    (hw : Traced g runtime members root (id :: opened) w) (hsize : w.pending.size ≤ fuel)
    (himports : g.imports runtime id = .ok imports) (hfold : imports.foldlM (enter g runtime fuel) w = .error e)
    : FailsWith g runtime members root e := by
  have himportsOf := Graph.importsOf_imports himports
  obtain ⟨w', i, hi, ⟨hw', hsize'⟩, herror⟩ := foldlM_eq_error
    (fun w => Traced g runtime members root (id :: opened) w ∧ w.pending.size ≤ fuel)
    (by
      rintro w w' i hi ⟨hw, hsize⟩ hok
      have ⟨⟨hw', hsize', _⟩, _⟩ := enter_traced fuel hw hsize (himportsOf.connection i hi) hok
      exact ⟨hw', hsize'⟩)
    ⟨hw, hsize⟩ hfold
  exact hstep hw' hsize' hi herror

theorem enter_error (fuel : Nat) {top : ModuleId} {imports : List Import} {i : Import} {e : LinkError}
    (hw : Traced g runtime members root (top :: opened) w) (hfuel : w.pending.size ≤ fuel)
    (hroot : root ∈ top :: opened) (himports : g.imports runtime top = .ok imports) (hi : i ∈ imports)
    (h : enter g runtime fuel w i = .error e) : FailsWith g runtime members root e := by
  induction fuel using Nat.strongRecOn generalizing top opened w imports i with
  | _ fuel ih =>
    have htop := hw.entered top List.mem_cons_self
    unfold enter at h
    split at h
    · cases h
    next hentered =>
      split at h
      · cases h
      · cases h
      next m n hm =>
        have hmember : IsMember members i.target := (hw.known _).2 (.inl (Option.isSome_of_eq_some hm))
        split at h
        next hcondition =>
          -- The import is the one that the member is refused for.
          cases h
          refine .inr ⟨_, rfl, hmember, ?_, top, imports, ?_, hw.reached top htop, himports, i, hi, rfl, ?_⟩
          · exact not_beq_of_entered hw.toInv (by simpa using hentered) root hroot
          · exact hw.isMember_of_mem List.mem_cons_self
          · exact Option.isSome_iff_ne_none.1 hcondition
        next hcondition =>
          rw [bind_eq_error] at h
          rcases h with h | ⟨imports', himports', h⟩
          · exact .inl (ofGraph_eq_error h)
          · rw [bind_eq_error] at h
            rcases h with h | ⟨w', _, h⟩
            · have himports' := ofGraph_eq_ok himports'
              have himport := (Graph.importsOf_imports himports).connection i hi
              have hopen := hw.openImport himport hm (by simpa using hcondition)
              have hsize : (w.pending.erase i.target).size ≤ n := by
                have := Dict.size_erase hm
                omega
              exact fold_error
                (fun hw hsize hi => ih n (Nat.lt_succ_self n) hw hsize (List.mem_cons_of_mem _ hroot) himports' hi)
                hopen hsize himports' h
            · cases h

theorem Traced.concatenated_of_listed (hw : Traced g runtime members root opened w) (hid : IsMember members id)
    (hlisted : MergeEntry.Listed w.entries id) : ∃ m, .concatenated m ∈ w.entries ∧ m.module == id := by
  obtain ⟨e, he, heid⟩ := hlisted
  cases e with
  | concatenated m => exact ⟨m, he, heid⟩
  | external x => exact absurd (hid.congr (BEq.symm heid)) (hw.external x he).1

theorem Traced.concatenated_of_entered (hw : Traced g runtime members root [] w) (hid : w.entered.contains id)
    : ∃ m, .concatenated m ∈ w.entries ∧ m.module == id := by
  apply hw.concatenated_of_listed ((hw.known id).2 (.inr hid))
  exact (hw.handled id hid).resolve_right (by simp)

theorem Traced.entered_of_isEmpty (hw : Traced g runtime members root opened w) (hempty : w.pending.isEmpty)
    (hid : IsMember members id) : w.entered.contains id := by
  refine ((hw.known id).1 hid).resolve_left fun hpending => ?_
  obtain ⟨m, hm⟩ := Option.isSome_iff_exists.1 hpending
  obtain ⟨_, _, hmem⟩ := Dict.mem_entries_of_get? hm
  exact List.ne_nil_of_mem hmem (List.isEmpty_iff.1 hempty)

theorem Traced.entered_of_leads (hw : Traced g runtime members root [] w) {a b : ModuleId}
    (ha : w.entered.contains a) (hab : Leads (g.Follows runtime) members a b) : w.entered.contains b := by
  obtain ⟨m, hm, hma⟩ := hw.concatenated_of_entered ha
  obtain ⟨c, hc, hcb⟩ := hab.connection
  rcases hw.order m hm c (hc.congr (BEq.symm hma)) with hprecedes | ⟨hentered, _⟩
  · have htarget : IsMember members c.target := hab.target.congr (BEq.symm hcb)
    obtain ⟨m', hm', hmodule⟩ := hw.concatenated_of_listed htarget hprecedes.listed
    rw [← contains_congr (BEq.trans hmodule hcb)]
    exact (hw.concatenated m' hm').2
  · rw [← contains_congr hcb]
    exact hentered

theorem Traced.entered_of_reaches (hw : Traced g runtime members root [] w) (hroot : w.entered.contains root)
    (hid : Reaches (g.Follows runtime) members root id) : w.entered.contains id := by
  refine hid.closed (motive := fun id => w.entered.contains id) ?_ ?_ hroot
  · intro a b hab ha
    rw [← contains_congr hab]
    exact ha
  · intro a b hab ha
    exact hw.entered_of_leads ha hab

end Walk

structure Walk.AtRoot (g : Graph) (runtime : Option RuntimeSpec) (members : List Member) (root : ModuleId) (fuel : Nat)
    (w : Walk) : Prop extends w.Traced g runtime members root [root] where
  size : w.pending.size ≤ fuel
  onlyRoot : w.entered = [root]
  noEntries : w.entries = []

theorem Walk.AtRoot.error {g : Graph} {runtime : Option RuntimeSpec} {members : List Member} {root : ModuleId}
    {fuel : Nat} {w : Walk} (hw : AtRoot g runtime members root fuel w) {imports : List Import} {e : LinkError}
    (himports : g.imports runtime root = .ok imports) (h : imports.foldlM (Walk.enter g runtime fuel) w = .error e)
    : FailsWith g runtime members root e :=
  fold_error (fun hw hsize hi => enter_error fuel hw hsize List.mem_cons_self himports hi) hw.toTraced hw.size
    himports h

theorem MergeSet.ofGraph_run (g : Graph) (root : ModuleId) (members : List Member) (runtime : Option RuntimeSpec)
    : (∃ e, ofGraph g root members runtime = .error e ∧ (e = .notInMergeSet root ∨ ∃ cause, e = .graph cause))
        ∨
      ∃ m imports fuel w, lastMember? members root = some m ∧ g.imports runtime root = .ok imports ∧
        Walk.AtRoot g runtime members root fuel w ∧
        ofGraph g root members runtime = imports.foldlM (Walk.enter g runtime fuel) w >>= fun w' =>
          if w'.pending.isEmpty then
            .ok { w'.push (.concatenated m) with root, runtime }
          else
            .error (.unreachableMembers root (w'.pending.keys.mergeSort fun a b => (compare a b).isLE)) := by
  unfold ofGraph
  dsimp only
  split
  · exact .inl ⟨_, rfl, .inl rfl⟩
  next m hm =>
    have hopen := (Walk.Traced.start g runtime members root).open hm .refl nofun
    have hsize := Nat.le_of_succ_le (Nat.le_of_eq (Dict.size_erase hm))
    rw [get?_ofMembers_eq] at hm
    cases himports : g.imports runtime root with
    | error cause => exact .inl ⟨_, rfl, .inr ⟨cause, rfl⟩⟩
    | ok imports => exact .inr ⟨m, imports, _, _, hm, rfl, ⟨hopen, hsize, rfl, rfl⟩, rfl⟩

theorem MergeSet.ofGraph_cases (g : Graph) (root : ModuleId) (members : List Member)
    (runtime : Option RuntimeSpec)
    : (∃ e, ofGraph g root members runtime = .error e ∧ ∀ id ids, e ≠ .unreachableMembers id ids)
        ∨
      ∃ (m : Member) (w : Walk), m.module == root ∧
        Walk.Traced g runtime members root [] (w.push (.concatenated m)) ∧
        ofGraph g root members runtime =
          if w.pending.isEmpty then
            .ok { w.push (.concatenated m) with root, runtime }
          else
            .error (.unreachableMembers root (w.pending.keys.mergeSort fun a b => (compare a b).isLE)) := by
  rcases ofGraph_run g root members runtime with ⟨e, he, hcause⟩ | ⟨m, imports, fuel, start, hm, himports, hstart, hrun⟩
  · refine .inl ⟨e, he, ?_⟩
    rcases hcause with rfl | ⟨cause, rfl⟩
    · exact nofun
    · exact nofun
  · cases hfold : imports.foldlM (Walk.enter g runtime fuel) start with
    | error e =>
      rw [hfold] at hrun
      refine .inl ⟨e, hrun, ?_⟩
      rcases hstart.error himports hfold with ⟨cause, rfl⟩ | ⟨t, rfl, _⟩
      · exact nofun
      · exact nofun
    | ok w =>
      rw [hfold] at hrun
      have ⟨⟨hw, _, _⟩, hdone⟩ :=
        Walk.fold_traced (Walk.enter_traced _) hstart.toTraced hstart.size himports hfold
      exact .inr ⟨m, w, module_of_lastMember? hm, hw.close hm nofun hdone, hrun⟩

end ModuleLink
