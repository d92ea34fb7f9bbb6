import ModuleLink.Graph.Edit
import ModuleLink.Proofs.Merge.Walk

/-!
This module contains the proof that the merge set of a root has exactly the entries that it should have: the given
members and the modules that they import. If members are left out, it is because no path leads to them.
-/

namespace ModuleLink

namespace RawText

theorem compare_eq : (compare : RawText → RawText → Ordering) = compareOn bytes := by
  funext a b
  change (compare a.bytes b.bytes).then .eq = compare a.bytes b.bytes
  cases compare a.bytes b.bytes <;> rfl

instance transOrd : Std.TransOrd RawText := by
  unfold Std.TransOrd
  rw [compare_eq]
  infer_instance

instance lawfulEqOrd : Std.LawfulEqOrd RawText where
  eq_of_compare := by
    intro a b h
    rw [compare_eq] at h
    cases a
    cases b
    exact congrArg mk (Std.LawfulEqOrd.eq_of_compare (α := List UInt8) h)

end RawText

def Component.rank : Component → Nat
  | .root => 0
  | .current => 1
  | .parent => 2
  | .normal _ => 3

namespace Component

theorem compare_eq
    : (compare : Component → Component → Ordering) = compareLex (compareOn rank) (compareOn text) := by
  funext a b
  unfold compareLex compareOn
  cases a with
  | normal s =>
    cases b with
    | normal t =>
      change (compare s t).then .eq = compare s t
      cases compare s t <;> rfl
    | _ => rfl
  | _ => cases b <;> rfl

instance transOrd : Std.TransOrd Component := by
  unfold Std.TransOrd
  rw [compare_eq]
  infer_instance

theorem eq_of_rank_of_text {a b : Component} (hrank : a.rank = b.rank) (htext : a.text = b.text) : a = b := by
  cases a <;> cases b <;> simp_all [rank, text]

instance lawfulEqOrd : Std.LawfulEqOrd Component where
  eq_of_compare := by
    intro a b h
    rw [compare_eq] at h
    have ⟨hrank, htext⟩ := Ordering.then_eq_eq.1 h
    exact eq_of_rank_of_text (Std.LawfulEqOrd.eq_of_compare hrank) (Std.LawfulEqOrd.eq_of_compare htext)

end Component

namespace ModuleId

instance transOrd : Std.TransOrd ModuleId where
  eq_swap := Std.OrientedOrd.eq_swap (α := List Component)
  isLE_trans := Std.TransOrd.isLE_trans (α := List Component)

theorem compare_eq_iff {a b : ModuleId} : compare a b = .eq ↔ a == b := by
  rw [beq_iff]
  exact Std.LawfulEqOrd.compare_eq_iff_eq (α := List Component)

theorem pairwise_mergeSort {ids : List ModuleId} (h : ids.Pairwise fun a b => (a == b) = false)
    : (ids.mergeSort fun a b => (compare a b).isLE).Pairwise fun a b => compare a b = .lt := by
  have hsorted : (ids.mergeSort fun a b => (compare a b).isLE).Pairwise fun a b => (compare a b).isLE := by
    apply List.pairwise_mergeSort
    · intro a b c
      exact Std.TransOrd.isLE_trans
    · intro a b
      rw [Std.OrientedOrd.eq_swap (a := b)]
      cases compare a b <;> rfl
  have hdistinct : (ids.mergeSort fun a b => (compare a b).isLE).Pairwise fun a b => (a == b) = false := by
    refine (List.Perm.pairwise_iff ?_ (List.mergeSort_perm ids _)).2 h
    intro a b hab
    rw [BEq.comm]
    exact hab
  refine (hsorted.and hdistinct).imp ?_
  rintro a b ⟨hle, hne⟩
  refine (Ordering.isLE_iff_eq_lt_or_eq_eq.1 hle).resolve_right fun heq => ?_
  rw [compare_eq_iff.1 heq] at hne
  cases hne

end ModuleId

namespace MergeSet

variable {g : Graph} {root : ModuleId} {members : List Member} {runtime : Option RuntimeSpec}

structure Complete (s : MergeSet) (g : Graph) (root : ModuleId) (members : List Member)
    (runtime : Option RuntimeSpec) : Prop where
  distinct : MergeEntry.Distinct s.entries
  concatenated : ∀ m, .concatenated m ∈ s.entries ↔ lastMember? members m.module = some m
  last : ∃ m, s.entries.getLast? = some (.concatenated m) ∧ m.module == root
  external : ∀ id, ¬IsMember members id →
    ((∃ x, .external x ∈ s.entries ∧ x.module == id)
      ↔ ∃ a c, IsMember members a ∧ g.Follows runtime a c ∧ c.target == id)
  index : ∀ id k, s.index.get? id = some k ↔ ∃ e, s.entries[k]? = some e ∧ e.module == id
  lookup : ∀ id e, s.get? id = some e ↔ ∃ k : Nat, s.entries[k]? = some e ∧ e.module == id
  reachable : ∀ id, IsMember members id → Reaches (g.FollowsSteadily runtime) members root id

theorem complete_of_traced {m : Member} {w : Walk} (hm : m.module == root)
    (hw : Walk.Traced g runtime members root [] (w.push (.concatenated m))) (hempty : w.pending.isEmpty)
    : Complete { w.push (.concatenated m) with root, runtime } g root members runtime := by
  have hentered id (hid : IsMember members id) := hw.entered_of_isEmpty hempty hid
  constructor
  · exact hw.indexed.distinct
  · intro m'
    refine ⟨fun hm' => (hw.concatenated m' hm').1, fun hlast => ?_⟩
    obtain ⟨m'', hm'', hmodule⟩ := hw.concatenated_of_entered (hentered _ (isMember_of_lastMember? hlast))
    have hlast' := (hw.concatenated m'' hm'').1
    rw [lastMember?_congr hmodule, hlast] at hlast'
    cases hlast'
    exact hm''
  · exact ⟨m, List.getLast?_concat, hm⟩
  · intro id hid
    constructor
    · rintro ⟨x, hx, hxid⟩
      obtain ⟨_, a, c, ha, hc, htarget⟩ := hw.external x hx
      exact ⟨a, c, ha, hc, BEq.trans htarget hxid⟩
    · rintro ⟨a, c, ha, hc, htarget⟩
      obtain ⟨m', hm', hmodule⟩ := hw.concatenated_of_entered (hentered a ha)
      rcases hw.order m' hm' c (hc.congr (BEq.symm hmodule)) with hprecedes | ⟨htarget', _⟩
      · obtain ⟨e, he, heid⟩ := hprecedes.listed
        cases e with
        | concatenated m'' =>
          have hmember := isMember_of_lastMember? (hw.concatenated m'' he).1
          exact absurd (hmember.congr (BEq.trans heid htarget)) hid
        | external x => exact ⟨x, he, BEq.trans heid htarget⟩
      · exact absurd (((hw.known _).2 (.inr htarget')).congr htarget) hid
  · exact hw.indexed
  · exact fun id e => hw.indexed.get?_eq_some_iff
  · intro id hid
    exact hw.reached id (hentered id hid)

theorem mem_pending_iff {m : Member} {w : Walk} (hm : m.module == root)
    (hw : Walk.Traced g runtime members root [] (w.push (.concatenated m))) (id : ModuleId)
    : (∃ k ∈ w.pending.keys, k == id) ↔ IsMember members id ∧ ¬Reaches (g.Follows runtime) members root id := by
  have hroot : w.entered.contains root := by
    rw [← contains_congr hm]
    exact (hw.concatenated m (List.mem_append_right _ List.mem_cons_self)).2
  constructor
  · rintro ⟨k, hk, hid⟩
    obtain ⟨v, hv⟩ := Dict.get?_of_mem_keys hw.keys hk
    rw [Dict.get?_congr hid] at hv
    refine ⟨(hw.known id).2 (.inl (Option.isSome_of_eq_some hv)), fun hreaches => ?_⟩
    rw [hw.apart id (hw.entered_of_reaches hroot hreaches)] at hv
    cases hv
  · rintro ⟨hid, hunreached⟩
    have hpending := ((hw.known id).1 hid).resolve_right fun hentered =>
      hunreached ((hw.reached id hentered).mono fun _ _ hfollows => hfollows.toFollows)
    obtain ⟨v, hv⟩ := Option.isSome_iff_exists.1 hpending
    exact Dict.mem_keys_of_get? hv

/--
A merge set that is made has all that it should have and nothing else. If it is not made because of members that are not
reached, then these are the members to which no path leads, in ascending order.
-/
theorem ofGraph_complete (g : Graph) (root : ModuleId) (members : List Member) (runtime : Option RuntimeSpec)
    : (∀ s, ofGraph g root members runtime = .ok s → s.Complete g root members runtime)
        ∧
      ∀ id ids, ofGraph g root members runtime = .error (.unreachableMembers id ids) →
        id = root ∧ ids.Pairwise (fun a b => compare a b = .lt) ∧
        ∀ a, (∃ k ∈ ids, k == a) ↔ IsMember members a ∧ ¬Reaches (g.Follows runtime) members root a := by
  rcases ofGraph_cases g root members runtime with ⟨e, he, hne⟩ | ⟨m, w, hm, hw, hresult⟩
  · rw [he]
    refine ⟨nofun, fun id ids h => ?_⟩
    cases h
    exact absurd rfl (hne id ids)
  · rw [hresult]
    split
    next hempty =>
      refine ⟨fun s hs => ?_, nofun⟩
      cases hs
      exact complete_of_traced hm hw hempty
    · refine ⟨nofun, fun id ids h => ?_⟩
      cases h
      refine ⟨rfl, ModuleId.pairwise_mergeSort hw.keys, fun a => ?_⟩
      rw [← mem_pending_iff hm hw a]
      simp only [List.mem_mergeSort]

end MergeSet

namespace Sample

def frame : ModuleId := ⟨"./frame"⟩
def panel : ModuleId := ⟨"./panel"⟩
def widget : ModuleId := ⟨"./widget"⟩
def icon : ModuleId := ⟨"./icon"⟩

def importing (g : Graph) (a b : ModuleId) (condition : Condition) : Graph :=
  let requested := (g.addDependency (some a) { request := b.text, condition }).graph
  (requested.connect (some a) ⟨g.dependencies.size⟩ b).graph

def bundle : Graph :=
  importing (importing (importing (importing
    (.ofModules [{ id := frame }, { id := panel }, { id := widget }, { id := icon }])
    frame panel .always) panel frame .always) panel widget .always) widget icon (.inRuntimes (.single "worker"))

def parts : List Member := [{ module := frame }, { module := panel }, { module := widget }]

def pair : List Member := [{ module := frame }, { module := panel }]

def runtimes : RuntimeSpec := .ofNames ["main", "worker"]

def inMain : Condition := .inRuntimes (.single "main")
def inWorker : Condition := .inRuntimes (.single "worker")

def assembled (entries : List MergeEntry) : MergeSet where
  toEntryTable := .ofFirst entries
  root := frame
  runtime := some runtimes

def merged : MergeSet where
  root := frame
  runtime := some runtimes
  entries := [
    .external { module := icon, condition := some (.single "worker") },
    .concatenated { module := widget }, .concatenated { module := panel }, .concatenated { module := frame }]
  index := .ofList [(icon, 0), (widget, 1), (panel, 2), (frame, 3)]

theorem ofGraph_bundle : MergeSet.ofGraph bundle frame parts (some runtimes) = .ok merged := by decide +kernel

end Sample

theorem MergeSet.ofGraph_complete_sample
    : ofGraph Sample.bundle Sample.frame Sample.parts (some Sample.runtimes) = .ok Sample.merged ∧
      Sample.merged.Complete Sample.bundle Sample.frame Sample.parts (some Sample.runtimes) ∧
      ofGraph Sample.bundle Sample.icon ({ module := Sample.icon } :: Sample.parts) none
        =
      .error (.unreachableMembers Sample.icon [Sample.frame, Sample.panel, Sample.widget]) ∧
      ¬Reaches (Sample.bundle.Follows none) ({ module := Sample.icon } :: Sample.parts)
        Sample.icon Sample.panel := by
  have herror : ofGraph Sample.bundle Sample.icon ({ module := Sample.icon } :: Sample.parts) none
      = .error (.unreachableMembers Sample.icon [Sample.frame, Sample.panel, Sample.widget]) := by
    rw [← List.mergeSort_of_pairwise (show [Sample.frame, Sample.panel, Sample.widget].Pairwise
      fun a b => (compare a b).isLE by decide +kernel)]
    rfl
  have hcomplete := (ofGraph_complete Sample.bundle Sample.frame Sample.parts _).1 _ Sample.ofGraph_bundle
  have ⟨_, _, hids⟩ := (ofGraph_complete Sample.bundle Sample.icon _ none).2 _ _ herror
  have hpanel := (hids Sample.panel).1 ⟨Sample.panel, by simp, by decide⟩
  exact ⟨Sample.ofGraph_bundle, hcomplete, herror, hpanel.2⟩

end ModuleLink
