import ModuleLink.Binding.Resolve
import ModuleLink.Proofs.Graph.Search

/-!
This module contains resolution without its guards, which may go on for ever. It is cut into the parts that a hop
consists of: the lookup that it leads to, the answers that need no search, and what is made of a search.
-/

namespace ModuleLink
namespace Linker

structure Lookup where
  entry : MergeEntry
  descriptor : DescriptorId
  name : String
  rest : List String

def Lookup.key (x : Lookup) : DescriptorId × String := (x.descriptor, x.name)

def locate (l : Linker) (site : ReferenceSite) (hop : NextHop) : Resolution ⊕ Lookup :=
  match l.set.get? hop.module with
  | none => .inl { result := .error (.notInMergeSet hop.module) }
  | some entry =>
    match l.graph.shape hop.module hop.strict with
    | .error e => .inl { result := .error (.graph e) }
    | .ok shape =>
      match l.shapeStep shape hop.module hop.path hop.deferred site with
      | .done resolution => .inl resolution
      | .lookup [] => .inl (l.wholeModule entry hop.module hop.deferred)
      | .lookup (name :: rest) =>
        match l.graph.descriptorOf hop.module with
        | .error e => .inl { result := .error (.graph e) }
        | .ok descriptor => .inr { entry, descriptor, name, rest }

def direct (l : Linker) (hop : NextHop) (x : Lookup) : Resolution ⊕ Member :=
  let path := x.name :: x.rest
  let a := l.graph.exports
  match x.entry with
  | .external e => .inl (l.externalExport e hop.module x.descriptor x.name x.rest hop.deferred)
  | .concatenated m =>
    if (a.record (a.lookup x.descriptor x.name)).provided = .notProvided then
      .inl (l.provided .namespaceObject hop.module path path hop.deferred)
    else if let some symbol := m.exports.get? x.name then
      match a.outputPath? x.descriptor path with
      | none => .inl (marker hop.module unusedExport x.rest path hop.deferred)
      | some used =>
        .inl { result := .ok { module := hop.module, base := .symbol symbol, ids := used.drop 1, path,
                               deferred := hop.deferred } }
    else if let some expression := m.rawExports.get? x.name then
      .inl (marker hop.module expression x.rest path hop.deferred)
    else
      .inr m

def reexport (l : Linker) (hop : NextHop) (x : Lookup) (m : Member) (target : Except GraphError FindTarget) :
    Resolution ⊕ NextHop :=
  let path := x.name :: x.rest
  match target with
  | .error e => .inl { result := .error (.graph e) }
  | .ok .notFound => .inl { result := .error (.unresolvableReexport hop.module path l.set.memberNames) }
  | .ok .circular => .inl (marker hop.module circularReexport [] path hop.deferred)
  | .ok (.found site) =>
    match l.graph.module hop.module with
    | .error e => .inl { result := .error (.graph e) }
    | .ok module =>
      .inr
        { module := site.module
          path := site.path.getD [] ++ x.rest
          strict := module.buildMeta.strict
          deferred := hop.deferred && site.deferred }
  | .ok .noTarget =>
    if m.namespaceSymbol.isSome then
      .inl { result := (l.objectName hop.module (·.namespaceObject) "namespace object").map fun name =>
        rawBinding hop.module name ((l.graph.exports.outputPath? x.descriptor path).getD path) path hop.deferred }
    else
      .inl { result := .error (.unknownExport hop.module path) }

variable {l : Linker} {site : ReferenceSite} {hop hop' next next' : NextHop} {x x' : Lookup} {m : Member}
  {visited : List (DescriptorId × String)} {r : Resolution}

theorem memberExport_eq (l : Linker) (hop : NextHop) (m : Member) (d : DescriptorId) (name : String)
    (rest : List String)
    : l.memberExport m hop.module d name rest hop.deferred
        =
      (l.direct hop ⟨.concatenated m, d, name, rest⟩).elim .inl fun m' =>
        l.reexport hop ⟨.concatenated m, d, name, rest⟩ m' (l.graph.findTarget hop.module name l.set.contains) := by
  unfold memberExport direct
  dsimp only
  split
  · rfl
  · cases m.exports.get? name with
    | some symbol =>
      dsimp only
      cases l.graph.exports.outputPath? d (name :: rest) <;> rfl
    | none =>
      cases m.rawExports.get? name with
      | some expression => rfl
      | none => rfl

theorem advance_eq (l : Linker) (site : ReferenceSite) (visited : List (DescriptorId × String)) (hop : NextHop)
    : l.advance site visited hop
        =
      (l.locate site hop).elim .inl fun x =>
        if visited.contains x.key then
          .inl (marker hop.module circularReexport [] (x.name :: x.rest) hop.deferred)
        else
          (l.direct hop x).elim .inl fun m =>
            (l.reexport hop x m (l.graph.findTarget hop.module x.name l.set.contains)).elim .inl fun next =>
              .inr (x.key, next) := by
  unfold advance locate
  cases l.set.get? hop.module with
  | none => rfl
  | some entry =>
    dsimp only
    cases l.graph.shape hop.module hop.strict with
    | error e => rfl
    | ok shape =>
      dsimp only
      cases l.shapeStep shape hop.module hop.path hop.deferred site with
      | done resolution => rfl
      | lookup path =>
        cases path with
        | nil => rfl
        | cons name rest =>
          dsimp only
          cases l.graph.descriptorOf hop.module with
          | error e => rfl
          | ok d =>
            dsimp only [Sum.elim_inr]
            by_cases h : visited.contains (d, name)
            · rw [if_pos h]
              exact (if_pos h).symm
            · rw [if_neg h]
              refine Eq.trans ?_ (if_neg h).symm
              cases entry with
              | external e => rfl
              | concatenated m =>
                dsimp only
                rw [memberExport_eq]
                cases l.direct hop ⟨.concatenated m, d, name, rest⟩ with
                | inl r => rfl
                | inr m' =>
                  dsimp only [Sum.elim_inr]
                  cases l.reexport hop ⟨.concatenated m, d, name, rest⟩ m' _ <;> rfl

theorem locate_eq_inr
    : l.locate site hop = .inr x
        ↔
      l.set.get? hop.module = some x.entry ∧ l.graph.descriptorOf hop.module = .ok x.descriptor ∧
        ∃ shape, l.graph.shape hop.module hop.strict = .ok shape ∧
          l.shapeStep shape hop.module hop.path hop.deferred site = .lookup (x.name :: x.rest) := by
  constructor
  · intro h
    unfold locate at h
    split at h
    · cases h
    · next hentry =>
      split at h
      · cases h
      · next shape hshape =>
        split at h
        · cases h
        · cases h
        · next hstep =>
          split at h
          · cases h
          · next hd =>
            cases h
            exact ⟨hentry, hd, shape, hshape, hstep⟩
  · rintro ⟨hentry, hd, shape, hshape, hstep⟩
    unfold locate
    rw [hentry, hshape, hd]
    dsimp only
    rw [hstep]

theorem direct_eq_inr
    : l.direct hop x = .inr m
        ↔
      x.entry = .concatenated m ∧
        (l.graph.exports.record (l.graph.exports.lookup x.descriptor x.name)).provided ≠ .notProvided ∧
        m.exports.get? x.name = none ∧ m.rawExports.get? x.name = none := by
  constructor
  · intro h
    unfold direct at h
    dsimp only at h
    split at h
    · cases h
    · next m' hentry =>
      split at h
      · cases h
      · next hprovided =>
        split at h
        · split at h <;> cases h
        · next hexports =>
          split at h
          · cases h
          · next hraw =>
            cases h
            exact ⟨hentry, hprovided, Option.eq_none_iff_forall_ne_some.2 hexports,
              Option.eq_none_iff_forall_ne_some.2 hraw⟩
  · rintro ⟨hentry, hprovided, hexports, hraw⟩
    unfold direct
    rw [hentry]
    dsimp only
    rw [if_neg hprovided, hexports, hraw]

theorem reexport_eq_inr {target : Except GraphError FindTarget}
    : l.reexport hop x m target = .inr next
        ↔
      ∃ found module, target = .ok (.found found) ∧ l.graph.module hop.module = .ok module ∧
        next = ⟨found.module, found.path.getD [] ++ x.rest, module.buildMeta.strict,
          hop.deferred && found.deferred⟩ := by
  constructor
  · intro h
    unfold reexport at h
    dsimp only at h
    split at h
    · cases h
    · cases h
    · cases h
    · next found =>
      split at h
      · cases h
      · next module hmodule =>
        cases h
        exact ⟨found, module, rfl, hmodule, rfl⟩
    · split at h <;> cases h
  · rintro ⟨found, module, rfl, hmodule, rfl⟩
    unfold reexport
    dsimp only
    rw [hmodule]

def Seeks (l : Linker) (x : Lookup) (target : Except GraphError FindTarget) : Prop :=
  l.graph.Seeks l.set.contains (l.graph.exports.lookup x.descriptor x.name) x.name target

inductive Ends (l : Linker) (site : ReferenceSite) (hop : NextHop) : Resolution → Prop where
  | located {r : Resolution} : l.locate site hop = .inl r → Ends l site hop r
  | direct {x : Lookup} {r : Resolution} : l.locate site hop = .inr x → l.direct hop x = .inl r → Ends l site hop r
  | reexport {x : Lookup} {m : Member} {target : Except GraphError FindTarget} {r : Resolution} :
      l.locate site hop = .inr x → l.direct hop x = .inr m → l.Seeks x target →
      l.reexport hop x m target = .inl r → Ends l site hop r

/--
A hop leads over a lookup to the next hop, whatever lookups were made before.
-/
structure Proceeds (l : Linker) (site : ReferenceSite) (hop : NextHop) (x : Lookup) (next : NextHop) : Prop where
  located : l.locate site hop = .inr x
  target : ∃ m target, l.direct hop x = .inr m ∧ l.Seeks x target ∧ l.reexport hop x m target = .inr next

/--
Resolution without guards comes to an end with the given result, however many hops it takes.
-/
inductive Reaches (l : Linker) (site : ReferenceSite) : NextHop → Resolution → Prop where
  | ends {hop : NextHop} {r : Resolution} : l.Ends site hop r → Reaches l site hop r
  | next {hop next : NextHop} {x : Lookup} {r : Resolution} :
      l.Proceeds site hop x next → Reaches l site next r → Reaches l site hop r

inductive Passes (l : Linker) (site : ReferenceSite) : NextHop → List Lookup → NextHop → Prop where
  | nil (hop : NextHop) : Passes l site hop [] hop
  | cons {hop mid hop' : NextHop} {x : Lookup} {xs : List Lookup} :
      l.Proceeds site hop x mid → Passes l site mid xs hop' → Passes l site hop (x :: xs) hop'

namespace Proceeds

theorem unique (h : l.Proceeds site hop x next) (h' : l.Proceeds site hop x' next') : x = x' ∧ next = next' := by
  cases h.located.symm.trans h'.located
  obtain ⟨m, target, hm, htarget, hnext⟩ := h.target
  obtain ⟨m', target', hm', htarget', hnext'⟩ := h'.target
  cases hm.symm.trans hm'
  cases htarget.unique htarget'
  cases hnext.symm.trans hnext'
  exact ⟨rfl, rfl⟩

theorem not_ends (h : l.Proceeds site hop x next) : ¬ l.Ends site hop r := by
  obtain ⟨m, target, hm, htarget, hnext⟩ := h.target
  intro hends
  cases hends with
  | located hlocated => cases h.located.symm.trans hlocated
  | direct hlocated hdirect =>
    cases h.located.symm.trans hlocated
    cases hm.symm.trans hdirect
  | reexport hlocated hdirect hseeks hreexport =>
    cases h.located.symm.trans hlocated
    cases hm.symm.trans hdirect
    cases htarget.unique hseeks
    cases hnext.symm.trans hreexport

end Proceeds

theorem Ends.unique {r' : Resolution} (h : l.Ends site hop r) (h' : l.Ends site hop r') : r = r' := by
  cases h with
  | located hlocated =>
    cases h' with
    | located hlocated' =>
      cases hlocated.symm.trans hlocated'
      rfl
    | direct hlocated' => cases hlocated.symm.trans hlocated'
    | reexport hlocated' => cases hlocated.symm.trans hlocated'
  | direct hlocated hdirect =>
    cases h' with
    | located hlocated' => cases hlocated.symm.trans hlocated'
    | direct hlocated' hdirect' =>
      cases hlocated.symm.trans hlocated'
      cases hdirect.symm.trans hdirect'
      rfl
    | reexport hlocated' hdirect' =>
      cases hlocated.symm.trans hlocated'
      cases hdirect.symm.trans hdirect'
  | reexport hlocated hdirect hseeks hreexport =>
    cases h' with
    | located hlocated' => cases hlocated.symm.trans hlocated'
    | direct hlocated' hdirect' =>
      cases hlocated.symm.trans hlocated'
      cases hdirect.symm.trans hdirect'
    | reexport hlocated' hdirect' hseeks' hreexport' =>
      cases hlocated.symm.trans hlocated'
      cases hdirect.symm.trans hdirect'
      cases hseeks.unique hseeks'
      cases hreexport.symm.trans hreexport'
      rfl

namespace Reaches

theorem after (h : l.Reaches site hop r) (hnext : l.Proceeds site hop x next) : l.Reaches site next r := by
  cases h with
  | ends hends => exact absurd hends hnext.not_ends
  | next hnext' hreaches =>
    cases (hnext.unique hnext').2
    exact hreaches

theorem unique {r' : Resolution} (h : l.Reaches site hop r) (h' : l.Reaches site hop r') : r = r' := by
  induction h with
  | ends hends =>
    cases h' with
    | ends hends' => exact hends.unique hends'
    | next hnext => exact absurd hends hnext.not_ends
  | next hnext _ ih => exact ih (h'.after hnext)

theorem not_of_closed {P : NextHop → Prop} (hclosed : ∀ hop, P hop → ∃ x next, l.Proceeds site hop x next ∧ P next)
    (h : l.Reaches site hop r) : ¬ P hop := by
  induction h with
  | ends hends =>
    intro hP
    obtain ⟨x, next, hnext, -⟩ := hclosed _ hP
    exact hnext.not_ends hends
  | next hnext _ ih =>
    intro hP
    obtain ⟨x, next, hnext', hP'⟩ := hclosed _ hP
    cases (hnext.unique hnext').2
    exact ih hP'

end Reaches

namespace Passes

variable {xs ys : List Lookup} {mid : NextHop}

theorem append (h : l.Passes site hop xs mid) (h' : l.Passes site mid ys hop') : l.Passes site hop (xs ++ ys) hop' := by
  induction h with
  | nil => exact h'
  | cons hnext _ ih => exact .cons hnext (ih h')

theorem concat (h : l.Passes site hop xs mid) (hnext : l.Proceeds site mid x next)
    : l.Passes site hop (xs ++ [x]) next :=
  h.append (.cons hnext (.nil next))

theorem split (h : l.Passes site hop (xs ++ x :: ys) hop')
    : ∃ mid next, l.Passes site hop xs mid ∧ l.Proceeds site mid x next ∧ l.Passes site next ys hop' := by
  induction xs generalizing hop with
  | nil =>
    cases h with
    | cons hnext hrest => exact ⟨_, _, .nil _, hnext, hrest⟩
  | cons y ys ih =>
    cases h with
    | cons hnext hrest =>
      obtain ⟨mid, next, hbefore, hmid, hafter⟩ := ih hrest
      exact ⟨mid, next, .cons hnext hbefore, hmid, hafter⟩

theorem after (h : l.Passes site hop xs hop') (hreaches : l.Reaches site hop r) : l.Reaches site hop' r := by
  induction h with
  | nil => exact hreaches
  | cons hnext _ ih => exact ih (hreaches.after hnext)

end Passes

end Linker
end ModuleLink
