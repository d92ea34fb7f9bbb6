import Mathlib.Logic.Relation
import ModuleLink.Proofs.Graph.Target

/-!
This module compares the search for the module that a re-exported binding comes from with the same search without its
guard, which may go on for ever. A search that meets a record again has gone in a circle, unless the record passes on
the name that is asked of it: it may then lead elsewhere.
-/

namespace ModuleLink.Graph

/--
The search without its guard comes to an end with the given result.
-/
inductive Seeks (g : Graph) (accept : ModuleId → Bool) : RecordId → String → Except GraphError FindTarget → Prop where
  | noTarget {r : RecordId} {requested : String} (hhop : g.hop? r requested = none) :
      Seeks g accept r requested (.ok .noTarget)
  | found {r : RecordId} {requested : String} {site : TargetSite}
      (hhop : g.hop? r requested = some site) (haccept : accept site.module = true) :
      Seeks g accept r requested (.ok (.found site))
  | whole {r : RecordId} {requested : String} {site : TargetSite}
      (hhop : g.hop? r requested = some site) (haccept : accept site.module = false)
      (hpath : site.path.getD [] = []) : Seeks g accept r requested (.ok .notFound)
  | unknown {r : RecordId} {requested first : String} {rest : List String} {site : TargetSite} {e : GraphError}
      (hhop : g.hop? r requested = some site) (haccept : accept site.module = false)
      (hpath : site.path = some (first :: rest)) (hd : g.descriptorOf site.module = .error e) :
      Seeks g accept r requested (.error e)
  | next {r : RecordId} {requested first : String} {rest : List String} {site : TargetSite} {d : DescriptorId}
      {result : Except GraphError FindTarget}
      (hhop : g.hop? r requested = some site) (haccept : accept site.module = false)
      (hpath : site.path = some (first :: rest)) (hd : g.descriptorOf site.module = .ok d)
      (hnext : Seeks g accept (g.exports.lookup d first) first result) :
      Seeks g accept r requested (result.map (·.through rest site.deferred))

structure SeekStep (g : Graph) (accept : ModuleId → Bool) (s s' : RecordId × String) : Prop where
  hop : ∃ site rest d, g.hop? s.1 s.2 = some site ∧ accept site.module = false ∧
    site.path = some (s'.2 :: rest) ∧ g.descriptorOf site.module = .ok d ∧ s'.1 = g.exports.lookup d s'.2

/--
The search comes to a record twice, and the second time the record is asked for a name that leads it elsewhere.
-/
def Forwards (g : Graph) (accept : ModuleId → Bool) (s : RecordId × String) : Prop :=
  ∃ r name name', Relation.ReflTransGen (g.SeekStep accept) s (r, name) ∧
    Relation.TransGen (g.SeekStep accept) (r, name) (r, name') ∧ g.hop? r name ≠ g.hop? r name'

variable {g : Graph} {accept : ModuleId → Bool}

namespace SeekStep

variable {s s' s'' : RecordId × String}

theorem of_hop {r : RecordId} {name first : String} {rest : List String} {site : TargetSite} {d : DescriptorId}
    (hhop : g.hop? r name = some site) (haccept : accept site.module = false)
    (hpath : site.path = some (first :: rest)) (hd : g.descriptorOf site.module = .ok d)
    : g.SeekStep accept (r, name) (g.exports.lookup d first, first) :=
  ⟨site, rest, d, hhop, haccept, hpath, hd, rfl⟩

theorem unique (h : g.SeekStep accept s s') (h' : g.SeekStep accept s s'') : s' = s'' := by
  obtain ⟨site, rest, d, hhop, -, hpath, hd, hlookup⟩ := h.hop
  obtain ⟨site', rest', d', hhop', -, hpath', hd', hlookup'⟩ := h'.hop
  cases hhop.symm.trans hhop'
  cases hd.symm.trans hd'
  have hname : s'.2 = s''.2 := by
    rw [hpath, Option.some.injEq, List.cons.injEq] at hpath'
    exact hpath'.1
  refine Prod.ext ?_ hname
  rw [hlookup, hlookup', hname]

theorem congr {r : RecordId} {name name' : String} (h : g.SeekStep accept (r, name) s)
    (hhop : g.hop? r name = g.hop? r name') : g.SeekStep accept (r, name') s := by
  obtain ⟨site, rest, d, hsite, hrest⟩ := h.hop
  exact ⟨site, rest, d, hhop ▸ hsite, hrest⟩

section GoesOn

variable {r : RecordId} {name : String} {site : TargetSite}

theorem hop?_ne_none (h : g.SeekStep accept (r, name) s) : g.hop? r name ≠ none := by
  obtain ⟨site, _, _, hhop, -⟩ := h.hop
  rw [hhop]
  exact nofun

theorem accept_eq_false (h : g.SeekStep accept (r, name) s) (hhop : g.hop? r name = some site)
    : accept site.module = false := by
  obtain ⟨site', _, _, hhop', haccept, -⟩ := h.hop
  cases hhop.symm.trans hhop'
  exact haccept

theorem path_ne_nil (h : g.SeekStep accept (r, name) s) (hhop : g.hop? r name = some site)
    : site.path.getD [] ≠ [] := by
  obtain ⟨site', _, _, hhop', -, hpath, -⟩ := h.hop
  cases hhop.symm.trans hhop'
  rw [hpath]
  exact nofun

theorem descriptorOf_ne_error (h : g.SeekStep accept (r, name) s) (hhop : g.hop? r name = some site) {e : GraphError}
    : g.descriptorOf site.module ≠ .error e := by
  obtain ⟨site', _, d, hhop', -, -, hd, -⟩ := h.hop
  cases hhop.symm.trans hhop'
  rw [hd]
  exact nofun

theorem of_steps {visited : List RecordId} (hnew : r ∉ visited) {v : RecordId} {m : String} (hv : v ∈ visited)
    (hsteps : Relation.ReflTransGen (g.SeekStep accept) (r, name) (v, m))
    : ∃ s, g.SeekStep accept (r, name) s ∧ Relation.ReflTransGen (g.SeekStep accept) s (v, m) := by
  rcases hsteps.cases_head with heq | hsteps
  · cases heq
    exact absurd hv hnew
  · exact hsteps

end GoesOn

end SeekStep

namespace Seeks

variable {r : RecordId} {name : String} {result result' : Except GraphError FindTarget}

theorem unique (h : g.Seeks accept r name result) (h' : g.Seeks accept r name result') : result = result' := by
  induction h generalizing result' with
  | noTarget hhop =>
    cases h' with
    | noTarget => rfl
    | found hhop' | whole hhop' | unknown hhop' | next hhop' => cases hhop.symm.trans hhop'
  | found hhop haccept =>
    cases h' with
    | noTarget hhop' => cases hhop.symm.trans hhop'
    | found hhop' =>
      cases hhop.symm.trans hhop'
      rfl
    | whole hhop' haccept' | unknown hhop' haccept' | next hhop' haccept' =>
      cases hhop.symm.trans hhop'
      cases haccept.symm.trans haccept'
  | whole hhop haccept hpath =>
    cases h' with
    | noTarget hhop' => cases hhop.symm.trans hhop'
    | found hhop' haccept' =>
      cases hhop.symm.trans hhop'
      cases haccept.symm.trans haccept'
    | whole => rfl
    | unknown hhop' _ hpath' | next hhop' _ hpath' =>
      cases hhop.symm.trans hhop'
      rw [hpath'] at hpath
      cases hpath
  | unknown hhop haccept hpath hd =>
    cases h' with
    | noTarget hhop' => cases hhop.symm.trans hhop'
    | found hhop' haccept' =>
      cases hhop.symm.trans hhop'
      cases haccept.symm.trans haccept'
    | whole hhop' _ hpath' =>
      cases hhop.symm.trans hhop'
      rw [hpath] at hpath'
      cases hpath'
    | unknown hhop' _ _ hd' =>
      cases hhop.symm.trans hhop'
      cases hd.symm.trans hd'
      rfl
    | next hhop' _ _ hd' =>
      cases hhop.symm.trans hhop'
      cases hd.symm.trans hd'
  | next hhop haccept hpath hd hnext ih =>
    have hstep := SeekStep.of_hop hhop haccept hpath hd
    cases h' with
    | noTarget hhop' => exact absurd hhop' hstep.hop?_ne_none
    | found hhop' haccept' => cases haccept'.symm.trans (hstep.accept_eq_false hhop')
    | whole hhop' _ hpath' => exact absurd hpath' (hstep.path_ne_nil hhop')
    | unknown hhop' _ _ hd' => exact absurd hd' (hstep.descriptorOf_ne_error hhop')
    | next hhop' haccept' hpath' hd' hnext' =>
      cases hhop.symm.trans hhop'
      cases hpath.symm.trans hpath'
      cases hd.symm.trans hd'
      rw [ih hnext']

theorem not_of_closed {P : RecordId × String → Prop} (hclosed : ∀ s, P s → ∃ s', g.SeekStep accept s s' ∧ P s')
    (h : g.Seeks accept r name result) : ¬ P (r, name) := by
  intro hP
  induction h with (obtain ⟨s', hstep, hP'⟩ := hclosed _ hP)
  | noTarget hhop => exact hstep.hop?_ne_none hhop
  | found hhop haccept => cases haccept.symm.trans (hstep.accept_eq_false hhop)
  | whole hhop _ hpath => exact hstep.path_ne_nil hhop hpath
  | unknown hhop _ _ hd => exact hstep.descriptorOf_ne_error hhop hd
  | next hhop haccept hpath hd _ ih =>
    rw [hstep.unique (.of_hop hhop haccept hpath hd)] at hP'
    exact ih hP'

end Seeks

namespace Finds

variable {visited : List RecordId} {r : RecordId} {name : String} {result : Except GraphError FindTarget}

theorem seeks (h : g.Finds accept visited r name result) (hresult : result ≠ .ok .circular)
    : g.Seeks accept r name result := by
  induction h with
  | noTarget hhop => exact .noTarget hhop
  | found hhop haccept => exact .found hhop haccept
  | whole hhop haccept hpath => exact .whole hhop haccept hpath
  | unknown hhop haccept hpath hd => exact .unknown hhop haccept hpath hd
  | circular => exact absurd rfl hresult
  | @next _ _ _ _ _ _ _ result hhop haccept hpath hd _ _ ih =>
    refine .next hhop haccept hpath hd (ih ?_)
    rintro rfl
    exact hresult rfl

end Finds

theorem not_seeks_of_circle {r : RecordId} {name name' : String}
    (hcircle : Relation.TransGen (g.SeekStep accept) (r, name) (r, name')) (hhop : g.hop? r name = g.hop? r name')
    {s : RecordId × String} (hs : Relation.ReflTransGen (g.SeekStep accept) s (r, name'))
    (result : Except GraphError FindTarget)
    : ¬ g.Seeks accept s.1 s.2 result := by
  intro hseeks
  refine hseeks.not_of_closed (P := fun s => Relation.ReflTransGen (g.SeekStep accept) s (r, name')) ?_ hs
  intro s hs
  rcases hs.cases_head with rfl | ⟨s', hstep, hs'⟩
  · obtain ⟨s', hstep, hs'⟩ := Relation.TransGen.head'_iff.1 hcircle
    exact ⟨s', hstep.congr hhop, hs'⟩
  · exact ⟨s', hstep, hs'⟩

theorem Finds.circular_cases {start : RecordId × String} {visited : List RecordId} {r : RecordId} {name : String}
    {result : Except GraphError FindTarget} (h : g.Finds accept visited r name result)
    (hresult : result = .ok .circular)
    (hstart : Relation.ReflTransGen (g.SeekStep accept) start (r, name))
    (hvisited : ∀ v ∈ visited, ∃ m, Relation.ReflTransGen (g.SeekStep accept) start (v, m) ∧
      Relation.ReflTransGen (g.SeekStep accept) (v, m) (r, name))
    : (∀ result, ¬ g.Seeks accept start.1 start.2 result) ∨ g.Forwards accept start := by
  induction h with
  | @circular visited r name first rest site d hhop haccept hpath hd hseen =>
    have hstep := SeekStep.of_hop hhop haccept hpath hd
    obtain ⟨m, hm, hback⟩ : ∃ m, Relation.ReflTransGen (g.SeekStep accept) start (g.exports.lookup d first, m) ∧
        Relation.ReflTransGen (g.SeekStep accept) (g.exports.lookup d first, m) (r, name) := by
      rcases List.mem_cons.1 hseen with hsame | hold
      · rw [hsame]
        exact ⟨name, hstart, .refl⟩
      · exact hvisited _ hold
    have hcircle := Relation.TransGen.tail' hback hstep
    by_cases hsame : g.hop? (g.exports.lookup d first) m = g.hop? (g.exports.lookup d first) first
    · exact .inl (not_seeks_of_circle hcircle hsame (hstart.tail hstep))
    · exact .inr ⟨_, m, first, hm, hcircle, hsame⟩
  | @next visited r name first rest site d result hhop haccept hpath hd _ _ ih =>
    have hstep := SeekStep.of_hop hhop haccept hpath hd
    apply ih
    · cases result with
      | error e => cases hresult
      | ok t =>
        cases t with
        | circular => rfl
        | _ => cases hresult
    · exact hstart.tail hstep
    · intro v hv
      rcases List.mem_cons.1 hv with rfl | hold
      · exact ⟨name, hstart, .single hstep⟩
      · obtain ⟨m, hm, hback⟩ := hvisited v hold
        exact ⟨m, hm, hback.tail hstep⟩
  | _ => cases hresult

theorem Finds.eq_circular_of_visited {visited : List RecordId} {r : RecordId} {name : String}
    {result : Except GraphError FindTarget} (h : g.Finds accept visited r name result) (hnew : r ∉ visited)
    {v : RecordId} {m : String} (hv : v ∈ visited) (hsteps : Relation.ReflTransGen (g.SeekStep accept) (r, name) (v, m))
    : result = .ok .circular := by
  induction h with (obtain ⟨s, hstep, hrest⟩ := SeekStep.of_steps hnew hv hsteps)
  | noTarget hhop => exact absurd hhop hstep.hop?_ne_none
  | found hhop haccept => cases haccept.symm.trans (hstep.accept_eq_false hhop)
  | whole hhop _ hpath => exact absurd hpath (hstep.path_ne_nil hhop)
  | unknown hhop _ _ hd => exact absurd hd (hstep.descriptorOf_ne_error hhop)
  | circular => rfl
  | @next visited r name first rest site d result hhop haccept hpath hd hunseen _ ih =>
    cases hstep.unique (.of_hop hhop haccept hpath hd)
    rw [ih hunseen (List.mem_cons_of_mem r hv) hrest]
    rfl

theorem Finds.eq_circular {visited : List RecordId} {r : RecordId} {name : String}
    {result : Except GraphError FindTarget} (h : g.Finds accept visited r name result)
    {v : RecordId} {m m' : String} (hsteps : Relation.ReflTransGen (g.SeekStep accept) (r, name) (v, m))
    (hcircle : Relation.TransGen (g.SeekStep accept) (v, m) (v, m')) : result = .ok .circular := by
  induction h with
    (obtain ⟨s, hstep, -⟩ := Relation.TransGen.head'_iff.1 (Relation.TransGen.trans_right hsteps hcircle))
  | noTarget hhop => exact absurd hhop hstep.hop?_ne_none
  | found hhop haccept => cases haccept.symm.trans (hstep.accept_eq_false hhop)
  | whole hhop _ hpath => exact absurd hpath (hstep.path_ne_nil hhop)
  | unknown hhop _ _ hd => exact absurd hd (hstep.descriptorOf_ne_error hhop)
  | circular => rfl
  | @next visited r name first rest site d result hhop haccept hpath hd hunseen hfinds ih =>
    have hnext := SeekStep.of_hop hhop haccept hpath hd
    rcases hsteps.cases_head with heq | ⟨s', hstep', hrest⟩
    · cases heq
      obtain ⟨s', hstep', hback⟩ := Relation.TransGen.head'_iff.1 hcircle
      cases hstep'.unique hnext
      rw [hfinds.eq_circular_of_visited hunseen List.mem_cons_self hback]
      rfl
    · cases hstep'.unique hnext
      rw [ih hrest]
      rfl

end ModuleLink.Graph
