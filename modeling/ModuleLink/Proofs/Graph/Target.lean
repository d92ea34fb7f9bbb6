import ModuleLink.Graph.Target
import ModuleLink.Proofs.Graph.Operation

/-!
This module contains the proof that the search for the module that a re-exported binding comes from is not
cut short: it passes records that exist, and none twice. What the search finds is accepted, and its path
is made of the requested name and of segments of re-export targets.
-/

namespace ModuleLink

def FindTarget.through (rest : List String) (deferred : Bool) : FindTarget → FindTarget
  | .noTarget | .notFound => .notFound
  | .circular => .circular
  | .found inner => .found (inner.extend rest deferred)

namespace Graph

/--
A search that has passed the records `visited` and looks at one for a requested name comes to an end with the given
result, however many hops it takes.
-/
inductive Finds (g : Graph) (accept : ModuleId → Bool) :
    List RecordId → RecordId → String → Except GraphError FindTarget → Prop where
  | noTarget {visited : List RecordId} {r : RecordId} {requested : String}
      (hhop : g.hop? r requested = none) : Finds g accept visited r requested (.ok .noTarget)
  | found {visited : List RecordId} {r : RecordId} {requested : String} {site : TargetSite}
      (hhop : g.hop? r requested = some site) (haccept : accept site.module = true) :
      Finds g accept visited r requested (.ok (.found site))
  | whole {visited : List RecordId} {r : RecordId} {requested : String} {site : TargetSite}
      (hhop : g.hop? r requested = some site) (haccept : accept site.module = false)
      (hpath : site.path.getD [] = []) : Finds g accept visited r requested (.ok .notFound)
  | unknown {visited : List RecordId} {r : RecordId} {requested first : String} {rest : List String}
      {site : TargetSite} {e : GraphError}
      (hhop : g.hop? r requested = some site) (haccept : accept site.module = false)
      (hpath : site.path = some (first :: rest)) (hd : g.descriptorOf site.module = .error e) :
      Finds g accept visited r requested (.error e)
  | circular {visited : List RecordId} {r : RecordId} {requested first : String} {rest : List String}
      {site : TargetSite} {d : DescriptorId}
      (hhop : g.hop? r requested = some site) (haccept : accept site.module = false)
      (hpath : site.path = some (first :: rest)) (hd : g.descriptorOf site.module = .ok d)
      (hseen : g.exports.lookup d first ∈ r :: visited) : Finds g accept visited r requested (.ok .circular)
  | next {visited : List RecordId} {r : RecordId} {requested first : String} {rest : List String}
      {site : TargetSite} {d : DescriptorId} {result : Except GraphError FindTarget}
      (hhop : g.hop? r requested = some site) (haccept : accept site.module = false)
      (hpath : site.path = some (first :: rest)) (hd : g.descriptorOf site.module = .ok d)
      (hnew : g.exports.lookup d first ∉ r :: visited)
      (hnext : Finds g accept (r :: visited) (g.exports.lookup d first) first result) :
      Finds g accept visited r requested (result.map (·.through rest site.deferred))

variable {g : Graph} {accept : ModuleId → Bool}

theorem hop?_eq_some {r : RecordId} {requested : String} {site : TargetSite}
    (h : g.hop? r requested = some site)
    : ∃ target connection,
        target ∈ (g.exports.record r).targets.values ∧ g.connection? target.connection = some connection ∧
        site.module = connection.target ∧
        (site.path = target.path ∨ site.path = some [requested]) := by
  unfold hop? at h
  simp only [Option.bind_eq_bind, Option.bind_eq_some_iff] at h
  obtain ⟨target, htarget, connection, hconnection, hsite⟩ := h
  cases hsite
  refine ⟨target, connection, ?_, hconnection, rfl, ?_⟩
  · exact (List.mem_filter.1 (List.mem_of_head? htarget)).1
  · dsimp only
    split
    · exact .inr rfl
    · exact .inl rfl

theorem lt_of_mem_targets {a : Arena} {r : RecordId} {t : ExportTarget} (h : t ∈ (a.record r).targets.values)
    : r.index < a.records.size := by
  cases Nat.lt_or_ge r.index a.records.size with
  | inl hlt => exact hlt
  | inr hge =>
    unfold Arena.record at h
    rw [Array.getElem?_eq_none hge] at h
    contradiction

theorem lt_of_hop? {r : RecordId} {requested : String} {site : TargetSite} (h : g.hop? r requested = some site)
    : r.index < g.exports.records.size := by
  obtain ⟨_, _, htarget, _⟩ := hop?_eq_some h
  exact lt_of_mem_targets htarget

theorem follow_finds {n : Nat} {r : RecordId} {requested : String} {visited : List RecordId}
    (hnodup : (r :: visited).Nodup) (hlt : ∀ v ∈ visited, v.index < g.exports.records.size)
    (hfuel : g.exports.records.size < n + visited.length)
    : g.Finds accept visited r requested (g.follow accept n r requested visited) := by
  induction n generalizing r requested visited with
  | zero =>
    -- All records were passed, and one more.
    have := length_le_of_nodup RecordId.index_injective hnodup.of_cons hlt
    omega
  | succ n ih =>
    unfold follow
    cases hhop : g.hop? r requested with
    | none => exact .noTarget hhop
    | some site =>
      dsimp only
      split
      · next haccept => exact .found hhop haccept
      · next haccept =>
        have haccept := Bool.eq_false_iff.2 haccept
        split
        · next hpath => exact .whole hhop haccept (by rw [hpath]; rfl)
        · next hpath => exact .whole hhop haccept (by rw [hpath]; rfl)
        · next first rest hpath =>
          cases hd : g.descriptorOf site.module with
          | error e => exact .unknown hhop haccept hpath hd
          | ok d =>
            dsimp only [bind, Except.bind]
            split
            · next hseen => exact .circular hhop haccept hpath hd (List.contains_iff_mem.1 hseen)
            · next hnew =>
              have hnew : g.exports.lookup d first ∉ r :: visited := by
                intro hmem
                exact hnew (List.contains_iff_mem.2 hmem)
              have hlt' : ∀ v ∈ r :: visited, v.index < g.exports.records.size :=
                List.forall_mem_cons.2 ⟨lt_of_hop? hhop, hlt⟩
              have hfuel' : g.exports.records.size < n + (r :: visited).length := by
                rw [List.length_cons]
                omega
              have hnodup' := List.nodup_cons.2 ⟨hnew, hnodup⟩
              have hfinds := Finds.next hhop haccept hpath hd hnew (ih hnodup' hlt' hfuel')
              generalize g.follow accept n (g.exports.lookup d first) first (r :: visited) = result at hfinds
              cases result with
              | error e => exact hfinds
              | ok t => cases t <;> exact hfinds

theorem findTarget_finds {id : ModuleId} {d : DescriptorId} (hd : g.descriptorOf id = .ok d) (name : String)
    (accept : ModuleId → Bool)
    : g.Finds accept [] (g.exports.lookup d name) name (g.findTarget id name accept) := by
  unfold findTarget
  rw [hd]
  apply follow_finds
  · simp
  · simp
  · simp

theorem findTarget_of_accept {id : ModuleId} {d : DescriptorId} (hd : g.descriptorOf id = .ok d) {name : String}
    {site : TargetSite} (hhop : g.hop? (g.exports.lookup d name) name = some site)
    (haccept : accept site.module = true) : g.findTarget id name accept = .ok (.found site) := by
  unfold findTarget
  rw [hd]
  dsimp only [bind, Except.bind]
  unfold follow
  rw [hhop]
  dsimp only
  rw [if_pos haccept]

theorem mem_targetNames {a : Arena} {r : RecordId} {t : ExportTarget} (h : t ∈ (a.record r).targets.values)
    {name : String} (hname : name ∈ t.path.getD []) : name ∈ a.targetNames := by
  have hlt := lt_of_mem_targets h
  have hrecord : a.record r = a.records[r.index] := by
    unfold Arena.record
    rw [Array.getElem?_eq_getElem hlt]
    rfl
  rw [hrecord] at h
  refine List.mem_flatMap.2 ⟨a.records[r.index], ?_, ?_⟩
  · exact Array.getElem_mem_toList hlt
  · exact List.mem_flatMap.2 ⟨t, h, hname⟩

theorem mem_path_of_hop? {r : RecordId} {requested : String} {site : TargetSite}
    (h : g.hop? r requested = some site) {name : String} (hname : name ∈ site.path.getD [])
    : name = requested ∨ name ∈ g.exports.targetNames := by
  obtain ⟨target, _, htarget, _, _, hpath | hpath⟩ := hop?_eq_some h
  · rw [hpath] at hname
    exact .inr (mem_targetNames htarget hname)
  · rw [hpath] at hname
    exact .inl (List.mem_singleton.1 hname)

/--
A connection leads to the module, which the graph does not have.
-/
def Dangles (g : Graph) (m : ModuleId) : Prop := ¬g.Knows m ∧ ∃ c x, g.connection? c = some x ∧ x.target = m

namespace Finds

variable {visited : List RecordId} {r : RecordId} {requested : String} {result : Except GraphError FindTarget}

theorem exists_of_through {rest : List String} {deferred : Bool} {site : TargetSite}
    (h : result.map (·.through rest deferred) = .ok (.found site))
    : ∃ inner, result = .ok (.found inner) ∧ site = inner.extend rest deferred := by
  cases result with
  | error e => contradiction
  | ok t =>
    cases t with
    | found inner =>
      cases h
      exact ⟨inner, rfl, rfl⟩
    | _ => cases h

theorem accept_of_found (h : g.Finds accept visited r requested result) {site : TargetSite}
    (hresult : result = .ok (.found site)) : accept site.module = true := by
  induction h generalizing site with
  | found _ haccept =>
    cases hresult
    exact haccept
  | next _ _ _ _ _ _ ih =>
    obtain ⟨inner, hinner, rfl⟩ := exists_of_through hresult
    have haccept := ih hinner
    exact haccept
  | _ => cases hresult

theorem mem_path_extend {inner : TargetSite} {rest : List String} {deferred : Bool} {name : String}
    (h : name ∈ (inner.extend rest deferred).path.getD []) : name ∈ inner.path.getD [] ∨ name ∈ rest := by
  unfold TargetSite.extend at h
  dsimp only at h
  split at h
  · exact .inl h
  · exact List.mem_append.1 h

theorem mem_path (h : g.Finds accept visited r requested result) {site : TargetSite}
    (hresult : result = .ok (.found site)) {name : String} (hname : name ∈ site.path.getD [])
    : name = requested ∨ name ∈ g.exports.targetNames := by
  induction h generalizing site name with
  | found hhop _ =>
    cases hresult
    exact mem_path_of_hop? hhop hname
  | @next visited r requested first rest site' d result hhop _ hpath _ _ _ ih =>
    have hsite : ∀ name ∈ first :: rest, name = requested ∨ name ∈ g.exports.targetNames := by
      intro name hname
      apply mem_path_of_hop? hhop
      rw [hpath]
      exact hname
    obtain ⟨inner, hinner, rfl⟩ := exists_of_through hresult
    cases mem_path_extend hname with
    | inl hmem =>
      cases ih hinner hmem with
      | inl heq =>
        rw [heq]
        exact hsite first (by simp)
      | inr htarget => exact .inr htarget
    | inr hmem => exact hsite name (by simp [hmem])
  | _ => cases hresult

theorem dangles_of_error (h : g.Finds accept visited r requested result) {e : GraphError} (hresult : result = .error e)
    : ∃ m, e = .moduleNotFound m ∧ g.Dangles m := by
  induction h with
  | @unknown _ _ _ _ _ site e' hhop _ _ hd =>
    cases hresult
    obtain ⟨_, connection, _, hconnection, hmodule, _⟩ := hop?_eq_some hhop
    have hunknown : g.nodes.get? site.module = none := by
      cases hnode : g.nodes.get? site.module with
      | none => rfl
      | some n =>
        obtain ⟨d, hd'⟩ := (knows_of_node hnode).descriptorOf
        rw [hd'] at hd
        contradiction
    refine ⟨site.module, ?_, ?_, _, connection, hconnection, hmodule.symm⟩
    · simp only [descriptorOf, node, hunknown] at hd
      cases hd
      rfl
    · unfold Knows
      rw [hunknown]
      exact nofun
  | @next _ _ _ _ _ _ _ result _ _ _ _ _ _ ih =>
    cases result with
    | error e' =>
      cases hresult
      exact ih rfl
    | ok t => cases hresult
  | _ => cases hresult

end Finds

end Graph
end ModuleLink
