import Mathlib.Data.Set.Finite.List
import ModuleLink.Proofs.Graph.Hops
import ModuleLink.Proofs.Graph.Search

/-!
This module contains the proof of when a search reports a circle. It does so where its way comes back to an export that
it has met, and also where one catch-all record passes on two different names: records are what the guard remembers, and
such a record stands for any number of exports. Without the guard, only the former goes on for ever.
-/

namespace ModuleLink

theorem ExportRecord.maxTargets_of_leading {r : ExportRecord} {t : ExportTarget} (h : r.Leading t)
    : r.maxTargets.head? = some t := by
  obtain ⟨before, after, hvalues, hbefore, hafter⟩ := h
  rw [maxTargets, List.head?_filter, List.find?_eq_some_iff_append]
  refine ⟨?_, before, after, hvalues, ?_⟩
  · simp only [List.all_eq_true, decide_eq_true_eq, hvalues, List.forall_mem_append, List.forall_mem_cons]
    exact ⟨fun u hu => Int.le_of_lt (hbefore u hu), Int.le_refl _, hafter⟩
  · intro u hu
    simp only [Bool.not_eq_eq_eq_not, Bool.not_true, List.all_eq_false, decide_eq_true_eq, Int.not_le]
    refine ⟨t, ?_, hbefore u hu⟩
    rw [hvalues]
    exact List.mem_append_right before List.mem_cons_self

namespace Graph

def Onward (g : Graph) (accept : ModuleId → Bool) (x y : ModuleId × String) : Prop :=
  ∃ site rest, g.Hop x.1 x.2 site ∧ accept site.module = false ∧ site.module = y.1 ∧ site.path = some (y.2 :: rest)

/--
The way of the search, taken without a guard, comes back to an export that it has met.
-/
def Loops (g : Graph) (accept : ModuleId → Bool) (x : ModuleId × String) : Prop :=
  ∃ y, Relation.ReflTransGen (g.Onward accept) x y ∧ Relation.TransGen (g.Onward accept) y y

/--
Two exports of different names fall under one catch-all record, which passes on the name that it is asked for.
-/
structure ShareRelay (g : Graph) (x y : ModuleId × String) : Prop where
  names : x.2 ≠ y.2
  relay : ∃ d e t, g.descriptorOf x.1 = .ok d ∧ g.descriptorOf y.1 = .ok e ∧
    g.exports.find? d x.2 = none ∧ g.exports.find? e y.2 = none ∧ g.exports.other e = g.exports.other d ∧
    (g.exports.record (g.exports.other d)).Leading t ∧ t.path = none

/--
The way of the search leads over two exports of different names that one catch-all record passes on.
-/
def Relays (g : Graph) (accept : ModuleId → Bool) (x : ModuleId × String) : Prop :=
  ∃ y z, Relation.ReflTransGen (g.Onward accept) x y ∧ Relation.TransGen (g.Onward accept) y z ∧ g.ShareRelay y z

def At (g : Graph) (x : ModuleId × String) (s : RecordId × String) : Prop :=
  ∃ d, g.descriptorOf x.1 = .ok d ∧ s = (g.exports.lookup d x.2, x.2)

variable {g : Graph} {accept : ModuleId → Bool} {id : ModuleId} {name : String} {site : TargetSite}
  {x y z : ModuleId × String} {s s' : RecordId × String}

theorem hop?_eq (g : Graph) (r : RecordId) (requested : String)
    : g.hop? r requested
        =
      (g.exports.record r).maxTargets.head?.bind fun t => (g.connection? t.connection).map fun c =>
        ⟨c.target, t.path.or (if (g.exports.record r).name.isNone then some [requested] else none), c.deferred⟩ := by
  unfold hop?
  dsimp only
  cases (g.exports.record r).maxTargets.head? with
  | none => rfl
  | some t =>
    dsimp only [Option.bind_eq_bind, Option.bind_some]
    cases g.connection? t.connection with
    | none => rfl
    | some c => cases t.path <;> cases (g.exports.record r).name <;> rfl

theorem hop_iff (h : g.Sound)
    : g.Hop id name site
        ↔
      ∃ d, g.descriptorOf id = .ok d ∧ g.hop? (g.exports.lookup d name) name = some site := by
  constructor
  · intro hhop
    cases hhop with
    | @named d r t c hd hfind ht hc =>
      refine ⟨d, hd, ?_⟩
      rw [Arena.lookup, hfind, Option.getD_some, hop?_eq, ExportRecord.maxTargets_of_leading ht, Option.bind_some, hc,
        h.arena.named.name_find? hfind]
      cases t.path <;> rfl
    | @catchAll d t c hd hfind ht hc =>
      refine ⟨d, hd, ?_⟩
      rw [Arena.lookup, hfind, Option.getD_none, hop?_eq, ExportRecord.maxTargets_of_leading ht, Option.bind_some, hc,
        h.arena.name_other (h.descriptorOf_lt hd)]
      cases t.path <;> rfl
  · rintro ⟨d, hd, hhop⟩
    exact hop_of_hop? h hd hhop

section Walk

theorem At.unique (hs : g.At x s) (hs' : g.At x s') : s = s' := by
  obtain ⟨d, hd, rfl⟩ := hs
  obtain ⟨d', hd', rfl⟩ := hs'
  cases hd.symm.trans hd'
  rfl

theorem Onward.exists_at (h : g.Onward accept x y) (hg : g.Sound) : ∃ s, g.At x s := by
  obtain ⟨site, rest, hhop, -⟩ := h
  obtain ⟨d, hd, -⟩ := (hop_iff hg).1 hhop
  exact ⟨_, d, hd, rfl⟩

theorem Onward.seekStep (h : g.Onward accept x y) (hg : g.Sound) (hs : g.At x s) (hs' : g.At y s')
    : g.SeekStep accept s s' := by
  obtain ⟨site, rest, hhop, haccept, hmodule, hpath⟩ := h
  obtain ⟨d, hd, hhop⟩ := (hop_iff hg).1 hhop
  obtain rfl := hs.unique ⟨d, hd, rfl⟩
  obtain ⟨e, he, rfl⟩ := hs'
  rw [← hmodule] at he
  exact .of_hop hhop haccept hpath he

theorem SeekStep.onward (h : g.SeekStep accept s s') (hg : g.Sound) (hs : g.At x s)
    : ∃ y, g.Onward accept x y ∧ g.At y s' := by
  obtain ⟨d, hd, rfl⟩ := hs
  obtain ⟨site, rest, e, hhop, haccept, hpath, he, hlookup⟩ := h.hop
  exact ⟨(site.module, s'.2), ⟨site, rest, (hop_iff hg).2 ⟨d, hd, hhop⟩, haccept, rfl, hpath⟩, e, he,
    Prod.ext hlookup rfl⟩

-- Only the last export of a way may be of a module that the graph does not have.
theorem seekSteps_of_onward (hg : g.Sound) (hs : g.At x s) (hs' : g.At y s')
    (h : Relation.ReflTransGen (g.Onward accept) x y) : Relation.ReflTransGen (g.SeekStep accept) s s' := by
  induction h generalizing s' with
  | refl =>
    obtain rfl := hs.unique hs'
    exact .refl
  | tail _ hstep ih =>
    obtain ⟨t, ht⟩ := hstep.exists_at hg
    exact (ih ht).tail (hstep.seekStep hg ht hs')

theorem onward_of_seekSteps (hg : g.Sound) (hs : g.At x s) (h : Relation.ReflTransGen (g.SeekStep accept) s s')
    : ∃ y, Relation.ReflTransGen (g.Onward accept) x y ∧ g.At y s' := by
  induction h with
  | refl => exact ⟨x, .refl, hs⟩
  | tail _ hstep ih =>
    obtain ⟨y, hsteps, hy⟩ := ih
    obtain ⟨z, hstep, hz⟩ := hstep.onward hg hy
    exact ⟨z, hsteps.tail hstep, hz⟩

theorem seekCircle_of_onward (hg : g.Sound) (hs : g.At x s) (hs' : g.At y s')
    (h : Relation.TransGen (g.Onward accept) x y) : Relation.TransGen (g.SeekStep accept) s s' := by
  obtain ⟨z, hsteps, hstep⟩ := Relation.TransGen.tail'_iff.1 h
  obtain ⟨t, ht⟩ := hstep.exists_at hg
  exact .tail' (seekSteps_of_onward hg hs ht hsteps) (hstep.seekStep hg ht hs')

theorem onward_of_seekCircle (hg : g.Sound) (hs : g.At x s) (h : Relation.TransGen (g.SeekStep accept) s s')
    : ∃ y, Relation.TransGen (g.Onward accept) x y ∧ g.At y s' := by
  obtain ⟨t, hstep, hsteps⟩ := Relation.TransGen.head'_iff.1 h
  obtain ⟨z, hstep, hz⟩ := hstep.onward hg hs
  obtain ⟨y, hsteps, hy⟩ := onward_of_seekSteps hg hz hsteps
  exact ⟨y, .head' hstep hsteps, hy⟩

theorem exists_at_of_onward (hg : g.Sound) (h : Relation.TransGen (g.Onward accept) x y) : ∃ s, g.At x s := by
  obtain ⟨z, hstep, -⟩ := Relation.TransGen.head'_iff.1 h
  exact hstep.exists_at hg

end Walk

section Ends

/--
The exports that a search may come to: those of targets of connections, under names that occur somewhere.
-/
theorem onward_mem (hg : g.Sound) (h : Relation.ReflTransGen (g.Onward accept) x y)
    : y ∈ x :: (g.connections.toList.filterMap (·.map (·.target))).product (x.2 :: g.exports.targetNames) := by
  suffices hnames : y.2 ∈ x.2 :: g.exports.targetNames ∧
      (y = x ∨ y.1 ∈ g.connections.toList.filterMap (·.map (·.target))) by
    obtain ⟨hname, rfl | htarget⟩ := hnames
    · exact List.mem_cons_self
    · exact List.mem_cons_of_mem x (List.mem_product.2 ⟨htarget, hname⟩)
  induction h with
  | refl => exact ⟨List.mem_cons_self, .inl rfl⟩
  | tail _ hstep ih =>
    obtain ⟨site, rest, hhop, -, hmodule, hpath⟩ := hstep
    obtain ⟨d, -, hhop⟩ := (hop_iff hg).1 hhop
    obtain ⟨target, connection, -, hconnection, htarget, -⟩ := hop?_eq_some hhop
    refine ⟨?_, .inr ?_⟩
    · rcases mem_path_of_hop? hhop (by rw [hpath]; exact List.mem_cons_self) with hsame | hold
      · rw [hsame]
        exact ih.1
      · exact List.mem_cons_of_mem _ hold
    · rw [← hmodule, htarget]
      rw [connection?, Option.join_eq_some_iff] at hconnection
      exact List.mem_filterMap.2 ⟨_, Array.mem_toList_iff.2 (Array.mem_of_getElem? hconnection), rfl⟩

theorem exists_seeks (hg : g.Sound) (hloops : ¬ g.Loops accept x) (hs : g.At x s)
    : ∃ result, g.Seeks accept s.1 s.2 result := by
  -- There are only so many exports that a search may come to.
  let Way := {y // Relation.ReflTransGen (g.Onward accept) x y}
  have : Finite Way := (List.finite_toSet _).subset fun y hy => onward_mem hg hy
  let After : Way → Way → Prop := fun y z => Relation.TransGen (g.Onward accept) z.1 y.1
  have : IsTrans Way After := ⟨fun _ _ _ hab hbc => hbc.trans hab⟩
  have : Std.Irrefl After := ⟨fun y hy => hloops ⟨y.1, y.2, hy⟩⟩
  have hafter : WellFounded After := Finite.wellFounded_of_trans_of_irrefl After
  suffices hall : ∀ (y : Way) (s : RecordId × String), g.At y.1 s → ∃ result, g.Seeks accept s.1 s.2 result from
    hall ⟨x, .refl⟩ s hs
  intro y
  induction y using hafter.induction with
  | _ y ih =>
    rintro _ ⟨d, hd, rfl⟩
    cases hhop : g.hop? (g.exports.lookup d y.1.2) y.1.2 with
    | none => exact ⟨_, .noTarget hhop⟩
    | some site =>
      cases haccept : accept site.module with
      | true => exact ⟨_, .found hhop haccept⟩
      | false =>
        cases hpath : site.path.getD [] with
        | nil => exact ⟨_, .whole hhop haccept hpath⟩
        | cons first rest =>
          have hpath : site.path = some (first :: rest) := by
            cases hsite : site.path with
            | none =>
              rw [hsite] at hpath
              cases hpath
            | some path =>
              rw [hsite] at hpath
              exact congrArg some hpath
          cases he : g.descriptorOf site.module with
          | error e => exact ⟨_, .unknown hhop haccept hpath he⟩
          | ok e =>
            have hstep : g.Onward accept y.1 (site.module, first) :=
              ⟨site, rest, (hop_iff hg).2 ⟨d, hd, hhop⟩, haccept, rfl, hpath⟩
            obtain ⟨result, hresult⟩ := ih ⟨_, y.2.tail hstep⟩ (.single hstep) _ ⟨e, he, rfl⟩
            exact ⟨_, .next hhop haccept hpath he hresult⟩

theorem loops_iff (hg : g.Sound) (hs : g.At x s)
    : g.Loops accept x ↔ ∀ result, ¬ g.Seeks accept s.1 s.2 result := by
  constructor
  · rintro ⟨y, hsteps, hcircle⟩
    obtain ⟨t, ht⟩ := exists_at_of_onward hg hcircle
    exact not_seeks_of_circle (seekCircle_of_onward hg ht ht hcircle) rfl (seekSteps_of_onward hg hs ht hsteps)
  · intro hnone
    by_contra hloops
    obtain ⟨result, hresult⟩ := exists_seeks hg hloops hs
    exact hnone result hresult

end Ends

section Circular

theorem shareRelay_of_hop? (hg : g.Sound) (hs : g.At x s) (hs' : g.At y s') (hrecord : s'.1 = s.1)
    (hhop : g.hop? s.1 s.2 ≠ g.hop? s'.1 s'.2) : g.ShareRelay x y := by
  obtain ⟨d, hd, rfl⟩ := hs
  obtain ⟨e, he, rfl⟩ := hs'
  dsimp only at hrecord hhop
  have hnames : x.2 ≠ y.2 := by
    intro hname
    apply hhop
    rw [hrecord, hname]
  rw [hrecord] at hhop
  have hother := hg.arena.name_other (hg.descriptorOf_lt hd)
  have hother' := hg.arena.name_other (hg.descriptorOf_lt he)
  -- A record that is listed has the name that it is asked for, and a catch-all record has none.
  cases hfind : g.exports.find? d x.2 with
  | some r =>
    have hname := hg.arena.named.name_find? hfind
    rw [Arena.lookup, Arena.lookup, hfind, Option.getD_some] at hrecord
    cases hfind' : g.exports.find? e y.2 with
    | some r' =>
      rw [hfind', Option.getD_some] at hrecord
      rw [← hrecord, hg.arena.named.name_find? hfind', Option.some.injEq] at hname
      exact absurd hname.symm hnames
    | none =>
      rw [hfind', Option.getD_none] at hrecord
      rw [← hrecord, hother'] at hname
      cases hname
  | none =>
    rw [Arena.lookup, Arena.lookup, hfind, Option.getD_none] at hrecord
    cases hfind' : g.exports.find? e y.2 with
    | some r' =>
      rw [hfind', Option.getD_some] at hrecord
      have hname' := hg.arena.named.name_find? hfind'
      rw [hrecord, hother] at hname'
      cases hname'
    | none =>
      rw [hfind', Option.getD_none] at hrecord
      rw [Arena.lookup, hfind, Option.getD_none] at hhop
      rw [hop?_eq, hop?_eq] at hhop
      cases ht : (g.exports.record (g.exports.other d)).maxTargets.head? with
      | none =>
        rw [ht] at hhop
        exact absurd rfl hhop
      | some t =>
        refine ⟨hnames, d, e, t, hd, he, hfind, hfind', hrecord, ExportRecord.leading_of_maxTargets ht, ?_⟩
        cases hpath : t.path with
        | none => rfl
        | some path =>
          simp only [ht, Option.bind_some, hpath, Option.some_or] at hhop
          exact absurd rfl hhop

theorem ShareRelay.record_eq (h : g.ShareRelay x y) (hs : g.At x s) (hs' : g.At y s') : s'.1 = s.1 := by
  obtain ⟨d, e, -, hd, he, hfind, hfind', hother, -⟩ := h.relay
  obtain rfl := hs.unique ⟨d, hd, rfl⟩
  obtain rfl := hs'.unique ⟨e, he, rfl⟩
  simpa only [Arena.lookup, hfind, hfind', Option.getD_none] using hother

theorem relays_of_forwards (hg : g.Sound) (hs : g.At x s) (h : g.Forwards accept s) : g.Relays accept x := by
  obtain ⟨r, name, name', hsteps, hcircle, hhop⟩ := h
  obtain ⟨y, hsteps, hy⟩ := onward_of_seekSteps hg hs hsteps
  obtain ⟨z, hcircle, hz⟩ := onward_of_seekCircle hg hy hcircle
  exact ⟨y, z, hsteps, hcircle, shareRelay_of_hop? hg hy hz rfl hhop⟩

theorem Finds.eq_circular_of_onward {r : RecordId} {result : Except GraphError FindTarget}
    (h : g.Finds accept [] r x.2 result) (hg : g.Sound) (hs : g.At x (r, x.2))
    (hloops : g.Loops accept x ∨ g.Relays accept x) : result = .ok .circular := by
  obtain ⟨y, z, t, t', hsteps, hcircle, ht, ht', hsame⟩ : ∃ y z t t',
      Relation.ReflTransGen (g.Onward accept) x y ∧ Relation.TransGen (g.Onward accept) y z ∧
      g.At y t ∧ g.At z t' ∧ t'.1 = t.1 := by
    rcases hloops with ⟨y, hsteps, hcircle⟩ | ⟨y, z, hsteps, hcircle, hshare⟩
    · obtain ⟨t, ht⟩ := exists_at_of_onward hg hcircle
      exact ⟨y, y, t, t, hsteps, hcircle, ht, ht, rfl⟩
    · obtain ⟨d, e, -, hd, he, -⟩ := hshare.relay
      have ht : g.At y _ := ⟨d, hd, rfl⟩
      have ht' : g.At z _ := ⟨e, he, rfl⟩
      exact ⟨y, z, _, _, hsteps, hcircle, ht, ht', hshare.record_eq ht ht'⟩
  have hcircle := seekCircle_of_onward hg ht ht' hcircle
  rw [← Prod.mk.eta (p := t), ← Prod.mk.eta (p := t'), hsame] at hcircle
  exact h.eq_circular (seekSteps_of_onward hg hs ht hsteps) hcircle

/--
A search reports a circle exactly if its way comes back to an export that it has met, or leads over exports of different
names that one catch-all record passes on. Without its guard it would go on for ever in the former case only; if neither
is the case, the guard makes no difference.
-/
theorem findTarget_circular_iff (h : g.Reachable) (id : ModuleId) (name : String) (accept : ModuleId → Bool)
    : (g.findTarget id name accept = .ok .circular ↔ g.Loops accept (id, name) ∨ g.Relays accept (id, name)) ∧
      ∀ d, g.descriptorOf id = .ok d →
        (g.Loops accept (id, name) ↔ ∀ result, ¬ g.Seeks accept (g.exports.lookup d name) name result) ∧
        (¬ g.Loops accept (id, name) → ¬ g.Relays accept (id, name) →
          g.Seeks accept (g.exports.lookup d name) name (g.findTarget id name accept)) := by
  have hg := h.sound
  have hcircular : g.findTarget id name accept = .ok .circular
      ↔ g.Loops accept (id, name) ∨ g.Relays accept (id, name) := by
    cases hd : g.descriptorOf id with
    | error e =>
      have hnone : ∀ s, ¬ g.At (id, name) s := by
        rintro s ⟨d, hd', -⟩
        cases hd.symm.trans hd'
      constructor
      · intro hresult
        rw [findTarget, hd] at hresult
        cases hresult
      · rintro (⟨y, hsteps, hcircle⟩ | ⟨y, z, hsteps, hcircle, -⟩)
        all_goals
          obtain ⟨s, hs⟩ := exists_at_of_onward hg (hcircle.trans_right hsteps)
          exact absurd hs (hnone s)
    | ok d =>
      have hfinds := findTarget_finds hd name accept
      have hat : g.At (id, name) (g.exports.lookup d name, name) := ⟨d, hd, rfl⟩
      constructor
      · intro hresult
        rcases hfinds.circular_cases hresult .refl (List.forall_mem_nil _) with hnone | hforwards
        · exact .inl ((loops_iff hg hat).2 hnone)
        · exact .inr (relays_of_forwards hg hat hforwards)
      · exact Finds.eq_circular_of_onward (x := (id, name)) hfinds hg hat
  refine ⟨hcircular, fun d hd => ⟨loops_iff hg ⟨d, hd, rfl⟩, ?_⟩⟩
  intro hloops hrelays
  apply (findTarget_finds hd name accept).seeks
  intro hresult
  exact (hcircular.1 hresult).elim hloops hrelays

end Circular

end Graph

namespace Sample

def lobby : ModuleId := ⟨"./lobby"⟩
def desk : ModuleId := ⟨"./desk"⟩
def attic : ModuleId := ⟨"./attic"⟩

/--
The lobby re-exports all from the desk, which in turn re-exports `x` and `w` from the lobby, the former under the name
`y`; the desk has `y` from the attic.
-/
def relaying : List GraphOp := [
  .addModule { id := lobby }, .addModule { id := desk }, .addModule { id := attic },
  .addDependency (some lobby) { request := "./desk" }, .connect (some lobby) ⟨0⟩ desk,
  .exports (.markUnknownProvided ⟨0⟩ true [] (some ⟨⟨0⟩, ⟨0⟩, 0⟩)),
  .addDependency (some desk) { request := "./lobby" }, .connect (some desk) ⟨1⟩ lobby,
  .setExportTarget desk "x" ⟨1⟩ (some ["y"]) 0, .setExportTarget desk "w" ⟨1⟩ (some ["w"]) 0,
  .addDependency (some desk) { request := "./attic" }, .connect (some desk) ⟨2⟩ attic,
  .setExportTarget desk "y" ⟨2⟩ (some ["z"]) 0]

def relayed : Graph := relaying.foldl GraphOp.apply {}

theorem relayed_reachable : relayed.Reachable := by
  simp only [relayed, relaying, List.foldl_cons, List.foldl_nil]
  iterate 7 refine .step _ ?_ trivial
  refine .step _ ?_ ⟨by decide, by decide⟩
  iterate 5 refine .step _ ?_ trivial
  exact .empty

theorem relayed_lobby : relayed.descriptorOf lobby = .ok ⟨0⟩ := by decide

theorem relayed_desk : relayed.descriptorOf desk = .ok ⟨1⟩ := by decide

theorem seeks_relayed {name : String} {result : Except GraphError FindTarget}
    (hhop : relayed.hop? (relayed.exports.lookup ⟨0⟩ name) name = some ⟨desk, some [name], false⟩)
    (h : relayed.Seeks (· == attic) (relayed.exports.lookup ⟨1⟩ name) name result)
    : relayed.Seeks (· == attic) (relayed.exports.lookup ⟨0⟩ name) name (result.map (·.through [] false)) := by
  have haccept : (desk == attic) = false := by decide
  exact .next hhop haccept rfl relayed_desk h

theorem loops_relayed : relayed.Loops (· == attic) (lobby, "w") := by
  have hlobby : relayed.Onward (· == attic) (lobby, "w") (desk, "w") :=
    ⟨⟨desk, some ["w"], false⟩, [], (Graph.hop_iff relayed_reachable.sound).2 ⟨⟨0⟩, relayed_lobby, by decide⟩,
      by decide, rfl, rfl⟩
  have hdesk : relayed.Onward (· == attic) (desk, "w") (lobby, "w") :=
    ⟨⟨lobby, some ["w"], false⟩, [], (Graph.hop_iff relayed_reachable.sound).2 ⟨⟨1⟩, relayed_desk, by decide⟩,
      by decide, rfl, rfl⟩
  exact ⟨_, .refl, .head hlobby (.single hdesk)⟩

end Sample

namespace Graph

open Sample

theorem findTarget_circular_iff_sample
    : relayed.Reachable ∧ relayed.descriptorOf lobby = .ok ⟨0⟩
        ∧
      relayed.Loops (· == attic) (lobby, "w") ∧ relayed.findTarget lobby "w" (· == attic) = .ok .circular
        ∧
      (∀ result, ¬ relayed.Seeks (· == attic) (relayed.exports.lookup ⟨0⟩ "w") "w" result)
        ∧
      relayed.findTarget lobby "y" (· == attic) = .ok (.found ⟨attic, some ["z"], false⟩)
        ∧
      relayed.Seeks (· == attic) (relayed.exports.lookup ⟨0⟩ "y") "y" (.ok (.found ⟨attic, some ["z"], false⟩)) := by
  have ⟨hw, hwEnds⟩ := findTarget_circular_iff relayed_reachable lobby "w" (· == attic)
  have ⟨hy, hyEnds⟩ := findTarget_circular_iff relayed_reachable lobby "y" (· == attic)
  have hfound : relayed.findTarget lobby "y" (· == attic) = .ok (.found ⟨attic, some ["z"], false⟩) := by
    decide
  rw [hfound] at hy hyEnds
  have ⟨hloops, hrelays⟩ := not_or.1 fun hcircle => nomatch hy.2 hcircle
  exact ⟨relayed_reachable, relayed_lobby, loops_relayed, hw.2 (.inl loops_relayed),
    (hwEnds ⟨0⟩ relayed_lobby).1.1 loops_relayed, hfound, (hyEnds ⟨0⟩ relayed_lobby).2 hloops hrelays⟩

/--
The lobby is asked for `x` and then for `y`, which is no loop and leads to the attic, but is taken for a circle.
-/
theorem findTarget_blames_relay
    : relayed.Reachable ∧ relayed.findTarget lobby "x" (· == attic) = .ok .circular
        ∧
      ¬ relayed.Loops (· == attic) (lobby, "x")
        ∧
      relayed.Seeks (· == attic) (relayed.exports.lookup ⟨0⟩ "x") "x" (.ok (.found ⟨attic, some ["z"], false⟩)) := by
  have hattic : relayed.Seeks (· == attic) (relayed.exports.lookup ⟨1⟩ "y") "y"
      (.ok (.found ⟨attic, some ["z"], false⟩)) :=
    .found (by decide) (by decide)
  have hlobby := seeks_relayed (by decide) hattic
  have hhop : relayed.hop? (relayed.exports.lookup ⟨1⟩ "x") "x" = some ⟨lobby, some ["y"], false⟩ := by decide
  have hdesk : relayed.Seeks (· == attic) (relayed.exports.lookup ⟨1⟩ "x") "x"
      (.ok (.found ⟨attic, some ["z"], false⟩)) :=
    .next hhop (by decide) rfl relayed_lobby hlobby
  have hseeks := seeks_relayed (by decide) hdesk
  refine ⟨relayed_reachable, by decide, ?_, hseeks⟩
  intro hloops
  exact (loops_iff relayed_reachable.sound ⟨⟨0⟩, relayed_lobby, rfl⟩).1 hloops _ hseeks

end Graph
end ModuleLink
