import ModuleLink.Proofs.Graph.Edges
import ModuleLink.Proofs.Graph.Target

/-!
This module contains the proof that the search for the origin of a re-exported binding follows the targets of the
records on its way: what it finds is the end of a chain of hops, each for the first segment of the path that the one
before led to.
-/

namespace ModuleLink

def ExportRecord.Leading (r : ExportRecord) (t : ExportTarget) : Prop :=
  ∃ before after, r.targets.values = before ++ t :: after ∧ (∀ u ∈ before, u.priority < t.priority) ∧
    ∀ u ∈ after, u.priority ≤ t.priority

theorem ExportRecord.leading_of_maxTargets {r : ExportRecord} {t : ExportTarget} (h : r.maxTargets.head? = some t)
    : r.Leading t := by
  rw [maxTargets, List.head?_filter, List.find?_eq_some_iff_append] at h
  obtain ⟨hmax, before, after, hvalues, hbefore⟩ := h
  simp only [List.all_eq_true, decide_eq_true_eq] at hmax
  refine ⟨before, after, hvalues, ?_, ?_⟩
  · intro u hu
    have hnot := hbefore u hu
    simp only [Bool.not_eq_eq_eq_not, Bool.not_true, List.all_eq_false, decide_eq_true_eq] at hnot
    obtain ⟨v, hv, hlt⟩ := hnot
    exact Int.lt_of_lt_of_le (Int.not_le.1 hlt) (hmax v hv)
  · intro u hu
    apply hmax
    rw [hvalues]
    exact List.mem_append_right before (List.mem_cons_of_mem t hu)

def joinPath (path : Option (List String)) : List String → Option (List String)
  | [] => path
  | first :: rest => some (path.getD [] ++ first :: rest)

theorem joinPath_append (path : Option (List String)) (segments rest : List String)
    : joinPath (joinPath path segments) rest = joinPath path (segments ++ rest) := by
  cases segments with
  | nil => rfl
  | cons first segments =>
    cases rest with
    | nil =>
      rw [List.append_nil]
      rfl
    | cons next rest => simp [joinPath]

theorem TargetSite.extend_eq (site : TargetSite) (rest : List String) (deferred : Bool)
    : site.extend rest deferred = ⟨site.module, joinPath site.path rest, deferred && site.deferred⟩ := by
  cases rest with
  | nil => rfl
  | cons first rest => rfl

namespace Graph

variable {g : Graph} {accept : ModuleId → Bool} {id : ModuleId} {name : String} {site : TargetSite}

/--
A step from an export of a module to where the record that is in force for it leads.
-/
inductive Hop (g : Graph) (id : ModuleId) (name : String) : TargetSite → Prop where
  | named {d : DescriptorId} {r : RecordId} {t : ExportTarget} {c : Connection} :
      g.descriptorOf id = .ok d → g.exports.find? d name = some r → (g.exports.record r).Leading t →
      g.connection? t.connection = some c → g.Hop id name ⟨c.target, t.path, c.deferred⟩
  | catchAll {d : DescriptorId} {t : ExportTarget} {c : Connection} :
      g.descriptorOf id = .ok d → g.exports.find? d name = none → (g.exports.record (g.exports.other d)).Leading t →
      g.connection? t.connection = some c → g.Hop id name ⟨c.target, some (t.path.getD [name]), c.deferred⟩

/--
A chain of hops from an export of a module, of which only the last may lead to an accepted one.
-/
inductive Hops (g : Graph) (accept : ModuleId → Bool) (id : ModuleId) (name : String) : TargetSite → Prop where
  | first {site : TargetSite} : g.Hop id name site → g.Hops accept id name site
  | next {site inner : TargetSite} {first : String} {rest : List String} :
      g.Hops accept id name site → accept site.module = false → site.path = some (first :: rest) →
      g.Hop site.module first inner →
      g.Hops accept id name ⟨inner.module, joinPath inner.path rest, site.deferred && inner.deferred⟩

theorem hop_of_hop? (h : g.Sound) {d : DescriptorId} (hd : g.descriptorOf id = .ok d)
    (hhop : g.hop? (g.exports.lookup d name) name = some site) : g.Hop id name site := by
  unfold hop? at hhop
  simp only [Option.bind_eq_bind, Option.bind_eq_some_iff] at hhop
  obtain ⟨t, ht, c, hc, hsite⟩ := hhop
  have ht := ExportRecord.leading_of_maxTargets ht
  cases hfind : g.exports.find? d name with
  | none =>
    have hname := h.arena.name_other (h.descriptorOf_lt hd)
    simp only [Arena.lookup, hfind, Option.getD_none, hname] at ht hsite
    have hpath : site = ⟨c.target, some (t.path.getD [name]), c.deferred⟩ := by
      cases hsite
      cases t.path with
      | none => rfl
      | some path => rfl
    rw [hpath]
    exact .catchAll hd hfind ht hc
  | some r =>
    have hname := h.arena.named.name_find? hfind
    simp only [Arena.lookup, hfind, Option.getD_some, hname] at ht hsite
    have hpath : site = ⟨c.target, t.path, c.deferred⟩ := by
      cases hsite
      cases t.path with
      | none => rfl
      | some path => rfl
    rw [hpath]
    exact .named hd hfind ht hc

theorem Hops.before {first : String} {rest : List String} {inner : TargetSite} (hhop : g.Hop id name site)
    (haccept : accept site.module = false) (hpath : site.path = some (first :: rest))
    (h : g.Hops accept site.module first inner) : g.Hops accept id name (inner.extend rest site.deferred) := by
  induction h with
  | first hfirst =>
    rw [TargetSite.extend_eq]
    exact .next (.first hhop) haccept hpath hfirst
  | @next middle inner segment segments _ hmiddle hsegments hlast ih =>
    rw [TargetSite.extend_eq] at ih
    have hjoined : joinPath middle.path rest = some (segment :: (segments ++ rest)) := by
      rw [hsegments]
      cases rest with
      | nil => simp [joinPath]
      | cons next rest => simp [joinPath]
    have hnext := Hops.next ih hmiddle hjoined hlast
    rw [TargetSite.extend_eq, joinPath_append, ← Bool.and_assoc]
    exact hnext

theorem Finds.hops {visited : List RecordId} {r : RecordId} {result : Except GraphError FindTarget}
    (h : g.Finds accept visited r name result) (hg : g.Sound) {d : DescriptorId} (hd : g.descriptorOf id = .ok d)
    (hr : g.exports.lookup d name = r) (hresult : result = .ok (.found site)) : g.Hops accept id name site := by
  induction h generalizing id d site with
  | found hhop _ =>
    cases hresult
    subst hr
    exact .first (hop_of_hop? hg hd hhop)
  | next hhop haccept hpath hd' _ _ ih =>
    subst hr
    obtain ⟨inner, hinner, rfl⟩ := exists_of_through hresult
    exact .before (hop_of_hop? hg hd hhop) haccept hpath (ih hd' rfl hinner)
  | _ => cases hresult

theorem Maintained.not_dangles (h : g.Maintained) (m : ModuleId) : ¬g.Dangles m := by
  rintro ⟨hunknown, c, x, hx, rfl⟩
  exact hunknown (h.consistent.known_target hx)

/--
The search comes to an end by itself, and fails only if the module is unknown or a connection leads out of the graph. No
connection does so if the ends of connections are left to the graph. What the search finds is the end of a chain of hops
to the first accepted module; its path is that of the chain, and it is deferred if all of the hops are.
-/
theorem findTarget_sound (h : g.Reachable) (id : ModuleId) (name : String) (accept : ModuleId → Bool)
    : (¬ g.Knows id → g.findTarget id name accept = .error (.moduleNotFound id)) ∧
      (g.Knows id → ∃ d, g.descriptorOf id = .ok d ∧
        g.Finds accept [] (g.exports.lookup d name) name (g.findTarget id name accept) ∧
        ∀ e, g.findTarget id name accept = .error e → ∃ m, e = .moduleNotFound m ∧ g.Dangles m) ∧
      (g.Maintained → g.Knows id → ∃ result, g.findTarget id name accept = .ok result) ∧
      ∀ site, g.findTarget id name accept = .ok (.found site) →
        g.Hops accept id name site ∧ accept site.module = true := by
  have hg := h.sound
  have hfinds (hknown : g.Knows id) : ∃ d, g.descriptorOf id = .ok d ∧
      g.Finds accept [] (g.exports.lookup d name) name (g.findTarget id name accept) := by
    obtain ⟨d, hd⟩ := hknown.descriptorOf
    exact ⟨d, hd, findTarget_finds hd name accept⟩
  refine ⟨?_, ?_, ?_, ?_⟩
  · intro hunknown
    have hnode : g.nodes.get? id = none := Option.not_isSome_iff_eq_none.1 hunknown
    simp only [findTarget, descriptorOf, node, hnode]
    rfl
  · intro hknown
    obtain ⟨d, hd, hsearch⟩ := hfinds hknown
    exact ⟨d, hd, hsearch, fun e => hsearch.dangles_of_error⟩
  · intro hmaintained hknown
    obtain ⟨d, hd, hsearch⟩ := hfinds hknown
    cases hresult : g.findTarget id name accept with
    | ok result => exact ⟨result, rfl⟩
    | error e =>
      obtain ⟨m, -, hdangles⟩ := hsearch.dangles_of_error hresult
      exact absurd hdangles (hmaintained.not_dangles m)
  · intro site hsite
    cases hd : g.descriptorOf id with
    | error e =>
      rw [findTarget, hd] at hsite
      cases hsite
    | ok d =>
      have hsearch := findTarget_finds hd name accept
      exact ⟨hsearch.hops hg hd rfl hsite, hsearch.accept_of_found hsite⟩

end Graph

namespace Sample

def entrance : ModuleId := ⟨"./entrance"⟩
def hall : ModuleId := ⟨"./hall"⟩
def cellar : ModuleId := ⟨"./cellar"⟩
def vault : ModuleId := ⟨"./vault"⟩

/--
The entrance re-exports `x` from the cellar, but rather as `ns.inner` from the hall, which re-exports all that it does
not list from the cellar, where `ns` is the namespace of the vault.
-/
def building : List GraphOp := [
  .addModule { id := entrance }, .addModule { id := hall }, .addModule { id := cellar }, .addModule { id := vault },
  .addDependency (some entrance) { request := "./cellar" }, .connect (some entrance) ⟨0⟩ cellar,
  .setExportTarget entrance "x" ⟨0⟩ (some ["x"]) 0,
  .addDependency (some entrance) { request := "./hall", deferred := true }, .connect (some entrance) ⟨1⟩ hall,
  .setExportTarget entrance "x" ⟨1⟩ (some ["ns", "inner"]) 1,
  .addDependency (some hall) { request := "./cellar", deferred := true }, .connect (some hall) ⟨2⟩ cellar,
  .exports (.markUnknownProvided ⟨1⟩ true [] (some ⟨⟨2⟩, ⟨2⟩, 0⟩)),
  .addDependency (some cellar) { request := "./vault" }, .connect (some cellar) ⟨3⟩ vault,
  .setExportTarget cellar "ns" ⟨3⟩ none 0]

def house : Graph := building.foldl GraphOp.apply {}

theorem house_maintained : house.Maintained := by
  simp only [house, building, List.foldl_cons, List.foldl_nil]
  iterate 3 refine .step _ ?_ trivial trivial
  refine .step _ ?_ ⟨by decide +kernel, by decide +kernel⟩ trivial
  iterate 12 refine .step _ ?_ trivial trivial
  exact .empty

def roof : ModuleId := ⟨"./roof"⟩

def ruin : Graph := (GraphOp.updateConnection ⟨2⟩ ({ · with target := roof })).apply house

theorem ruin_reachable : ruin.Reachable :=
  .step _ house_maintained.reachable fun _ => id

end Sample

theorem Graph.findTarget_sound_sample
    : Sample.house.Maintained ∧ Sample.house.Knows Sample.entrance ∧
      Sample.house.findTarget Sample.entrance "x" (· == Sample.vault)
        = .ok (.found ⟨Sample.vault, some ["inner"], false⟩) ∧
      Sample.house.Hops (· == Sample.vault) Sample.entrance "x" ⟨Sample.vault, some ["inner"], false⟩ ∧
      Sample.house.findTarget Sample.entrance "x" (· == Sample.cellar)
        = .ok (.found ⟨Sample.cellar, some ["ns", "inner"], true⟩) ∧
      Sample.house.Hops (· == Sample.cellar) Sample.entrance "x" ⟨Sample.cellar, some ["ns", "inner"], true⟩ ∧
      (∃ result, Sample.house.findTarget Sample.entrance "x" (fun _ => false) = .ok result) ∧
      ¬ Sample.house.Knows Sample.roof ∧
      Sample.house.findTarget Sample.roof "x" (fun _ => true) = .error (.moduleNotFound Sample.roof) ∧
      Sample.ruin.Reachable ∧ Sample.ruin.Knows Sample.entrance ∧
      Sample.ruin.findTarget Sample.entrance "x" (· == Sample.vault) = .error (.moduleNotFound Sample.roof) ∧
      ∃ m, GraphError.moduleNotFound Sample.roof = .moduleNotFound m ∧ Sample.ruin.Dangles m := by
  have hreachable := Sample.house_maintained.reachable
  have hknows : Sample.house.Knows Sample.entrance := by
    unfold Knows
    decide +kernel
  have hunknown : ¬ Sample.house.Knows Sample.roof := by
    unfold Knows
    decide +kernel
  have hruin : Sample.ruin.Knows Sample.entrance := by
    unfold Knows
    decide +kernel
  have hvault : Sample.house.findTarget Sample.entrance "x" (· == Sample.vault)
      = .ok (.found ⟨Sample.vault, some ["inner"], false⟩) := by decide +kernel
  have hcellar : Sample.house.findTarget Sample.entrance "x" (· == Sample.cellar)
      = .ok (.found ⟨Sample.cellar, some ["ns", "inner"], true⟩) := by decide +kernel
  have hroof : Sample.ruin.findTarget Sample.entrance "x" (· == Sample.vault)
      = .error (.moduleNotFound Sample.roof) := by decide +kernel
  have ⟨_, _, _, hchain⟩ := findTarget_sound hreachable Sample.entrance "x" (· == Sample.vault)
  have ⟨_, _, _, hchain'⟩ := findTarget_sound hreachable Sample.entrance "x" (· == Sample.cellar)
  have ⟨_, _, hends, _⟩ := findTarget_sound hreachable Sample.entrance "x" (fun _ => false)
  have ⟨hfails, _, _, _⟩ := findTarget_sound hreachable Sample.roof "x" (fun _ => true)
  have ⟨_, hsearch, _, _⟩ := findTarget_sound Sample.ruin_reachable Sample.entrance "x" (· == Sample.vault)
  obtain ⟨_, _, _, herror⟩ := hsearch hruin
  exact ⟨Sample.house_maintained, hknows, hvault, (hchain _ hvault).1, hcellar, (hchain' _ hcellar).1,
    hends Sample.house_maintained hknows, hunknown, hfails hunknown, Sample.ruin_reachable, hruin, hroof,
    herror _ hroof⟩

end ModuleLink
