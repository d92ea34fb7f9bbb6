import ModuleLink.Proofs.Binding.Unguarded
import ModuleLink.Proofs.Exports.Creation
import ModuleLink.Proofs.Exports.Marking
import ModuleLink.Proofs.Exports.Spelling
import ModuleLink.Proofs.Graph.Tables

/-!
This module contains the properties that are read of a local symbol. They are those that were asked for behind the
export that the symbol holds, as they are spelled in the output, and the name of the export itself has no part in them.
That holds for an export with a name only: behind one without, the first property is lost.
-/

namespace ModuleLink

def OutputName.behind : OutputName → List String → List String
  | .virtual, ids => ids.tail
  | .kept, ids | .renamed _, ids => ids

namespace ExportRecord

theorem behind_of_outputSegment? {x : ExportRecord} {requested : String} {segment : Option String}
    (h : x.outputSegment? requested = some segment) (ids : List String)
    : (segment.toList ++ ids).drop 1 = x.outputName.behind ids := by
  unfold outputSegment? at h
  split at h
  · cases h
  · split at h <;> cases h
    · next hname =>
      rw [hname]
      exact List.drop_one
    · next hname =>
      rw [hname]
      rfl
    · next hname =>
      rw [hname]
      rfl

end ExportRecord

namespace Arena

variable {a : Arena} {d : DescriptorId} {r : RecordId} {first : String} {rest : List String}

section Respell

variable (n : OutputName)

def respell (a : Arena) (r : RecordId) (n : OutputName) : Arena := ArenaOp.apply a (.edit r (.setOutputName n))

theorem record_respell (s : RecordId) : ∃ m, (a.respell r n).record s = { a.record s with outputName := m } := by
  rcases record_modifyRecord a r (RecordEdit.setOutputName n).apply s with hsame | hnew
  · exact ⟨_, hsame⟩
  · exact ⟨n, hnew⟩

theorem Linked.lookup_respell (h : a.Linked) (d : DescriptorId) (name : String)
    : (a.respell r n).lookup d name = a.lookup d name := by
  have hsame : (a.respell r n).descriptors = a.descriptors := rfl
  rw [lookup, h.find?_of_same hsame, h.other_of_same hsame]
  rfl

theorem Linked.properties_respell (h : a.Linked) (s : RecordId) (path : List String)
    : (a.respell r n).properties s path = a.properties s path := by
  induction path generalizing s with
  | nil => rfl
  | cons name rest ih =>
    have hfollowed : (a.respell r n).followed? s = a.followed? s := by
      obtain ⟨m, hm⟩ := record_respell (a := a) (r := r) n s
      rw [followed?, hm]
      rfl
    cases hnested : a.followed? s with
    | none => rw [properties_of_followed?_eq_none hnested, properties_of_followed?_eq_none (hfollowed.trans hnested)]
    | some e =>
      rw [properties_of_followed? hnested, properties_of_followed? (hfollowed.trans hnested), h.lookup_respell, ih]

theorem Linked.spelling_respell (h : a.Linked) {s : RecordId} {path : List String}
    (hr : r ∉ (a.properties s path).1.map Prod.snd) : (a.respell r n).spelling s path = a.spelling s path := by
  unfold spelling
  rw [h.properties_respell]
  congr 1
  apply List.filterMap_congr
  intro p hp
  have hne : p.2 ≠ r := by
    rintro rfl
    exact hr (List.mem_map_of_mem hp)
  unfold word?
  rw [show (a.respell r n).record p.2 = a.record p.2 from record_modifyRecord_of_ne _ hne]

theorem Linked.outputPath?_respell (h : a.Linked) (hr : (a.lookup d first).index < a.records.size) {used : List String}
    (hused : a.outputPath? d (first :: rest) = some used)
    (honce : a.lookup d first ∉ (a.properties (a.lookup d first) rest).1.map Prod.snd)
    : ∃ used', (a.respell (a.lookup d first) n).outputPath? d (first :: rest) = some used' ∧
        used'.drop 1 = n.behind (a.spelling (a.lookup d first) rest) := by
  obtain ⟨hbehind, segment, hsegment, -⟩ := outputPath?_eq_some.1 hused
  have hrecord : (a.respell (a.lookup d first) n).record (a.lookup d first)
      = { a.record (a.lookup d first) with outputName := n } :=
    record_modifyRecord_self _ hr
  have hhead : ((a.respell (a.lookup d first) n).record (a.lookup d first)).used ≠ .unused := by
    have hhead := (ExportRecord.isSome_outputSegment? _).1 (Option.isSome_of_eq_some hsegment)
    rwa [hrecord]
  obtain ⟨segment', hsegment'⟩ : ∃ segment', ((a.respell (a.lookup d first) n).record
      (a.lookup d first)).outputSegment? first = some segment' :=
    Option.isSome_iff_exists.1 ((ExportRecord.isSome_outputSegment? _).2 hhead)
  refine ⟨segment'.toList ++ a.spelling (a.lookup d first) rest, ?_, ?_⟩
  · rw [outputPath?_eq_some, h.lookup_respell, h.properties_respell, h.spelling_respell n honce]
    refine ⟨?_, segment', hsegment', rfl⟩
    intro p hp
    obtain ⟨m, hm⟩ := record_respell (a := a) (r := a.lookup d first) n p.2
    rw [hm]
    exact hbehind p hp
  · rw [ExportRecord.behind_of_outputSegment? hsegment', hrecord]

theorem flatMap_modify {α β : Type} {f : α → α} {g : α → List β} (h : ∀ x, g (f x) = g x) (xs : List α) (i : Nat)
    : (xs.modify i f).flatMap g = xs.flatMap g := by
  induction xs generalizing i with
  | nil => rw [List.modify_nil]
  | cons x xs ih =>
    cases i with
    | zero => rw [List.modify_zero_cons, List.flatMap_cons, h, List.flatMap_cons]
    | succ i => rw [List.modify_succ_cons, List.flatMap_cons, ih, List.flatMap_cons]

theorem targetNames_respell (a : Arena) (r : RecordId) : (a.respell r n).targetNames = a.targetNames := by
  unfold targetNames
  rw [show (a.respell r n).records = a.records.modify r.index (RecordEdit.setOutputName n).apply from rfl,
    Array.toList_modify]
  apply flatMap_modify
  intro x
  rfl

end Respell

end Arena

namespace Graph

variable {g : Graph} (h : g.exports.Linked) (r : RecordId) (n : OutputName)

def respell (g : Graph) (r : RecordId) (n : OutputName) : Graph := { g with exports := g.exports.respell r n }

theorem exports_respell : (g.respell r n).exports = g.exports.respell r n := rfl

theorem hop?_respell (s : RecordId) (requested : String) : (g.respell r n).hop? s requested = g.hop? s requested := by
  obtain ⟨m, hm⟩ := Arena.record_respell (a := g.exports) (r := r) n s
  unfold hop?
  rw [exports_respell, hm]
  rfl

include h

theorem lookup_respell : (g.respell r n).exports.lookup = g.exports.lookup := by
  funext d name
  exact h.lookup_respell n d name

theorem provided_respell (d : DescriptorId) (name : String)
    : ((g.respell r n).exports.record ((g.respell r n).exports.lookup d name)).provided
        =
      (g.exports.record (g.exports.lookup d name)).provided := by
  obtain ⟨m, hm⟩ := Arena.record_respell (a := g.exports) (r := r) n (g.exports.lookup d name)
  rw [lookup_respell h, exports_respell, hm]

theorem shape_respell (id : ModuleId) (strict : Bool) : (g.respell r n).shape id strict = g.shape id strict := by
  simp only [shape, provided_respell h]
  rfl

theorem follow_respell (accept : ModuleId → Bool) (fuel : Nat) (s : RecordId) (requested : String)
    (visited : List RecordId)
    : (g.respell r n).follow accept fuel s requested visited = g.follow accept fuel s requested visited := by
  induction fuel generalizing s requested visited with
  | zero => rfl
  | succ fuel ih =>
    have hdescriptor : (g.respell r n).descriptorOf = g.descriptorOf := rfl
    simp only [follow, hop?_respell, lookup_respell h, hdescriptor, ih]

theorem findTarget_respell (id : ModuleId) (name : String) (accept : ModuleId → Bool)
    : (g.respell r n).findTarget id name accept = g.findTarget id name accept := by
  have hdescriptor : (g.respell r n).descriptorOf = g.descriptorOf := rfl
  have hsize : (g.respell r n).exports.records.size = g.exports.records.size := Array.size_modify
  simp only [findTarget, follow_respell h, lookup_respell h, hdescriptor, hsize]

end Graph

structure Resolution.Unnamed (res : Resolution) : Prop where
  ne : ∀ {b : Binding} {s : String}, res.result = .ok b → b.base ≠ .symbol s

namespace Resolution.Unnamed

theorem error {e : LinkError} {need : Option Need} : Unnamed { result := .error e, need } := ⟨nofun⟩

theorem marker {id : ModuleId} {text : String} {ids path : List String} {deferred : Bool}
    : Unnamed (Linker.marker id text ids path deferred) where
  ne := by
    intro b s h
    cases h
    exact BindingBase.noConfusion

theorem map (name : Except LinkError String) {f : String → Binding} {need : Option Need}
    (hf : ∀ name s, (f name).base ≠ .symbol s) : Unnamed { result := name.map f, need } := by
  cases name with
  | error e => exact error
  | ok name =>
    refine ⟨?_⟩
    intro b s h
    cases h
    exact hf name s

end Resolution.Unnamed

namespace Linker

variable {l : Linker} {site : ReferenceSite} {hop : NextHop} {x : Lookup} {res : Resolution} {b : Binding} {s : String}
  {used : List String} {visited : List (DescriptorId × String)}

theorem provided_unnamed {kind : NeededKind} {id : ModuleId} {ids path : List String} {deferred : Bool}
    : (l.provided kind id ids path deferred).Unnamed :=
  .map _ fun _ _ => BindingBase.noConfusion

theorem externalExport_unnamed {e : External} {id : ModuleId} {d : DescriptorId} {first : String} {rest : List String}
    {deferred : Bool} : (l.externalExport e id d first rest deferred).Unnamed := by
  unfold externalExport
  dsimp only
  split
  · exact .marker
  · exact .map _ fun _ _ => BindingBase.noConfusion

theorem shapeStep_unnamed {shape : ExportShape} {id : ModuleId} {path : List String} {deferred : Bool}
    (h : l.shapeStep shape id path deferred site = .done res) : res.Unnamed := by
  unfold shapeStep at h
  split at h
  · cases h
  · cases h
  · cases h
    exact .map _ fun _ _ => BindingBase.noConfusion
  · cases h
    exact .map _ fun _ _ => BindingBase.noConfusion
  · split at h
    · cases h
    · split at h <;> cases h
      exact .marker
  · split at h
    · cases h
      exact .marker
    · split at h <;> cases h
      exact .marker
  · split at h
    · cases h
      exact .map _ fun _ _ => BindingBase.noConfusion
    · split at h <;> cases h
      exact .marker

theorem locate_unnamed (h : l.locate site hop = .inl res) : res.Unnamed := by
  unfold locate at h
  split at h
  · cases h
    exact .error
  · next entry hentry =>
    split at h
    · cases h
      exact .error
    · split at h
      · next hstep =>
        cases h
        exact shapeStep_unnamed hstep
      · cases h
        cases entry <;> exact .map _ fun _ _ => BindingBase.noConfusion
      · split at h <;> cases h
        exact .error

theorem reexport_unnamed {m : Member} {target : Except GraphError FindTarget}
    (h : l.reexport hop x m target = .inl res) : res.Unnamed := by
  unfold reexport at h
  dsimp only at h
  split at h
  · cases h
    exact .error
  · cases h
    exact .error
  · cases h
    exact .marker
  · split at h <;> cases h
    exact .error
  · split at h <;> cases h
    · exact .map _ fun _ _ => BindingBase.noConfusion
    · exact .error

structure Holds (l : Linker) (x : Lookup) (s : String) (used : List String) : Prop where
  member : ∃ m, x.entry = .concatenated m ∧ m.exports.get? x.name = some s
  provided : (l.graph.exports.record (l.graph.exports.lookup x.descriptor x.name)).provided ≠ .notProvided
  output : l.graph.exports.outputPath? x.descriptor (x.name :: x.rest) = some used

def symbolBinding (hop : NextHop) (x : Lookup) (s : String) (used : List String) : Binding :=
  { module := hop.module, base := .symbol s, ids := used.drop 1, path := x.name :: x.rest, deferred := hop.deferred }

theorem Holds.direct (h : l.Holds x s used) : l.direct hop x = .inl { result := .ok (symbolBinding hop x s used) } := by
  obtain ⟨⟨m, hentry, hsymbol⟩, hprovided, houtput⟩ := h
  unfold Linker.direct
  rw [hentry]
  dsimp only
  rw [if_neg hprovided, hsymbol, houtput]
  rfl

theorem direct_symbol (h : l.direct hop x = .inl res) (hb : res.result = .ok b) (hs : b.base = .symbol s)
    : ∃ used, l.Holds x s used ∧ b = symbolBinding hop x s used := by
  unfold direct at h
  dsimp only at h
  split at h
  · next e hentry =>
    cases h
    exact absurd hs (externalExport_unnamed.ne hb)
  · next m hentry =>
    split at h
    · cases h
      exact absurd hs (provided_unnamed.ne hb)
    · next hprovided =>
      split at h
      · next symbol hsymbol =>
        split at h
        · cases h
          exact absurd hs (Resolution.Unnamed.marker.ne hb)
        · next used houtput =>
          cases h
          cases hb
          cases hs
          exact ⟨used, ⟨⟨m, hentry, hsymbol⟩, hprovided, houtput⟩, rfl⟩
      · split at h <;> cases h
        exact absurd hs (Resolution.Unnamed.marker.ne hb)

theorem advance_symbol (h : l.advance site visited hop = .inl res) (hb : res.result = .ok b) (hs : b.base = .symbol s)
    : ∃ x used, l.locate site hop = .inr x ∧ ¬visited.contains x.key ∧ l.Holds x s used ∧
        b = symbolBinding hop x s used := by
  rw [advance_eq] at h
  cases hx : l.locate site hop with
  | inl res' =>
    rw [hx] at h
    cases h
    exact absurd hs ((locate_unnamed hx).ne hb)
  | inr x =>
    rw [hx, Sum.elim_inr] at h
    split at h
    · cases h
      exact absurd hs (Resolution.Unnamed.marker.ne hb)
    · next hnew =>
      cases hdirect : l.direct hop x with
      | inl res' =>
        rw [hdirect] at h
        cases h
        obtain ⟨used, hholds, hbinding⟩ := direct_symbol hdirect hb hs
        exact ⟨x, used, rfl, hnew, hholds, hbinding⟩
      | inr m =>
        rw [hdirect, Sum.elim_inr] at h
        cases hreexport : l.reexport hop x m (l.graph.findTarget hop.module x.name l.set.contains) with
        | inl res' =>
          rw [hreexport] at h
          cases h
          exact absurd hs ((reexport_unnamed hreexport).ne hb)
        | inr next =>
          rw [hreexport] at h
          cases h

theorem Holds.advance (hx : l.locate site hop = .inr x) (hnew : ¬visited.contains x.key) (h : l.Holds x s used)
    : l.advance site visited hop = .inl { result := .ok (symbolBinding hop x s used) } := by
  rw [advance_eq, hx, Sum.elim_inr, if_neg hnew, h.direct]
  rfl

section Respell

variable (h : l.graph.exports.Linked) (r : RecordId) (n : OutputName)

def respell (l : Linker) (r : RecordId) (n : OutputName) : Linker := { l with graph := l.graph.respell r n }

theorem graph_respell : (l.respell r n).graph = l.graph.respell r n := rfl

theorem set_respell : (l.respell r n).set = l.set := rfl

include h

theorem locate_respell (site : ReferenceSite) (hop : NextHop)
    : (l.respell r n).locate site hop = l.locate site hop := by
  unfold locate
  rw [graph_respell, Graph.shape_respell h]
  rfl

theorem advance_respell {step : (DescriptorId × String) × NextHop} (hstep : l.advance site visited hop = .inr step)
    : (l.respell r n).advance site visited hop = .inr step := by
  rw [advance_eq] at hstep ⊢
  rw [locate_respell h]
  cases hx : l.locate site hop with
  | inl res =>
    rw [hx] at hstep
    cases hstep
  | inr x =>
    rw [hx, Sum.elim_inr] at hstep
    rw [Sum.elim_inr]
    split at hstep
    · cases hstep
    · next hnew =>
      rw [if_neg hnew]
      cases hdirect : l.direct hop x with
      | inl res =>
        rw [hdirect] at hstep
        cases hstep
      | inr m =>
        rw [hdirect, Sum.elim_inr] at hstep
        have hdirect' : (l.respell r n).direct hop x = .inr m := by
          rw [direct_eq_inr] at hdirect ⊢
          rwa [graph_respell, Graph.provided_respell h]
        rw [hdirect', Sum.elim_inr, graph_respell, set_respell, Graph.findTarget_respell h]
        cases hreexport : l.reexport hop x m (l.graph.findTarget hop.module x.name l.set.contains) with
        | inl res =>
          rw [hreexport] at hstep
          cases hstep
        | inr next =>
          rw [hreexport] at hstep
          have hreexport' : (l.respell r n).reexport hop x m (l.graph.findTarget hop.module x.name l.set.contains)
              = .inr next := by
            rw [reexport_eq_inr] at hreexport ⊢
            exact hreexport
          rw [hreexport']
          exact hstep

theorem Holds.respell (hholds : l.Holds x s used) {used' : List String}
    (houtput : (l.graph.exports.respell r n).outputPath? x.descriptor (x.name :: x.rest) = some used')
    : (l.respell r n).Holds x s used' where
  member := hholds.member
  provided := by
    rw [graph_respell, Graph.provided_respell h]
    exact hholds.provided
  output := houtput

theorem follow_symbol {fuel : Nat} (hb : (l.follow site fuel visited hop).result = .ok b) (hs : b.base = .symbol s)
    : ∃ hop' x used, l.locate site hop' = .inr x ∧ l.Holds x s used ∧ b = symbolBinding hop' x s used ∧
        ∀ r n used', (l.respell r n).Holds x s used' →
          ((l.respell r n).follow site fuel visited hop).result = .ok (symbolBinding hop' x s used') := by
  induction fuel generalizing visited hop with
  | zero => exact absurd hs (Resolution.Unnamed.marker.ne hb)
  | succ fuel ih =>
    rw [follow] at hb
    cases hstep : l.advance site visited hop with
    | inl res =>
      rw [hstep] at hb
      obtain ⟨x, used, hx, hnew, hholds, hbinding⟩ := advance_symbol hstep hb hs
      refine ⟨hop, x, used, hx, hholds, hbinding, ?_⟩
      intro r n used' hholds'
      rw [follow, hholds'.advance ((locate_respell h r n site hop).trans hx) hnew]
    | inr step =>
      rw [hstep] at hb
      obtain ⟨hop', x, used, hx, hholds, hbinding, hrespell⟩ := ih hb
      refine ⟨hop', x, used, hx, hholds, hbinding, ?_⟩
      intro r n used' hholds'
      rw [follow, advance_respell h r n hstep]
      exact hrespell r n used' hholds'

theorem resolve_symbol {id : ModuleId} {path : List String} (hb : (l.resolve id path site).result = .ok b)
    (hs : b.base = .symbol s)
    : ∃ hop x used, l.locate site hop = .inr x ∧ l.Holds x s used ∧ b = symbolBinding hop x s used ∧
        ∀ r n used', (l.respell r n).Holds x s used' →
          ((l.respell r n).resolve id path site).result = .ok (symbolBinding hop x s used') := by
  obtain ⟨hop, x, used, hx, hholds, hbinding, hrespell⟩ := follow_symbol h hb hs
  refine ⟨hop, x, used, hx, hholds, hbinding, ?_⟩
  intro r n used' hholds'
  have hnames : (l.respell r n).graph.exports.targetNames = l.graph.exports.targetNames :=
    Arena.targetNames_respell n l.graph.exports r
  unfold resolve
  dsimp only
  rw [hnames]
  exact hrespell r n used' hholds'

end Respell

/--
The properties that are read of a local symbol are those that are asked for behind the export, spelled as in the output
and each of them unless its record has no name. Another name of the export does not change them, but where the export
has no name itself the first of them is lost.
-/
theorem symbol_ids {id : ModuleId} {path : List String} (hg : l.graph.Reachable)
    (hb : (l.resolve id path site).result = .ok b) (hs : b.base = .symbol s)
    : ∃ d first rest r, l.graph.descriptorOf b.module = .ok d ∧ b.path = first :: rest ∧
        l.graph.exports.lookup d first = r
        ∧
      (∀ p ∈ (l.graph.exports.properties r rest).1,
        l.graph.exports.word? p = none ↔ (l.graph.exports.record p.2).outputName = .virtual)
        ∧
      (l.graph.exports.properties r rest).1.map Prod.fst ++ (l.graph.exports.properties r rest).2 = rest
        ∧
      ((l.graph.exports.record r).nested = none → l.graph.exports.spelling r rest = rest)
        ∧
      b.ids = (l.graph.exports.record r).outputName.behind (l.graph.exports.spelling r rest)
        ∧
      (r ∉ (l.graph.exports.properties r rest).1.map Prod.snd →
        ∀ n, ((l.respell r n).resolve id path site).result
          = .ok { b with ids := n.behind (l.graph.exports.spelling r rest) }) := by
  have hlinked := hg.sound.exports
  obtain ⟨hop, x, used, hx, hholds, rfl, hrespell⟩ := resolve_symbol hlinked hb hs
  have ⟨_, hd, _⟩ := locate_eq_inr.1 hx
  obtain ⟨hused, segment, hsegment, rfl⟩ := Arena.outputPath?_eq_some.1 hholds.output
  refine ⟨x.descriptor, x.name, x.rest, _, hd, rfl, rfl, ?_, l.graph.exports.properties_names _ _,
    fun hnested => Arena.spelling_of_nested_eq_none hnested _, ExportRecord.behind_of_outputSegment? hsegment _, ?_⟩
  · intro p hp
    exact Arena.word?_eq_none (hused p hp)
  · intro honce n
    have hr := hg.sound.arena.lt_lookup (hg.sound.descriptorOf_lt hd) x.name
    obtain ⟨used', hused', hids⟩ := hlinked.outputPath?_respell n hr hholds.output honce
    rw [hrespell _ n used' (hholds.respell hlinked _ n hused'), symbolBinding, hids]
    rfl

end Linker

namespace Sample

def settings : ModuleId := ⟨"./settings"⟩

/--
A module with an export `config` that has no name, and one `api` of which a renamed property is used.
-/
def configuring : List GraphOp := [
  .addModule { id := settings, buildMeta := { exportsType := some .namespaced } },
  .exports (.getOrCreate ⟨0⟩ "config"), .exports (.edit ⟨2⟩ (.setUsed .used)),
  .exports (.edit ⟨2⟩ (.setOutputName .virtual)), .exports (.getOrCreate ⟨0⟩ "api"),
  .exports (.edit ⟨3⟩ (.setOutputName (.renamed "a"))), .exports (.createNested ⟨3⟩),
  .exports (.getOrCreate ⟨1⟩ "get"), .exports (.edit ⟨6⟩ (.setOutputName (.renamed "g"))),
  .markExportUsed settings ["api", "get"] .used]

def settingsLinker : Linker where
  graph := configuring.foldl GraphOp.apply {}
  set := ⟨.ofFirst [.concatenated
    { module := settings, exports := .ofList [("config", "config"), ("api", "api")] }], settings, none⟩
  names := {}

theorem settings_reachable : settingsLinker.graph.Reachable := by
  simp only [settingsLinker, configuring, List.foldl_cons, List.foldl_nil]
  refine .step _ ?_ trivial
  iterate 8 refine .step _ ?_ ⟨by decide +kernel, by decide +kernel⟩
  exact .step _ .empty trivial

def settingsBinding (symbol : String) (path ids : List String) : Binding :=
  { module := settings, base := .symbol symbol, ids, path, deferred := false }

end Sample

namespace Linker

open Sample

theorem symbol_ids_sample
    : settingsLinker.graph.Reachable
        ∧
      (settingsLinker.resolve settings ["api", "get", "x"] {}).result
          = .ok (settingsBinding "api" ["api", "get", "x"] ["g", "x"])
        ∧
      ∀ n, n ≠ .virtual → ((settingsLinker.respell ⟨3⟩ n).resolve settings ["api", "get", "x"] {}).result
          = .ok (settingsBinding "api" ["api", "get", "x"] ["g", "x"]) := by
  have hresult : (settingsLinker.resolve settings ["api", "get", "x"] {}).result
      = .ok (settingsBinding "api" ["api", "get", "x"] ["g", "x"]) := by
    decide +kernel
  obtain ⟨d, first, rest, r, hd, hpath, hr, -, -, -, -, hrespell⟩ := symbol_ids settings_reachable hresult rfl
  cases hd.symm.trans (show settingsLinker.graph.descriptorOf settings = .ok ⟨0⟩ by decide +kernel)
  cases hpath
  cases hr.symm.trans (show settingsLinker.graph.exports.lookup ⟨0⟩ "api" = ⟨3⟩ by decide +kernel)
  refine ⟨settings_reachable, hresult, ?_⟩
  intro n hn
  rw [hrespell (by decide +kernel)]
  have hspelling : settingsLinker.graph.exports.spelling ⟨3⟩ ["get", "x"] = ["g", "x"] := by
    decide +kernel
  rw [hspelling]
  cases n with
  | kept => rfl
  | renamed => rfl
  | virtual => exact absurd rfl hn

/--
The property `debug` of `config` is lost, which would not be so if `config` had a name.
-/
theorem symbol_loses_property
    : settingsLinker.graph.Reachable
        ∧
      (settingsLinker.graph.exports.record (settingsLinker.graph.exports.lookup ⟨0⟩ "config")).nested = none
        ∧
      (settingsLinker.resolve settings ["config", "debug"] {}).result
          = .ok (settingsBinding "config" ["config", "debug"] [])
        ∧
      ((settingsLinker.respell ⟨2⟩ .kept).resolve settings ["config", "debug"] {}).result
          = .ok (settingsBinding "config" ["config", "debug"] ["debug"]) :=
  ⟨settings_reachable, by decide +kernel, by decide +kernel, by decide +kernel⟩

end Linker
end ModuleLink
