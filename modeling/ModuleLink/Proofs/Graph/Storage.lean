import ModuleLink.Proofs.Binary.Graph
import ModuleLink.Proofs.Graph.Edges
import ModuleLink.Proofs.RawText

/-!
This module contains the proof that a graph that operations lead to is read back as it was saved if the identities of
its modules are texts; of others only the texts are kept. Such a graph has nothing twice where the saved form cannot,
and refers to nothing that does not exist, so that its size bounds all numbers but those that were given from outside.
-/

namespace ModuleLink

open Binary

def ExportRecord.KeepsKeys (r r' : ExportRecord) : Prop := r.targets.DistinctKeys → r'.targets.DistinctKeys

theorem ExportRecord.KeepsKeys.setTarget (r : ExportRecord) (key : DependencyId) (target : ExportTarget)
    : r.KeepsKeys (r.setTarget key target).1 := by
  intro h
  unfold ExportRecord.setTarget
  split
  · exact h
  · exact h.insert key target

theorem ExportRecord.Kept.keepsKeys : Kept KeepsKeys where
  refl _ := id
  trans h h' := h' ∘ h
  edit r e := by
    cases e with
    | setTarget key target => exact KeepsKeys.setTarget r key target
    | unsetTarget key => exact fun h => h.erase key
    | setUsedIf condition state =>
      intro h
      change (r.setUsedIf condition state).1.targets.DistinctKeys
      unfold ExportRecord.setUsedIf
      split
      · exact h
      · exact h
    | _ => exact id
  completeProvision _ := id
  completeUsage _ := id

namespace Arena

variable {a a' : Arena}

def TargetKeys (a : Arena) : Prop := ∀ r, (a.record r).targets.DistinctKeys

namespace TargetKeys

theorem modifyRecord (h : a.TargetKeys) (r : RecordId) {f : ExportRecord → ExportRecord}
    (hf : ∀ record, ExportRecord.KeepsKeys record (f record)) : (a.modifyRecord r f).TargetKeys := by
  intro r'
  rcases record_modifyRecord a r f r' with hsame | hnew
  · rw [hsame]
    exact h r'
  · rw [hnew]
    exact hf _ (h r')

theorem newDescriptorOf (h : a.TargetKeys) (owner : Option RecordId) : (a.newDescriptorOf owner).1.TargetKeys := by
  intro r
  rw [record_newDescriptorOf]
  exact h r

theorem step (h : a.TargetKeys) (hstep : StepBy ExportRecord.KeepsKeys a a') : a'.TargetKeys := by
  cases hstep with
  | modifyRecord r f hf => exact h.modifyRecord r hf
  | insertLocal d name =>
    intro r
    rw [record_insertLocal]
    split
    · exact (h _).mapValues _
    · exact h r
  | newDescriptor => exact h.newDescriptorOf none
  | setRedirect d target =>
    rcases setRedirect_fst a d target with hsame | hnew
    · rw [hsame]
      exact h
    · rw [hnew]
      exact h
  | createNested r =>
    unfold Arena.createNested
    split
    · exact h
    · refine modifyRecord ?_ r fun _ => id
      exact (h.newDescriptorOf (some r)).modifyRecord _ fun _ => id
  | linkNested r d =>
    unfold Arena.linkNested
    split
    · exact h
    · exact h.modifyRecord r fun _ => id

end TargetKeys

theorem Reachable.targetKeys (h : a.Reachable) : a.TargetKeys :=
  h.invariantBy .keepsKeys (fun _ _ => id) (fun _ => Dict.distinctKeys_empty) .step

end Arena

/--
The exports of a descriptor may be listed in another order; nothing else differs.
-/
structure Descriptor.Reordered (x y : Descriptor) : Prop where
  exports : y.exports.entries.Perm x.exports.entries
  rest : y = { x with exports := y.exports }

namespace Binary.Codec

theorem encode_list_perm {α : Type} {c : Codec α} {xs ys : List α}
    (h : List.Forall₂ (fun x y => (c.encode y).Perm (c.encode x)) xs ys) : (c.list.encode ys).Perm (c.list.encode xs) := by
  simp only [Codec.list]
  rw [h.length_eq]
  refine .append_left _ ?_
  induction h with
  | nil => exact .refl _
  | cons hfirst _ ih => exact .append hfirst ih

theorem encode_dict_perm {α β : Type} [BEq α] {c : Codec α} {d : Codec β} {m m' : Dict α β}
    (h : m'.entries.Perm m.entries) : ((c.dict d).encode m').Perm ((c.dict d).encode m) := by
  simp only [Codec.dict, Codec.map, Codec.list]
  rw [h.length_eq]
  exact .append_left _ (h.flatMap_right _)

end Binary.Codec

namespace Descriptor.Reordered

variable {x y : Descriptor}

theorem storable (h : x.Reordered y) (hx : x.Storable) : y.Storable := by
  rw [h.rest]
  exact { hx with
    keys := hx.keys.perm h.exports
    exports := fun e he => hx.exports e (h.exports.mem_iff.1 he) }

theorem encode_perm (h : x.Reordered y) : (Codec.descriptor.encode y).Perm (Codec.descriptor.encode x) := by
  rw [h.rest]
  simp only [Codec.descriptor, List.append_assoc]
  exact .append_right _ (Codec.encode_dict_perm h.exports)

end Descriptor.Reordered

namespace Graph

variable {g g' : Graph}

/--
The numbers of a graph take at most 32 bits, and the number of its bytes at most 64.
-/
structure Fits (g : Graph) : Prop where
  dependencies : g.dependencies.size ≤ wordLimit
  connections : g.connections.size ≤ wordLimit
  connection : ∀ slot ∈ g.connections, ∀ x ∈ slot, x.id.index < wordLimit ∧ ∀ d ∈ x.dependency, d.index < wordLimit
  descriptors : g.exports.descriptors.size ≤ wordLimit
  records : g.exports.records.size ≤ wordLimit
  preOrder : ∀ x ∈ g.nodes.entries, ∀ i ∈ x.2.preOrder, i < wordLimit
  postOrder : ∀ x ∈ g.nodes.entries, ∀ i ∈ x.2.postOrder, i < wordLimit
  depth : ∀ x ∈ g.nodes.entries, ∀ i ∈ x.2.depth, i < wordLimit
  targets : ∀ r ∈ g.exports.records, ∀ x ∈ r.targets.entries, x.1.index < wordLimit ∧ x.2.Storable
  bytes : g.toBytes.length < lengthLimit

theorem storable_node (h : g.Tables) (hfits : g.Fits) {id : ModuleId} {n : Node} (hn : (id, n) ∈ g.nodes.entries)
    : n.Storable := by
  have hnode := h.node (Dict.get?_of_mem_entries h.nodes hn)
  have hlisted (e : ConnectionEnd) : (e.listed n).Nodup ∧ ∀ c ∈ e.listed n, c.index < wordLimit :=
    ⟨hnode.nodup e, fun c hc => Nat.lt_of_lt_of_le (hnode.connections e c hc) hfits.connections⟩
  exact {
    incoming := hlisted .incoming
    outgoing := by
      intro cs hcs
      have houtgoing := hlisted .outgoing
      rw [ConnectionEnd.listed, hcs] at houtgoing
      exact houtgoing
    exports := Nat.lt_of_lt_of_le hnode.exports hfits.descriptors
    dependencies := fun d hd => Nat.lt_of_lt_of_le (hnode.dependencies d hd) hfits.dependencies
    preOrder := hfits.preOrder _ hn
    postOrder := hfits.postOrder _ hn
    depth := hfits.depth _ hn }

theorem storable_connection (h : g.Tables) (hfits : g.Fits) {x : Connection} (hx : some x ∈ g.connections)
    : x.Storable := by
  obtain ⟨i, hi, hget⟩ := Array.mem_iff_getElem.1 hx
  have hconnection : g.connection? ⟨i⟩ = some x := by
    unfold connection?
    rw [Array.getElem?_eq_getElem hi, hget]
    rfl
  have ⟨hid, hdependency⟩ := hfits.connection _ hx x rfl
  exact ⟨hid, hdependency, h.explanations hconnection⟩

theorem storable_current (h : g.Tables) (hfits : g.Fits) {d : DependencyId} {c : ConnectionId}
    (hc : (d, c) ∈ g.current.entries) : d.index < wordLimit ∧ c.index < wordLimit := by
  obtain ⟨hd, x, hx⟩ := h.current (Dict.get?_of_mem_entries h.keys hc)
  exact ⟨Nat.lt_of_lt_of_le hd hfits.dependencies, Nat.lt_of_lt_of_le (connection?_lt hx) hfits.connections⟩

theorem storable_descriptor (h : g.Tables) (hfits : g.Fits) {x : Descriptor} (hx : x ∈ g.exports.descriptors)
    : x.Storable := by
  obtain ⟨i, hi, hget⟩ := Array.mem_iff_getElem.1 hx
  have hdescriptor : g.exports.descriptor ⟨i⟩ = x := by
    unfold Arena.descriptor
    rw [Array.getElem?_eq_getElem hi, hget]
    rfl
  have hexports := h.exports
  have hrecord {r : RecordId} (hr : r.index < g.exports.records.size) : r.index < wordLimit :=
    Nat.lt_of_lt_of_le hr hfits.records
  subst hdescriptor
  exact {
    keys := hexports.named.keys ⟨i⟩
    exports := fun e he => hrecord (hexports.listsExisting _ hx e.2 (List.mem_map_of_mem he))
    other := hrecord (hexports.sound.tidy.lt (.other hi))
    sideEffects := hrecord (hexports.sound.tidy.lt (.sideEffects hi))
    redirect := fun e he => Nat.lt_of_lt_of_le (hexports.linked.redirect he) hfits.descriptors
    owner := fun r hr => hrecord (hexports.forest.owner _ r hr).1 }

theorem storable_record (h : g.Tables) (hfits : g.Fits) {x : ExportRecord} (hx : x ∈ g.exports.records)
    : x.Storable := by
  obtain ⟨i, hi, hget⟩ := Array.mem_iff_getElem.1 hx
  have hrecord : g.exports.record ⟨i⟩ = x := by
    unfold Arena.record
    rw [Array.getElem?_eq_getElem hi, hget]
    rfl
  refine ⟨?_, hfits.targets x hx, ?_⟩
  · rw [← hrecord]
    exact h.exports.targetKeys ⟨i⟩
  · intro d hd
    rw [← hrecord] at hd
    exact Nat.lt_of_lt_of_le (h.exports.linked.nested hd) hfits.descriptors

theorem Reachable.storable (h : g.Reachable) (hfits : g.Fits) : g.Storable where
  node _ := storable_node h.tables hfits
  connection _ := storable_connection h.tables hfits
  keys := h.tables.keys
  current _ := storable_current h.tables hfits
  descriptor _ := storable_descriptor h.tables hfits
  record _ := storable_record h.tables hfits

/--
The maps of a graph may list their entries in another order; nothing else differs.
-/
structure Reordered (g g' : Graph) : Prop where
  modules : g'.modules.entries.Perm g.modules.entries
  nodes : g'.nodes.entries.Perm g.nodes.entries
  dependencies : g'.dependencies = g.dependencies
  connections : g'.connections = g.connections
  current : g'.current.entries.Perm g.current.entries
  size : g'.exports.descriptors.size = g.exports.descriptors.size
  descriptor : ∀ d, (g.exports.descriptor d).Reordered (g'.exports.descriptor d)
  records : g'.exports.records = g.exports.records

namespace Reordered

theorem descriptor_of_mem (h : g.Reordered g') {x : Descriptor} (hx : x ∈ g'.exports.descriptors)
    : ∃ y ∈ g.exports.descriptors, y.Reordered x := by
  obtain ⟨i, hi, rfl⟩ := Array.mem_iff_getElem.1 hx
  have hi' : i < g.exports.descriptors.size := Nat.lt_of_lt_of_eq hi h.size
  have hd := h.descriptor ⟨i⟩
  unfold Arena.descriptor at hd
  rw [Array.getElem?_eq_getElem hi, Array.getElem?_eq_getElem hi'] at hd
  exact ⟨_, Array.getElem_mem hi', hd⟩

theorem storable (h : g.Reordered g') (hg : g.Storable) : g'.Storable where
  node x hx := hg.node x (h.nodes.mem_iff.1 hx)
  connection c hc := hg.connection c (h.connections ▸ hc)
  keys := hg.keys.perm h.current
  current x hx := hg.current x (h.current.mem_iff.1 hx)
  descriptor x hx := by
    obtain ⟨y, hy, hreordered⟩ := h.descriptor_of_mem hx
    exact hreordered.storable (hg.descriptor y hy)
  record r hr := hg.record r (h.records ▸ hr)

theorem forall₂_descriptors (h : g.Reordered g')
    : List.Forall₂ Descriptor.Reordered g.exports.descriptors.toList g'.exports.descriptors.toList := by
  refine List.forall₂_iff_get.2 ⟨h.size.symm, ?_⟩
  intro i hi hi'
  have hd := h.descriptor ⟨i⟩
  unfold Arena.descriptor at hd
  rw [Array.getElem?_eq_getElem hi, Array.getElem?_eq_getElem hi'] at hd
  exact hd

theorem toBytes_perm (h : g.Reordered g') : g'.toBytes.Perm g.toBytes := by
  have hdescriptors : (Codec.descriptor.array.encode g'.exports.descriptors).Perm
      (Codec.descriptor.array.encode g.exports.descriptors) :=
    Codec.encode_list_perm (h.forall₂_descriptors.imp fun _ _ hd => hd.encode_perm)
  unfold toBytes
  refine .append_left _ ?_
  simp only [Codec.graph, Codec.arena]
  rw [h.dependencies, h.connections, h.records]
  refine .append (.append (.append_right _ (.append_right _ (.append ?_ ?_))) ?_) (.append_right _ hdescriptors)
  · exact Codec.encode_dict_perm h.modules
  · exact Codec.encode_dict_perm h.nodes
  · exact Codec.encode_dict_perm h.current

end Reordered

structure Alike (g g' : Graph) : Prop where
  modules : ∀ id, g'.modules.get? id = g.modules.get? id
  nodes : ∀ id, g'.nodes.get? id = g.nodes.get? id
  dependencies : g'.dependencies = g.dependencies
  connections : g'.connections = g.connections
  current : ∀ d, g'.current.get? d = g.current.get? d
  listed : ∀ d name, g'.exports.listed? d name = g.exports.listed? d name
  descriptor : ∀ d, g'.exports.descriptor d = { g.exports.descriptor d with exports := (g'.exports.descriptor d).exports }
  records : g'.exports.records = g.exports.records

theorem Tables.alike (h : g.Tables) (hreordered : g.Reordered g') : g.Alike g' where
  modules := Dict.get?_perm h.modules hreordered.modules
  nodes := Dict.get?_perm h.nodes hreordered.nodes
  dependencies := hreordered.dependencies
  connections := hreordered.connections
  current := Dict.get?_perm h.keys hreordered.current
  listed d := Dict.get?_perm (h.exports.named.keys d) (hreordered.descriptor d).exports
  descriptor d := (hreordered.descriptor d).rest
  records := hreordered.records

end Graph

section Texts

theorem ModuleId.isText_reread (id : ModuleId) : id.reread.path.IsText := RawText.isText_ofString _

theorem ModuleId.reread_eq {id : ModuleId} (h : id.path.IsText) : id.reread = id := congrArg ModuleId.mk h

theorem ModuleId.isText_of_mem_map {o : Option ModuleId} {id : ModuleId} (h : id ∈ o.map (·.reread))
    : id.path.IsText := by
  obtain ⟨id', -, rfl⟩ := Option.map_eq_some_iff.1 h
  exact id'.isText_reread

theorem ModuleId.map_reread {o : Option ModuleId} (h : ∀ id ∈ o, id.path.IsText) : o.map (·.reread) = o := by
  cases o with
  | none => rfl
  | some id => exact congrArg some (reread_eq (h id rfl))

theorem Module.reread_eq {m : Module} (h : m.id.path.IsText) : m.reread = m := by
  unfold Module.reread
  rw [ModuleId.reread_eq h]

theorem Node.reread_eq {n : Node} (h : ∀ id ∈ n.issuer, id.path.IsText) : n.reread = n := by
  unfold Node.reread
  rw [ModuleId.map_reread h]

theorem DeclaredDependency.reread_eq {d : DeclaredDependency} (h : ∀ id ∈ d.parent, id.path.IsText)
    : d.reread = d := by
  unfold DeclaredDependency.reread
  rw [ModuleId.map_reread h]

def Connection.ids (c : Connection) : List ModuleId :=
  c.origin.toList ++ c.resolvedOrigin.toList ++ [c.target, c.resolvedTarget]

theorem Connection.forall_mem_ids {c : Connection} {P : ModuleId → Prop}
    : (∀ id ∈ c.ids, P id)
        ↔
      (∀ id ∈ c.origin, P id) ∧ (∀ id ∈ c.resolvedOrigin, P id) ∧ P c.target ∧ P c.resolvedTarget := by
  simp only [ids, List.forall_mem_append, Option.mem_toList, Option.mem_def, List.forall_mem_cons, List.not_mem_nil,
    IsEmpty.forall_iff, implies_true, and_true, and_assoc]

theorem Connection.isText_of_mem_ids {c : Connection} : ∀ id ∈ c.reread.ids, id.path.IsText :=
  forall_mem_ids.2 ⟨fun _ => ModuleId.isText_of_mem_map, fun _ => ModuleId.isText_of_mem_map,
    ModuleId.isText_reread _, ModuleId.isText_reread _⟩

theorem Connection.reread_eq {c : Connection} (h : ∀ id ∈ c.ids, id.path.IsText) : c.reread = c := by
  have ⟨horigin, hresolved, htarget, hresolvedTarget⟩ := forall_mem_ids.1 h
  unfold Connection.reread
  rw [ModuleId.map_reread horigin, ModuleId.map_reread hresolved, ModuleId.reread_eq htarget,
    ModuleId.reread_eq hresolvedTarget]

namespace Graph

variable {g g' : Graph}

def ids (g : Graph) : List ModuleId :=
  g.modules.entries.flatMap (fun x => [x.1, x.2.id]) ++ g.nodes.entries.flatMap (fun x => x.1 :: x.2.issuer.toList) ++
    g.dependencies.toList.flatMap (·.parent.toList) ++
    g.connections.toList.flatMap fun slot => slot.toList.flatMap Connection.ids

theorem forall_mem_ids {P : ModuleId → Prop}
    : (∀ id ∈ g.ids, P id)
        ↔
      (∀ x ∈ g.modules.entries, P x.1 ∧ P x.2.id) ∧ (∀ x ∈ g.nodes.entries, P x.1 ∧ ∀ id ∈ x.2.issuer, P id) ∧
        (∀ d ∈ g.dependencies, ∀ id ∈ d.parent, P id) ∧
        ∀ slot ∈ g.connections, ∀ c ∈ slot, ∀ id ∈ c.ids, P id := by
  simp only [ids, List.forall_mem_append, List.forall_mem_flatMap, List.forall_mem_cons, List.not_mem_nil,
    IsEmpty.forall_iff, implies_true, and_true, Option.mem_toList, Option.mem_def, Array.mem_toList_iff, and_assoc]

theorem isText_of_mem_ids : ∀ id ∈ g.reread.ids, id.path.IsText := by
  refine forall_mem_ids.2 ⟨?_, ?_, ?_, ?_⟩
  · refine Dict.forall_entries_ofList (P := fun id : ModuleId => id.path.IsText)
      (Q := fun m : Module => m.id.path.IsText) ?_
    intro x hx
    obtain ⟨y, -, rfl⟩ := List.mem_map.1 hx
    exact ⟨ModuleId.isText_reread _, ModuleId.isText_reread _⟩
  · refine Dict.forall_entries_ofList (P := fun id : ModuleId => id.path.IsText)
      (Q := fun n : Node => ∀ id ∈ n.issuer, id.path.IsText) ?_
    intro x hx
    obtain ⟨y, -, rfl⟩ := List.mem_map.1 hx
    exact ⟨ModuleId.isText_reread _, fun _ => ModuleId.isText_of_mem_map⟩
  · intro d hd
    obtain ⟨d', -, rfl⟩ := Array.mem_map.1 hd
    exact fun _ => ModuleId.isText_of_mem_map
  · intro slot hslot c hc
    obtain ⟨slot', -, rfl⟩ := Array.mem_map.1 hslot
    obtain ⟨c', -, rfl⟩ := Option.map_eq_some_iff.1 hc
    exact Connection.isText_of_mem_ids

theorem reread_eq (hmodules : g.modules.DistinctKeys) (hnodes : g.nodes.DistinctKeys)
    (h : ∀ id ∈ g.ids, id.path.IsText) : g.reread = g := by
  have ⟨hm, hn, hd, hc⟩ := forall_mem_ids.1 h
  have hmodules' : g.modules.entries.map (Prod.map (·.reread) (·.reread)) = g.modules.entries.map id :=
    List.map_congr_left fun x hx => Prod.ext (ModuleId.reread_eq (hm x hx).1) (Module.reread_eq (hm x hx).2)
  have hnodes' : g.nodes.entries.map (Prod.map (·.reread) (·.reread)) = g.nodes.entries.map id :=
    List.map_congr_left fun x hx => Prod.ext (ModuleId.reread_eq (hn x hx).1) (Node.reread_eq (hn x hx).2)
  have hdependencies : g.dependencies.map (·.reread) = g.dependencies.map id :=
    Array.map_congr_left fun d hd' => DeclaredDependency.reread_eq (hd d hd')
  have hconnections : g.connections.map (·.map (·.reread)) = g.connections.map id := by
    refine Array.map_congr_left fun slot hslot => ?_
    cases slot with
    | none => rfl
    | some c => exact congrArg some (Connection.reread_eq (hc _ hslot c rfl))
  unfold reread
  rw [hmodules', hnodes', hdependencies, hconnections, List.map_id, List.map_id, Array.map_id, Array.map_id,
    Dict.ofList_entries hmodules, Dict.ofList_entries hnodes]

theorem Tables.reread_eq_iff (h : g.Tables) : g.reread = g ↔ ∀ id ∈ g.ids, id.path.IsText := by
  constructor
  · intro hsame
    rw [← hsame]
    exact isText_of_mem_ids
  · exact reread_eq h.modules h.nodes

theorem Reordered.ids_perm (h : g.Reordered g') : g'.ids.Perm g.ids := by
  unfold ids
  rw [h.dependencies, h.connections]
  exact .append_right _ (.append_right _ (.append (h.modules.flatMap_right _) (h.nodes.flatMap_right _)))

/--
A graph that was saved is read back, with only the texts left of identities, in whatever order its maps were written.
This is the same graph if and only if the identities in it are texts. It then gives the same answers.
-/
theorem ofBytes_toBytes (h : g.Reachable) (hfits : g.Fits)
    : Graph.ofBytes g.toBytes = .ok g.reread
        ∧
      (g.reread = g ↔ ∀ id ∈ g.ids, id.path.IsText)
        ∧
      ∀ g', g.Reordered g' → Graph.ofBytes g'.toBytes = .ok g'.reread ∧ g.Alike g' ∧
        ((∀ id ∈ g.ids, id.path.IsText) → Graph.ofBytes g'.toBytes = .ok g') := by
  have hstorable := h.storable hfits
  refine ⟨hstorable.ofBytes_eq hfits.bytes, h.tables.reread_eq_iff, ?_⟩
  intro g' hreordered
  have hread : Graph.ofBytes g'.toBytes = .ok g'.reread := by
    apply (hreordered.storable hstorable).ofBytes_eq
    rw [hreordered.toBytes_perm.length_eq]
    exact hfits.bytes
  refine ⟨hread, h.tables.alike hreordered, fun htexts => ?_⟩
  rw [hread, reread_eq]
  · exact h.tables.modules.perm hreordered.modules
  · exact h.tables.nodes.perm hreordered.nodes
  · exact fun id hid => htexts id (hreordered.ids_perm.mem_iff.1 hid)

end Graph

end Texts

namespace Sample

/--
The page imports the store under a nested condition and re-exports `y` from it as `x`, which has properties. The
connection from the store back to the page is gone.
-/
def archiving : List GraphOp := [
  .addModule { id := page }, .addModule { id := store },
  .addDependency (some page)
    { request := "./store", condition := .all [.inRuntimes (.ofNames ["worker", "main"]), .all [.never], .always] },
  .connect (some page) ⟨0⟩ store, .addExplanation ⟨0⟩ "imported",
  .addDependency (some store) { request := "./page" }, .connect (some store) ⟨1⟩ page, .removeConnection ⟨1⟩,
  .setDepthIfLower page 70000, .setExportTarget page "x" ⟨0⟩ (some ["y"]) (-1), .exports (.createNested ⟨4⟩)]

def archived : Graph := archiving.foldl GraphOp.apply {}

def shelved : Graph := { archived with modules := ⟨archived.modules.entries.reverse⟩ }

theorem archived_reachable : archived.Reachable := by
  simp only [archived, archiving, List.foldl_cons, List.foldl_nil]
  refine .step _ ?_ ⟨by decide +kernel, by decide +kernel⟩
  iterate 10 refine .step _ ?_ trivial
  exact .empty

theorem archived_fits : archived.Fits where
  dependencies := by decide +kernel
  connections := by decide +kernel
  connection := by decide +kernel
  descriptors := by decide +kernel
  records := by decide +kernel
  preOrder := by decide +kernel
  postOrder := by decide +kernel
  depth := by decide +kernel
  targets := by
    have hnumbers : ∀ r ∈ archived.exports.records, ∀ x ∈ r.targets.entries,
        x.1.index < wordLimit ∧ x.2.connection.index < wordLimit ∧
          -0x80000000 ≤ x.2.priority ∧ x.2.priority < 0x80000000 := by
      decide +kernel
    intro r hr x hx
    have ⟨hkey, hconnection, hpriority⟩ := hnumbers r hr x hx
    exact ⟨hkey, hconnection, hpriority⟩
  bytes := by decide +kernel

theorem reverse_reordered (g : Graph) : g.Reordered { g with modules := ⟨g.modules.entries.reverse⟩ } where
  modules := List.reverse_perm _
  nodes := .refl _
  dependencies := rfl
  connections := rfl
  current := .refl _
  size := rfl
  descriptor _ := ⟨.refl _, rfl⟩
  records := rfl

theorem archived_reordered : archived.Reordered shelved :=
  reverse_reordered archived

end Sample

theorem Graph.ofBytes_toBytes_sample
    : Sample.archived.Reachable ∧ Sample.archived.Fits ∧ (∀ id ∈ Sample.archived.ids, id.path.IsText) ∧
      Graph.ofBytes Sample.archived.toBytes = .ok Sample.archived ∧
      Sample.archived.connections.size = 2 ∧ (Sample.archived.connection? ⟨1⟩).isNone ∧
      Sample.archived.Reordered Sample.shelved ∧
      Sample.archived.modules.keys = [Sample.page, Sample.store] ∧
      Sample.shelved.modules.keys = [Sample.store, Sample.page] ∧
      Graph.ofBytes Sample.shelved.toBytes = .ok Sample.shelved ∧ Sample.archived.Alike Sample.shelved := by
  have htexts : ∀ id ∈ Sample.archived.ids, id.path.IsText := by decide +kernel
  have ⟨hsaved, hsame, hreordered⟩ := ofBytes_toBytes Sample.archived_reachable Sample.archived_fits
  have ⟨_, halike, hshelved⟩ := hreordered _ Sample.archived_reordered
  rw [hsame.2 htexts] at hsaved
  exact ⟨Sample.archived_reachable, Sample.archived_fits, htexts, hsaved, by decide +kernel, by decide +kernel,
    Sample.archived_reordered, by decide +kernel, by decide +kernel, hshelved htexts, halike⟩

namespace Sample

def smudge : ModuleId := ⟨⟨[0x2e, 0x2f, 0xff, 0x2e, 0x6a, 0x73]⟩⟩
def stain : ModuleId := ⟨⟨[0x2e, 0x2f, 0xfe, 0x2e, 0x6a, 0x73]⟩⟩

def smeared : Graph := [.addModule { id := smudge }, .addModule { id := stain }].foldl GraphOp.apply {}

theorem smeared_reachable : smeared.Reachable := by
  simp only [smeared, List.foldl_cons, List.foldl_nil]
  iterate 2 refine .step _ ?_ trivial
  exact .empty

theorem smeared_fits : smeared.Fits where
  dependencies := by decide +kernel
  connections := by decide +kernel
  connection := by decide +kernel
  descriptors := by decide +kernel
  records := by decide +kernel
  preOrder := by decide +kernel
  postOrder := by decide +kernel
  depth := by decide +kernel
  targets := by
    have hnone : ∀ r ∈ smeared.exports.records, r.targets.entries = [] := by decide +kernel
    intro r hr x hx
    rw [hnone r hr] at hx
    cases hx
  bytes := by decide +kernel

end Sample

/--
The graph that is read back has one module in place of two, and knows neither of them.
-/
theorem Graph.ofBytes_confuses_modules
    : Sample.smeared.Reachable ∧ Sample.smeared.Fits ∧ ModuleId.ofPath Sample.smudge.path = .ok Sample.smudge ∧
      ModuleId.ofPath Sample.stain.path = .ok Sample.stain ∧
      Sample.smeared.modules.keys = [Sample.smudge, Sample.stain] ∧
      ∃ g, Graph.ofBytes Sample.smeared.toBytes = .ok g ∧ g.modules.keys.length = 1 ∧
        g.modules.get? Sample.smudge = none ∧ g.modules.get? Sample.stain = none := by
  refine ⟨Sample.smeared_reachable, Sample.smeared_fits, by decide +kernel, by decide +kernel, by decide +kernel,
    Sample.smeared.reread, ?_, by decide +kernel, by decide +kernel, by decide +kernel⟩
  exact (Sample.smeared_reachable.storable Sample.smeared_fits).ofBytes_eq Sample.smeared_fits.bytes

end ModuleLink
