import Mathlib.Data.List.ReduceOption
import ModuleLink.Graph.Edit
import ModuleLink.Proofs.MergeSet
import ModuleLink.Proofs.Rename.FreshName
import ModuleLink.Rename.Table

/-!
This module contains the proof that no name is given twice in a merged scope. Every step of the allocation
only adds to the taken names, gives names that were not taken before, and takes the names that it gives; so
does the whole allocation, which begins with the reserved names and the free names that the members read.
-/

namespace ModuleLink

structure Gives (al al' given : List String) : Prop where
  nodup : given.Nodup
  fresh : ∀ x ∈ given, x ∉ al
  taken : ∀ x ∈ given, x ∈ al'
  grows : al ⊆ al'

namespace Gives

variable {al al' al'' given given' : List String}

theorem nothing (al : List String) : Gives al al [] where
  nodup := List.nodup_nil
  fresh := by simp
  taken := by simp
  grows := List.Subset.refl _

theorem one {name : String} (h : name ∉ al) : Gives al (name :: al) [name] where
  nodup := List.nodup_singleton _
  fresh := by simpa using h
  taken := by simp
  grows := List.subset_cons_self _ _

theorem append (h : Gives al al' given) (h' : Gives al' al'' given') : Gives al al'' (given ++ given') where
  nodup := by
    refine List.Nodup.append h.nodup h'.nodup ?_
    intro x hx hx'
    exact h'.fresh x hx' (h.taken x hx)
  fresh := by
    intro x hx hal
    rcases List.mem_append.1 hx with hx | hx
    · exact h.fresh x hx hal
    · exact h'.fresh x hx (h.grows hal)
  taken := by
    intro x hx
    rcases List.mem_append.1 hx with hx | hx
    · exact h'.grows (h.taken x hx)
    · exact h'.taken x hx
  grows := List.Subset.trans h.grows h'.grows

theorem insert {internal : Dict String String} (h : Gives al al' internal.values) {symbol name : String}
    (h' : Gives al' al'' [name]) : Gives al al'' (internal.insert symbol name).values where
  nodup := by
    apply Dict.nodup_values_insert h.nodup
    intro hname
    exact h'.fresh name List.mem_cons_self (h.taken name hname)
  fresh := by
    intro x hx hal
    rcases Dict.mem_values_insert hx with rfl | hx
    · exact h'.fresh x List.mem_cons_self (h.grows hal)
    · exact h.fresh x hx hal
  taken := by
    intro x hx
    rcases Dict.mem_values_insert hx with rfl | hx
    · exact h'.taken x List.mem_cons_self
    · exact h'.grows (h.taken x hx)
  grows := List.Subset.trans h.grows h'.grows

end Gives

def MergeEntry.namespaceSymbol? : MergeEntry → Option String
  | .concatenated m => m.namespaceSymbol
  | .external _ => none

namespace ModuleNames

def interop (n : ModuleNames) : List String :=
  n.interopNamespace.toList ++ n.interopNamespace2.toList ++ n.interopDefault.toList

/--
The other names that are made for an entry; a namespace that is a declaration has the name of that.
-/
def own (n : ModuleNames) (e : MergeEntry) : List String :=
  n.internal.values ++ (if e.namespaceSymbol?.isSome then [] else n.namespaceObject.toList) ++
    n.externalName.toList

structure Fits (n : ModuleNames) (v : VisibilityMap) (e : MergeEntry) : Prop where
  declared : ∀ m, e = .concatenated m → ∀ d ∈ m.scope.declarations, (n.internal.get? d.name).isSome
  unseen : ∀ m, e = .concatenated m → ∀ symbol name, n.internal.get? symbol = some name →
    name ∉ NameOptions.declarationVisible v m symbol
  object : ∀ m, e = .concatenated m → n.namespaceObject.isSome
  symbol : ∀ symbol, e.namespaceSymbol? = some symbol → n.namespaceObject = n.internal.get? symbol
  external : ∀ x, e = .external x → n.externalName.isSome
  synthesized : ∀ name ∈ n.synthesized, name ∉ v.visibleNames e.module .module

structure Serves (n : ModuleNames) (shape : ExportShape) : Prop where
  interopNamespace : shape = .defaultWithNamed → n.interopNamespace.isSome
  interopNamespace2 : shape = .defaultOnly → n.interopNamespace2.isSome
  interopDefault : shape = .dynamic → n.interopDefault.isSome

end ModuleNames

def NameTable.given (t : NameTable) (es : List MergeEntry) : List String :=
  es.flatMap fun e => (t.module? e.module).elim [] fun n => n.own e ++ n.interop

theorem LinkError.ofGraph_eq_ok {α : Type} {x : Except GraphError α} {a : α}
    : LinkError.ofGraph x = .ok a ↔ x = .ok a := by
  cases x with
  | error e => simp [LinkError.ofGraph]
  | ok b => simp [LinkError.ofGraph]

namespace NameOptions

-- The search is only known to end with a free name; unfolding it on texts is slow.
attribute [local irreducible] findNewName

variable (o : NameOptions)

theorem allocateName_gives (al visible : List String) (readable old : String)
    : Gives al (o.allocateName al visible readable old).2 [(o.allocateName al visible readable old).1] := by
  have hfree := isFree_findNewName o.namespaceObjectName old ⟨al, visible⟩ readable
  rw [TakenNames.isFree_iff] at hfree
  unfold allocateName
  dsimp only
  apply Gives.one
  exact hfree.2.1

theorem allocateName_unseen (al visible : List String) (readable old : String)
    : (o.allocateName al visible readable old).1 ∉ visible := by
  have hfree := isFree_findNewName o.namespaceObjectName old ⟨al, visible⟩ readable
  rw [TakenNames.isFree_iff] at hfree
  unfold allocateName
  dsimp only
  exact hfree.2.2

theorem nameDeclaration_gives (al visible : List String) (readable name : String)
    : Gives al (o.nameDeclaration al visible readable name).2
        [(o.nameDeclaration al visible readable name).1] := by
  unfold nameDeclaration
  split
  · apply allocateName_gives
  next hfree =>
    apply Gives.one
    simp only [Bool.or_eq_true, List.contains_iff_mem] at hfree
    exact fun h => hfree (Or.inl h)

theorem nameDeclaration_unseen (al visible : List String) (readable name : String)
    : (o.nameDeclaration al visible readable name).1 ∉ visible := by
  unfold nameDeclaration
  split
  · apply allocateName_unseen
  next hfree =>
    simp only [Bool.or_eq_true, List.contains_iff_mem] at hfree
    exact fun h => hfree (Or.inr h)

structure Named (v : VisibilityMap) (m : Member) (al : List String) (ds : List Declaration)
    (state : Dict String String × List String) : Prop where
  gives : Gives al state.2 state.1.values
  declared : ∀ d ∈ ds, (state.1.get? d.name).isSome
  unseen : ∀ symbol name, state.1.get? symbol = some name → name ∉ declarationVisible v m symbol

theorem Named.step {v : VisibilityMap} {m : Member} {al : List String} {ds : List Declaration}
    {state : Dict String String × List String} (h : Named v m al ds state) (d : Declaration)
    (readable : String)
    : let named := o.nameDeclaration state.2 (declarationVisible v m d.name) readable d.name
      Named v m al (ds ++ [d]) (state.1.insert d.name named.1, named.2) where
  gives := h.gives.insert (o.nameDeclaration_gives _ _ _ _)
  declared := by
    intro d' hd'
    rw [Dict.get?_insert]
    split
    · rfl
    next hne =>
      rcases List.mem_append.1 hd' with hd' | hd'
      · exact h.declared d' hd'
      · rw [List.mem_singleton.1 hd'] at hne
        simp at hne
  unseen := by
    intro symbol name hname
    rw [Dict.get?_insert] at hname
    split at hname
    next heq =>
      cases hname
      rw [← eq_of_beq heq]
      apply nameDeclaration_unseen
    · exact h.unseen symbol name hname

theorem nameDeclarations_named (v : VisibilityMap) (m : Member) (readable : String) (al : List String)
    : Named v m al m.scope.declarations (o.nameDeclarations v m readable al) := by
  suffices ∀ (ds ds' : List Declaration) (state : Dict String String × List String),
      Named v m al ds state →
      Named v m al (ds ++ ds') (ds'.foldl (fun state d =>
        let named := o.nameDeclaration state.2 (declarationVisible v m d.name) readable d.name
        (state.1.insert d.name named.1, named.2)) state) by
    refine this [] m.scope.declarations (.empty, al) ?_
    exact ⟨Gives.nothing al, by simp, by simp⟩
  intro ds ds'
  induction ds' generalizing ds with
  | nil =>
    intro state h
    simpa using h
  | cons d ds' ih =>
    intro state h
    rw [List.foldl_cons]
    have := ih (ds ++ [d]) _ (h.step o d readable)
    simpa using this

theorem nameEntry_gives {v : VisibilityMap} {e : MergeEntry} {readable : String} {al al' : List String}
    {n : ModuleNames} (h : o.nameEntry v e readable al = .ok (n, al')) : Gives al al' (n.own e) := by
  unfold nameEntry at h
  dsimp only at h
  cases e with
  | concatenated m =>
    have hnamed := (o.nameDeclarations_named v m readable al).gives
    dsimp only at h
    split at h
    next hsymbol =>
      cases h
      simpa [ModuleNames.own, MergeEntry.namespaceSymbol?, hsymbol] using
        hnamed.append (o.allocateName_gives _ _ _ _)
    next symbol hsymbol =>
      split at h
      · cases h
      · cases h
        simpa [ModuleNames.own, MergeEntry.namespaceSymbol?, hsymbol] using hnamed
  | external x =>
    cases h
    exact o.allocateName_gives _ _ _ _

theorem nameEntry_fits {v : VisibilityMap} {e : MergeEntry} {readable : String} {al al' : List String}
    {n : ModuleNames} (h : o.nameEntry v e readable al = .ok (n, al')) : n.Fits v e := by
  unfold nameEntry at h
  dsimp only at h
  cases e with
  | concatenated m =>
    have hnamed := o.nameDeclarations_named v m readable al
    dsimp only at h
    split at h
    next hsymbol =>
      cases h
      refine ⟨?_, ?_, ?_, ?_, ?_, ?_⟩
      · rintro m' ⟨⟩
        exact hnamed.declared
      · rintro m' ⟨⟩
        exact hnamed.unseen
      · simp
      · simp [MergeEntry.namespaceSymbol?, hsymbol]
      · rintro x ⟨⟩
      · simpa [ModuleNames.synthesized, List.reduceOption_mem_iff] using o.allocateName_unseen _ _ _ _
    next symbol hsymbol =>
      split at h
      · cases h
      next name hname =>
        cases h
        have hunseen := hnamed.unseen symbol name hname
        unfold declarationVisible at hunseen
        simp only [hsymbol, if_true, List.mem_append, not_or] at hunseen
        refine ⟨?_, ?_, ?_, ?_, ?_, ?_⟩
        · rintro m' ⟨⟩
          exact hnamed.declared
        · rintro m' ⟨⟩
          exact hnamed.unseen
        · simp
        · simp [MergeEntry.namespaceSymbol?, hsymbol, hname]
        · rintro x ⟨⟩
        · simpa [ModuleNames.synthesized, List.reduceOption_mem_iff, MergeEntry.module] using hunseen.2
  | external x =>
    cases h
    refine ⟨?_, ?_, ?_, ?_, ?_, ?_⟩
    · rintro m ⟨⟩
    · rintro m ⟨⟩
    · rintro m ⟨⟩
    · simp [MergeEntry.namespaceSymbol?]
    · simp
    · simpa [ModuleNames.synthesized, List.reduceOption_mem_iff] using o.allocateName_unseen _ _ _ _

theorem allocateIf_gives (needed : Bool) (al visible : List String) (readable old : String)
    : Gives al (o.allocateIf needed al visible readable old).2
        (o.allocateIf needed al visible readable old).1.toList := by
  unfold allocateIf
  split
  · apply allocateName_gives
  · exact Gives.nothing al

theorem allocateIf_unseen (needed : Bool) (al visible : List String) (readable old : String)
    : ∀ name ∈ (o.allocateIf needed al visible readable old).1, name ∉ visible := by
  unfold allocateIf
  split
  · intro name hname
    cases hname
    apply allocateName_unseen
  · simp

theorem allocateIf_isSome (al visible : List String) (readable old : String)
    : (o.allocateIf true al visible readable old).1.isSome := rfl

theorem nameInterop_gives (shapes : List ExportShape) (visible : List String) (readable : String)
    (n : ModuleNames) (al : List String)
    : Gives al (o.nameInterop shapes visible readable n al).2
        (o.nameInterop shapes visible readable n al).1.interop := by
  unfold nameInterop ModuleNames.interop
  dsimp only
  apply Gives.append
  · apply Gives.append
    · apply allocateIf_gives
    · apply allocateIf_gives
  · apply allocateIf_gives

theorem nameInterop_own (shapes : List ExportShape) (visible : List String) (readable : String)
    (n : ModuleNames) (al : List String) (e : MergeEntry)
    : (o.nameInterop shapes visible readable n al).1.own e = n.own e := rfl

theorem nameInterop_fits {v : VisibilityMap} {e : MergeEntry} {n : ModuleNames} (h : n.Fits v e)
    (shapes : List ExportShape) (readable : String) (al : List String)
    : (o.nameInterop shapes (v.visibleNames e.module .module) readable n al).1.Fits v e :=
  { h with
    synthesized := by
      intro name hname
      have hold := h.synthesized name
      simp only [ModuleNames.synthesized, List.reduceOption_mem_iff, List.mem_cons] at hname hold
      rcases hname with hname | hname | hname | hname | hname | hname
      · exact hold (Or.inl hname)
      · exact hold (Or.inr (Or.inl hname))
      · exact o.allocateIf_unseen _ _ _ _ _ _ hname.symm
      · exact o.allocateIf_unseen _ _ _ _ _ _ hname.symm
      · exact o.allocateIf_unseen _ _ _ _ _ _ hname.symm
      · cases hname }

theorem nameInterop_serves {shapes : List ExportShape} {shape : ExportShape} (h : shape ∈ shapes)
    (visible : List String) (readable : String) (n : ModuleNames) (al : List String)
    : (o.nameInterop shapes visible readable n al).1.Serves shape := by
  unfold nameInterop
  dsimp only
  refine ⟨?_, ?_, ?_⟩
  · rintro rfl
    rw [List.contains_iff_mem.2 h]
    apply allocateIf_isSome
  · rintro rfl
    rw [List.contains_iff_mem.2 h]
    apply allocateIf_isSome
  · rintro rfl
    rw [List.contains_iff_mem.2 h]
    apply allocateIf_isSome

structure Allocated (g : Graph) (v : VisibilityMap) (taken : List String) (done : List MergeEntry)
    (state : NameTable × List String) : Prop where
  gives : Gives taken state.2 (state.1.given done)
  names : ∀ e ∈ done, ∃ n, state.1.module? e.module = some n ∧ n.Fits v e ∧
    ∀ strict, ∃ shape, g.shape e.module strict = .ok shape ∧ n.Serves shape

variable {o} {g : Graph} {v : VisibilityMap} {taken : List String} {done : List MergeEntry}

theorem allocateEntry_ok {state state' : NameTable × List String} {e : MergeEntry}
    (h : o.allocateEntry g v state e = .ok state')
    : ∃ n, state'.1 = ⟨state.1.modules.insert e.module n⟩ ∧
        Gives state.2 state'.2 (n.own e ++ n.interop) ∧ n.Fits v e ∧
        ∀ strict, ∃ shape, g.shape e.module strict = .ok shape ∧ n.Serves shape := by
  unfold allocateEntry at h
  simp only [bind_eq_ok, LinkError.ofGraph_eq_ok] at h
  obtain ⟨module, _, ⟨n, al⟩, hn, lenient, hlenient, strict, hstrict, h⟩ := h
  cases h
  refine ⟨_, rfl, ?_, o.nameInterop_fits (o.nameEntry_fits hn) _ _ _, ?_⟩
  · rw [nameInterop_own]
    exact (o.nameEntry_gives hn).append (o.nameInterop_gives _ _ _ _ _)
  · rintro (_ | _)
    · exact ⟨lenient, hlenient, o.nameInterop_serves (by simp) _ _ _ _⟩
    · exact ⟨strict, hstrict, o.nameInterop_serves (by simp) _ _ _ _⟩

theorem module?_insert (t : NameTable) (id id' : ModuleId) (n : ModuleNames)
    : NameTable.module? ⟨t.modules.insert id n⟩ id' = if id == id' then some n else t.module? id' := by
  apply Dict.get?_insert

theorem Allocated.step {state state' : NameTable × List String} (hdone : Allocated g v taken done state)
    {e : MergeEntry} (hnew : ∀ e' ∈ done, (e.module == e'.module) = false)
    (h : o.allocateEntry g v state e = .ok state') : Allocated g v taken (done ++ [e]) state' := by
  obtain ⟨n, htable, hgives, hfits, hserves⟩ := allocateEntry_ok h
  have hsame : ∀ e' ∈ done, state'.1.module? e'.module = state.1.module? e'.module := by
    intro e' he'
    rw [htable, module?_insert, hnew e' he']
    simp
  have hown : state'.1.module? e.module = some n := by
    rw [htable, module?_insert]
    simp
  constructor
  · have : state'.1.given (done ++ [e]) = state.1.given done ++ (n.own e ++ n.interop) := by
      unfold NameTable.given
      rw [List.flatMap_append, List.flatMap_singleton, hown]
      congr 1
      apply List.flatMap_congr
      intro e' he'
      rw [hsame e' he']
    rw [this]
    exact hdone.gives.append hgives
  · intro e' he'
    rcases List.mem_append.1 he' with he' | he'
    · rw [hsame e' he']
      exact hdone.names e' he'
    · rw [List.mem_singleton.1 he']
      exact ⟨n, hown, hfits, hserves⟩

theorem Allocated.run {es : List MergeEntry} {state state' : NameTable × List String}
    (hes : MergeEntry.Distinct (done ++ es)) (hdone : Allocated g v taken done state)
    (h : es.foldlM (o.allocateEntry g v) state = .ok state') : Allocated g v taken (done ++ es) state' := by
  induction es generalizing done state with
  | nil =>
    cases h
    simpa using hdone
  | cons e es ih =>
    rw [List.foldlM_cons, bind_eq_ok] at h
    obtain ⟨next, hnext, h⟩ := h
    have hnew : ∀ e' ∈ done, (e.module == e'.module) = false := by
      intro e' he'
      rw [BEq.comm]
      exact (List.pairwise_append.1 hes).2.2 e' he' e List.mem_cons_self
    have := ih (by simpa using hes) (hdone.step hnew hnext) h
    simpa using this

def takenFor (o : NameOptions) (s : MergeSet) : List String :=
  o.reserved ++ s.members.flatMap (·.scope.globals)

theorem mem_takenFor {s : MergeSet} {name : String}
    : name ∈ o.takenFor s
        ↔
      name ∈ ModuleLink.reservedNames ∨ name ∈ o.reservedNames ∨ name = defaultExportSymbol ∨
        name = namespaceObjectSymbol ∨ ∃ m ∈ s.members, name ∈ m.scope.globals := by
  unfold takenFor reserved
  simp only [List.mem_append, List.mem_cons, List.mem_flatMap, List.not_mem_nil]
  tauto

theorem allocate_allocated {s : MergeSet} (hs : s.Built) {t : NameTable} (h : o.allocate g s = .ok t)
    : ∃ al, Allocated g s.visibility (o.takenFor s) s.entries (t, al) := by
  unfold allocate at h
  rw [bind_eq_ok] at h
  obtain ⟨⟨t', al⟩, hrun, h⟩ := h
  cases h
  have hstart : Allocated g s.visibility (o.takenFor s) [] ({}, o.takenFor s) :=
    ⟨Gives.nothing _, by simp⟩
  exact ⟨al, Allocated.run (by simpa using hs.indexed.distinct) hstart hrun⟩

/--
Names are given at most once, and no reserved name or free name of a member is given. A namespace that is a declaration
has the name of that declaration.
-/
theorem allocate_injective (o : NameOptions) (g : Graph) (s : MergeSet) (hs : s.Built) (t : NameTable)
    (h : o.allocate g s = .ok t)
    : (t.given s.entries).Nodup
        ∧
      (∀ name ∈ t.given s.entries,
        name ∉ ModuleLink.reservedNames ∧ name ∉ o.reservedNames ∧
        name ≠ defaultExportSymbol ∧ name ≠ namespaceObjectSymbol ∧
        ∀ m ∈ s.members, name ∉ m.scope.globals)
        ∧
      (∀ m ∈ s.members, ∀ d ∈ m.scope.declarations, (t.internalName? m.module d.name).isSome)
        ∧
      ∀ m ∈ s.members, ∀ symbol, m.namespaceSymbol = some symbol →
        ∃ n, t.module? m.module = some n ∧ n.namespaceObject.isSome ∧
          n.namespaceObject = t.internalName? m.module symbol := by
  obtain ⟨al, hgives, hnames⟩ := allocate_allocated hs h
  refine ⟨hgives.nodup, ?_, ?_, ?_⟩
  · intro name hname
    have hfresh := hgives.fresh name hname
    rw [mem_takenFor] at hfresh
    push Not at hfresh
    exact hfresh
  · intro m hm d hd
    obtain ⟨n, hn, hfits, -⟩ := hnames _ (MergeSet.mem_members.1 hm)
    unfold NameTable.internalName?
    rw [show t.module? m.module = some n from hn]
    exact hfits.declared m rfl d hd
  · intro m hm symbol hsymbol
    obtain ⟨n, hn, hfits, -⟩ := hnames _ (MergeSet.mem_members.1 hm)
    refine ⟨n, hn, hfits.object m rfl, ?_⟩
    unfold NameTable.internalName?
    rw [show t.module? m.module = some n from hn]
    exact hfits.symbol symbol hsymbol

end NameOptions

namespace Sample

/-!
Two members that declare the name `value`, with an external module between them. An inner scope of either
member hides names that would be tried, and the second member reads a free name.
-/

def a : ModuleId := ⟨"./a"⟩
def b : ModuleId := ⟨"./b"⟩
def c : ModuleId := ⟨"./c"⟩

def graph : Graph :=
  .ofModules [{ id := a, buildMeta := { exportsType := some .namespaced } }, { id := b }, { id := c }]

def first : Member where
  module := a
  exports := .ofList [("v", "value")]
  scope := (({} : ModuleScope).addScope none ["value"]).declare "value" [⟨1⟩]

def second : Member where
  module := c
  namespaceSymbol := some "value"
  scope := ({} : ModuleScope)
    |>.addScope (some ⟨0⟩) ["a_value"]
    |>.addScope (some ⟨1⟩) ["b"]
    |>.declare "value" [⟨2⟩]
    |>.referenceImport a (.symbol "value") [⟨2⟩]
    |>.referenceImport b .module [⟨2⟩]
    |>.addGlobal "b_default"

def set : MergeSet where
  root := c
  runtime := none
  toEntryTable := .ofFirst [.concatenated first, .external { module := b }, .concatenated second]

def table : NameTable where
  modules := .ofList [
    (a, { internal := .ofList [("value", "a_value_0")], namespaceObject := some "a_namespaceObject" }),
    (b, { externalName := some "b_0", interopNamespace := some "b_namespaceObject",
          interopDefault := some "b_default_0" }),
    (c, { internal := .ofList [("value", "value")], namespaceObject := some "value",
          interopNamespace := some "c_namespaceObject", interopDefault := some "c_default" })]

theorem built : set.Built := .ofEntries c none set.entries (by decide +kernel)

theorem allocates : ({} : NameOptions).allocate graph set = .ok table := by decide +kernel

end Sample

theorem NameOptions.allocate_injective_sample
    : ({} : NameOptions).allocate Sample.graph Sample.set = .ok Sample.table
        ∧
      "b_default" ∈ Sample.second.scope.globals
        ∧
      "b_default" ∉ Sample.table.given Sample.set.entries
        ∧
      (Sample.table.given Sample.set.entries).Nodup := by
  have hinjective := allocate_injective {} Sample.graph Sample.set Sample.built Sample.table Sample.allocates
  refine ⟨Sample.allocates, by decide +kernel, ?_, hinjective.1⟩
  intro hgiven
  obtain ⟨-, -, -, -, hglobals⟩ := hinjective.2.1 _ hgiven
  exact hglobals Sample.second (by decide +kernel) (by decide +kernel)

end ModuleLink
