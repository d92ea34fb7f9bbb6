import ModuleLink.Proofs.Rename.Allocation
import ModuleLink.Proofs.Rename.ScopeWalk

/-!
This module contains the proof that no given name is captured where it is referred to. The walk that collects
the visible names stops at scopes that were walked through before. It misses nothing, since everything above
such a scope was collected then: the scopes that were walked through are closed under going outwards.
-/

namespace ModuleLink
namespace ModuleScope

inductive Meets (s : ModuleScope) (start : ScopeId) : ScopeId → Prop where
  | start : start ≠ s.moduleScope → s.Meets start start
  | upper {id up : ScopeId} : s.Meets start id → s.upper? id = some up → up ≠ s.moduleScope →
      s.Meets start up

def Sees (s : ModuleScope) (start : ScopeId) (name : String) : Prop :=
  ∃ id scope, s.Meets start id ∧ s.scope? id = some scope ∧ name ∈ scope.names

end ModuleScope

namespace Visibility

variable {scopeOf : ModuleId → ModuleScope}

/--
The names of all scopes that were walked through were collected, and so was all that is above them, as soon as the
scopes in `rest` are walked through.
-/
def Closed (scopeOf : ModuleId → ModuleScope) (rest : List (ModuleId × ScopeId)) (v : Visibility) : Prop :=
  ∀ owner id, v.checked.contains (owner, id) →
    ∀ scope, (scopeOf owner).scope? id = some scope →
      scope.names ⊆ v.names ∧
      ∀ up, scope.upper = some up → up ≠ (scopeOf owner).moduleScope →
        v.checked.contains (owner, up) ∨ rest.contains (owner, up)

structure Extends (v v' : Visibility) : Prop where
  names : v.names ⊆ v'.names
  checked : ∀ p, v.checked.contains p → v'.checked.contains p

theorem Extends.refl (v : Visibility) : v.Extends v := ⟨List.Subset.refl _, fun _ h => h⟩

theorem Extends.trans {v v' v'' : Visibility} (h : v.Extends v') (h' : v'.Extends v'') : v.Extends v'' :=
  ⟨List.Subset.trans h.names h'.names, fun p hp => h'.checked p (h.checked p hp)⟩

theorem closed_empty : Closed scopeOf [] {} := by
  intro owner id hid
  cases hid

theorem Closed.weaken {v : Visibility} (h : v.Closed scopeOf []) (rest : List (ModuleId × ScopeId))
    : v.Closed scopeOf rest := by
  intro owner id hid scope hscope
  have ⟨hnames, hupper⟩ := h owner id hid scope hscope
  refine ⟨hnames, ?_⟩
  intro up hup hne
  cases hupper up hup hne with
  | inl hchecked => exact Or.inl hchecked
  | inr hrest => cases hrest

section

variable (hscopeOf : ∀ a b, a == b → scopeOf a = scopeOf b) {v : Visibility} {owner : ModuleId} {id : ScopeId}
include hscopeOf

theorem Closed.stop (h : v.Closed scopeOf [(owner, id)])
    (hstop : id = (scopeOf owner).moduleScope ∨ v.checked.contains (owner, id)) : v.Closed scopeOf [] := by
  intro owner' id' hid' scope hscope
  have ⟨hnames, hupper⟩ := h owner' id' hid' scope hscope
  refine ⟨hnames, ?_⟩
  intro up hup hne
  cases hupper up hup hne with
  | inl hchecked => exact Or.inl hchecked
  | inr hrest =>
    have hnext : (owner', up) == (owner, id) := by simpa using hrest
    cases hstop with
    | inl hmodule =>
      rw [prod_beq, Bool.and_eq_true] at hnext
      rw [hscopeOf _ _ hnext.1, ← hmodule] at hne
      exact absurd (eq_of_beq hnext.2) hne
    | inr hchecked =>
      rw [contains_congr hnext]
      exact Or.inl hchecked

theorem Closed.pass (h : v.Closed scopeOf [(owner, id)]) (names : List String)
    (rest : List (ModuleId × ScopeId))
    (hpass : ∀ scope, (scopeOf owner).scope? id = some scope →
      scope.names ⊆ names ∧ ∀ up, scope.upper = some up → rest.contains (owner, up))
    : Closed scopeOf rest ⟨v.names ++ names, (owner, id) :: v.checked⟩ := by
  intro owner' id' hid' scope hscope
  rw [List.contains_cons, Bool.or_eq_true] at hid'
  cases hid' with
  | inl hhere =>
    rw [prod_beq, Bool.and_eq_true] at hhere
    rw [hscopeOf _ _ hhere.1, eq_of_beq hhere.2] at hscope
    have ⟨hnames, hupper⟩ := hpass scope hscope
    refine ⟨List.subset_append_of_subset_right _ hnames, ?_⟩
    intro up hup hne
    have : (owner', up) == (owner, up) := by
      rw [prod_beq, hhere.1, BEq.rfl]
      rfl
    rw [contains_congr this rest]
    exact Or.inr (hupper up hup)
  | inr hbefore =>
    have ⟨hnames, hupper⟩ := h owner' id' hbefore scope hscope
    refine ⟨List.subset_append_of_subset_left _ hnames, ?_⟩
    intro up hup hne
    left
    rw [List.contains_cons, Bool.or_eq_true]
    cases hupper up hup hne with
    | inl hchecked => exact Or.inr hchecked
    | inr hrest => exact Or.inl (by simpa using hrest)

end

theorem Extends.pass (v : Visibility) (owner : ModuleId) (id : ScopeId) (names : List String)
    : v.Extends ⟨v.names ++ names, (owner, id) :: v.checked⟩ where
  names := List.subset_append_left _ _
  checked := by
    intro p hp
    rw [List.contains_cons, hp, Bool.or_true]

theorem contains_checked_self (checked : List (ModuleId × ScopeId)) (owner : ModuleId) (id : ScopeId)
    : List.contains ((owner, id) :: checked) (owner, id) := by
  rw [List.contains_cons, BEq.rfl, Bool.true_or]

theorem Walks.closed (hscopeOf : ∀ a b, a == b → scopeOf a = scopeOf b) {owner : ModuleId} {v v' : Visibility}
    {id : ScopeId} (h : Walks owner (scopeOf owner) v id v') (hv : v.Closed scopeOf [(owner, id)])
    : v.Extends v'
        ∧
      v'.Closed scopeOf []
        ∧
      (id = (scopeOf owner).moduleScope ∨ v'.checked.contains (owner, id)) := by
  induction h with
  | stop hstop => exact ⟨Extends.refl _, hv.stop hscopeOf hstop, hstop⟩
  | @missing v id hgo hmissing =>
    have hextends := Extends.pass v owner id []
    have hclosed := hv.pass hscopeOf [] [] (by simp [hmissing])
    rw [List.append_nil] at hextends hclosed
    exact ⟨hextends, hclosed, .inr (contains_checked_self ..)⟩
  | @last v id inner hgo hinner hroot =>
    have hclosed := hv.pass hscopeOf inner.names [] (by simp [hinner, hroot])
    exact ⟨Extends.pass .., hclosed, .inr (contains_checked_self ..)⟩
  | @next v v' id up inner hgo hinner hup _ ih =>
    have hclosed := hv.pass hscopeOf inner.names [(owner, up)] (by simp [hinner, hup])
    have ⟨hextends, hclosed', _⟩ := ih hclosed
    exact ⟨(Extends.pass ..).trans hextends, hclosed', .inr (hextends.checked _ (contains_checked_self ..))⟩

theorem Closed.names_of_sees {v : Visibility} (h : v.Closed scopeOf []) {owner : ModuleId} {start : ScopeId}
    (hstart : start = (scopeOf owner).moduleScope ∨ v.checked.contains (owner, start)) {name : String}
    (hsees : (scopeOf owner).Sees start name) : name ∈ v.names := by
  obtain ⟨id, scope, hmeets, hscope, hname⟩ := hsees
  have hchecked : v.checked.contains (owner, id) := by
    clear hscope
    induction hmeets with
    | start hne =>
      cases hstart with
      | inl heq => contradiction
      | inr hchecked => exact hchecked
    | upper _ hup hne ih =>
      unfold ModuleScope.upper? at hup
      obtain ⟨inner, hinner, hup⟩ := Option.bind_eq_some_iff.1 hup
      cases (h owner _ ih inner hinner).2 _ hup hne with
      | inl hchecked => exact hchecked
      | inr hrest => cases hrest
  exact (h owner id hchecked scope hscope).1 hname

theorem addScopeChain_closed (hscopeOf : ∀ a b, a == b → scopeOf a = scopeOf b) {v : Visibility}
    (hv : v.Closed scopeOf []) (owner : ModuleId) (start : ScopeId)
    : v.Extends (v.addScopeChain owner (scopeOf owner) start)
        ∧
      Closed scopeOf [] (v.addScopeChain owner (scopeOf owner) start)
        ∧
      ∀ name, (scopeOf owner).Sees start name →
        name ∈ (v.addScopeChain owner (scopeOf owner) start).names := by
  have ⟨hextends, hclosed, hstart⟩ := (walks_iff.2 rfl).closed hscopeOf (hv.weaken [(owner, start)])
  exact ⟨hextends, hclosed, fun name hsees => hclosed.names_of_sees hstart hsees⟩

theorem addReferences_closed (hscopeOf : ∀ a b, a == b → scopeOf a = scopeOf b) {v : Visibility}
    (hv : v.Closed scopeOf []) (owner : ModuleId) (references : List ScopeId)
    : v.Extends (v.addReferences owner (scopeOf owner) references)
        ∧
      Closed scopeOf [] (v.addReferences owner (scopeOf owner) references)
        ∧
      ∀ r ∈ references, ∀ name, (scopeOf owner).Sees r name →
        name ∈ (v.addReferences owner (scopeOf owner) references).names := by
  unfold addReferences
  induction references generalizing v with
  | nil => exact ⟨Extends.refl v, hv, by simp⟩
  | cons r rs ih =>
    have ⟨hextends, hclosed, hnames⟩ := addScopeChain_closed hscopeOf hv owner r
    have ⟨hextends', hclosed', hnames'⟩ := ih hclosed
    refine ⟨hextends.trans hextends', hclosed', ?_⟩
    intro r' hr' name hsees
    rcases List.mem_cons.1 hr' with rfl | hr'
    · exact hextends'.names (hnames name hsees)
    · exact hnames' r' hr' name hsees

end Visibility

namespace MergeSet

def scopeOf (s : MergeSet) (id : ModuleId) : ModuleScope :=
  match s.get? id with
  | some (.concatenated m) => m.scope
  | _ => {}

theorem scopeOf_congr (s : MergeSet) (a b : ModuleId) (h : a == b) : s.scopeOf a = s.scopeOf b := by
  unfold scopeOf
  rw [EntryTable.get?_congr h]

theorem Built.scopeOf {s : MergeSet} (hs : s.Built) {m : Member} (hm : m ∈ s.members)
    : s.scopeOf m.module = m.scope := by
  unfold MergeSet.scopeOf
  rw [hs.get?_member hm BEq.rfl]

end MergeSet

namespace VisibilityMap

variable {s : MergeSet} {vm vm' vm'' : VisibilityMap}

def Sound (s : MergeSet) (vm : VisibilityMap) : Prop :=
  ∀ key v, Dict.get? vm key = some v → v.Closed s.scopeOf []

structure Grows (s : MergeSet) (vm vm' : VisibilityMap) : Prop where
  sound : vm'.Sound s
  names : ∀ id b, vm.visibleNames id b ⊆ vm'.visibleNames id b

theorem Grows.trans (h : Grows s vm vm') (h' : Grows s vm' vm'') : Grows s vm vm'' :=
  ⟨h'.sound, fun id b => List.Subset.trans (h.names id b) (h'.names id b)⟩

def Covers (vm : VisibilityMap) (owner : Member) (target : ModuleId) (b : ImportedBinding)
    (references : List ScopeId) : Prop :=
  ∀ r ∈ references, ∀ name, owner.scope.Sees r name → name ∈ vm.visibleNames target b

theorem Covers.grows {owner : Member} {target : ModuleId} {b : ImportedBinding} {references : List ScopeId}
    (h : vm.Covers owner target b references) (hgrows : Grows s vm vm')
    : vm'.Covers owner target b references :=
  fun r hr name hsees => hgrows.names target b (h r hr name hsees)

theorem visibleNames_insert (vm : VisibilityMap) (key : ModuleId × ImportedBinding) (v : Visibility)
    (id : ModuleId) (b : ImportedBinding)
    : visibleNames (Dict.insert vm key v) id b
        =
      if key == (id, b) then v.names else vm.visibleNames id b := by
  unfold visibleNames
  rw [Dict.get?_insert]
  split
  · rfl
  · rfl

theorem visibleNames_congr (vm : VisibilityMap) {a a' : ModuleId} (h : a == a') (b : ImportedBinding)
    : vm.visibleNames a b = vm.visibleNames a' b := by
  unfold visibleNames
  have : (a, b) == (a', b) := by
    rw [prod_beq, h, BEq.rfl]
    rfl
  rw [Dict.get?_congr this]

theorem addReferences_grows (hs : s.Built) (hvm : vm.Sound s) {owner : Member} (howner : owner ∈ s.members)
    (target : ModuleId) (b : ImportedBinding) (references : List ScopeId)
    : Grows s vm (vm.addReferences target b owner references)
        ∧
      (vm.addReferences target b owner references).Covers owner target b references := by
  have hbefore : ((Dict.get? vm (target, b)).getD {}).Closed s.scopeOf [] := by
    cases hget : Dict.get? vm (target, b) with
    | none => exact Visibility.closed_empty
    | some v => exact hvm _ _ hget
  have ⟨hextends, hclosed, hnames⟩ :=
    Visibility.addReferences_closed s.scopeOf_congr hbefore owner.module references
  rw [hs.scopeOf howner] at hextends hclosed hnames
  unfold addReferences
  refine ⟨⟨?_, ?_⟩, ?_⟩
  · intro key v hget
    rw [Dict.get?_insert] at hget
    split at hget
    · cases hget
      exact hclosed
    · exact hvm key v hget
  · intro id b'
    rw [visibleNames_insert]
    split
    next heq =>
      unfold visibleNames
      rw [← Dict.get?_congr heq]
      refine List.Subset.trans ?_ hextends.names
      cases Dict.get? vm (target, b) with
      | none => exact List.nil_subset _
      | some v => exact List.Subset.refl _
    · exact List.Subset.refl _
  · intro r hr name hsees
    rw [visibleNames_insert]
    simp only [BEq.rfl, if_true]
    exact hnames r hr name hsees

theorem foldl_grows {α : Type} (f : VisibilityMap → α → VisibilityMap) (holds : VisibilityMap → α → Prop)
    (as : List α)
    (hmono : ∀ vm vm' a, holds vm a → Grows s vm vm' → holds vm' a)
    (hstep : ∀ vm, ∀ a ∈ as, vm.Sound s → Grows s vm (f vm a) ∧ holds (f vm a) a)
    (hvm : vm.Sound s) : Grows s vm (as.foldl f vm) ∧ ∀ a ∈ as, holds (as.foldl f vm) a := by
  induction as generalizing vm with
  | nil => exact ⟨⟨hvm, fun _ _ => List.Subset.refl _⟩, by simp⟩
  | cons a as ih =>
    have ⟨hgrows, ha⟩ := hstep vm a List.mem_cons_self hvm
    have ⟨hgrows', has⟩ :=
      ih (fun vm a ha => hstep vm a (List.mem_cons_of_mem _ ha)) hgrows.sound
    refine ⟨hgrows.trans hgrows', ?_⟩
    intro a' ha'
    rcases List.mem_cons.1 ha' with rfl | ha'
    · exact hmono _ _ _ ha hgrows'
    · exact has a' ha'

end VisibilityMap

namespace MergeSet

structure Covered (s : MergeSet) (vm : VisibilityMap) (m : Member) : Prop where
  declarations : ∀ d ∈ m.scope.declarations, vm.Covers m m.module (.symbol d.name) d.references
  imports : ∀ i ∈ m.scope.imports, ∀ b, s.importedAs? i = some b → vm.Covers m i.target b i.references

variable {s : MergeSet}

theorem addImportVisibility_grows (hs : s.Built) {vm : VisibilityMap} (hvm : vm.Sound s) {m : Member}
    (hm : m ∈ s.members) (i : ImportReference)
    : vm.Grows s (s.addImportVisibility m vm i) ∧
        ∀ b, s.importedAs? i = some b → (s.addImportVisibility m vm i).Covers m i.target b i.references := by
  unfold addImportVisibility
  cases s.importedAs? i with
  | none => exact ⟨⟨hvm, fun _ _ => List.Subset.refl _⟩, by simp⟩
  | some b =>
    have ⟨hgrows, hcovers⟩ := VisibilityMap.addReferences_grows hs hvm hm i.target b i.references
    refine ⟨hgrows, ?_⟩
    rintro b' ⟨⟩
    exact hcovers

theorem addMemberVisibility_grows (hs : s.Built) {vm : VisibilityMap} (hvm : vm.Sound s) {m : Member}
    (hm : m ∈ s.members)
    : vm.Grows s (s.addMemberVisibility vm m) ∧ s.Covered (s.addMemberVisibility vm m) m := by
  unfold addMemberVisibility
  have ⟨hgrows, hdeclarations⟩ := VisibilityMap.foldl_grows
    (fun (v : VisibilityMap) (d : Declaration) =>
      v.addReferences m.module (.symbol d.name) m d.references)
    (fun vm d => vm.Covers m m.module (.symbol d.name) d.references) m.scope.declarations
    (fun _ _ _ h hgrows => h.grows hgrows)
    (fun vm d _ hvm => VisibilityMap.addReferences_grows hs hvm hm _ _ _) hvm
  have ⟨hgrows', himports⟩ := VisibilityMap.foldl_grows
    (s.addImportVisibility m)
    (fun vm i => ∀ b, s.importedAs? i = some b → vm.Covers m i.target b i.references) m.scope.imports
    (fun _ _ _ h hgrows b hb => (h b hb).grows hgrows)
    (fun vm i _ hvm => addImportVisibility_grows hs hvm hm i) hgrows.sound
  exact ⟨hgrows.trans hgrows', fun d hd => (hdeclarations d hd).grows hgrows', himports⟩

theorem visibility_covered (hs : s.Built) {m : Member} (hm : m ∈ s.members) : s.Covered s.visibility m := by
  have hempty : VisibilityMap.Sound s .empty := by
    intro key v h
    cases h
  have ⟨_, hcovered⟩ := VisibilityMap.foldl_grows s.addMemberVisibility s.Covered s.members
    (by
      intro vm vm' m h hgrows
      exact ⟨fun d hd => (h.declarations d hd).grows hgrows,
        fun i hi b hb => (h.imports i hi b hb).grows hgrows⟩)
    (fun vm m hm hvm => addMemberVisibility_grows hs hvm hm) hempty
  exact hcovered m hm

theorem importedAs?_member (hs : s.Built) {m : Member} (hm : m ∈ s.members) {i : ImportReference}
    (hi : i.target == m.module) : s.importedAs? i = some i.binding := by
  unfold importedAs?
  rw [hs.get?_member hm (BEq.symm hi)]

theorem importedAs?_module (hs : s.Built) {e : MergeEntry} (he : e ∈ s.entries) {i : ImportReference}
    (hi : i.target == e.module) (hmodule : i.binding = .module ∨ e.isConcatenated = false)
    : s.importedAs? i = some .module := by
  unfold importedAs?
  rw [hs.indexed.get?_of_mem he (BEq.symm hi)]
  cases e with
  | concatenated m =>
    cases hmodule with
    | inl h => simp [h]
    | inr h => cases h
  | external x => rfl

end MergeSet

namespace NameOptions

/--
The name of a declaration is not declared in a scope that is met on the way outwards from a reference to it, be it in
its own module or in one that imports it. The same holds of the other names of an entry and the references to the entry
as a whole.
-/
theorem allocate_avoids_capture (o : NameOptions) (g : Graph) (s : MergeSet) (hs : s.Built) (t : NameTable)
    (h : o.allocate g s = .ok t)
    : (∀ m ∈ s.members, ∀ d ∈ m.scope.declarations,
        ∃ name, t.internalName? m.module d.name = some name ∧
          (∀ r ∈ d.references, ¬ m.scope.Sees r name) ∧
          ∀ importer ∈ s.members, ∀ i ∈ importer.scope.imports,
            i.target == m.module → i.binding = .symbol d.name →
              ∀ r ∈ i.references, ¬ importer.scope.Sees r name)
        ∧
      ∀ e ∈ s.entries,
        ∃ n, t.module? e.module = some n ∧
          ∀ name ∈ n.synthesized, ∀ importer ∈ s.members, ∀ i ∈ importer.scope.imports,
            i.target == e.module → i.binding = .module ∨ e.isConcatenated = false →
              ∀ r ∈ i.references, ¬ importer.scope.Sees r name := by
  obtain ⟨al, _, hnames⟩ := allocate_allocated hs h
  constructor
  · intro m hm d hd
    obtain ⟨n, hn, hfits, -⟩ := hnames _ (MergeSet.mem_members.1 hm)
    obtain ⟨name, hname⟩ := Option.isSome_iff_exists.1 (hfits.declared m rfl d hd)
    have hunseen : name ∉ s.visibility.visibleNames m.module (.symbol d.name) := by
      have := hfits.unseen m rfl d.name name hname
      unfold declarationVisible at this
      split at this
      · exact fun hmem => this (List.mem_append_left _ hmem)
      · exact this
    refine ⟨name, ?_, ?_, ?_⟩
    · unfold NameTable.internalName?
      rw [show t.module? m.module = some n from hn]
      exact hname
    · intro r hr hsees
      exact hunseen ((s.visibility_covered hs hm).declarations d hd r hr name hsees)
    · intro importer himporter i hi htarget hbinding r hr hsees
      have himported := MergeSet.importedAs?_member hs hm htarget
      have := (s.visibility_covered hs himporter).imports i hi _ himported r hr name hsees
      rw [hbinding, VisibilityMap.visibleNames_congr _ htarget] at this
      exact hunseen this
  · intro e he
    obtain ⟨n, hn, hfits, -⟩ := hnames e he
    refine ⟨n, hn, ?_⟩
    intro name hname importer himporter i hi htarget hmodule r hr hsees
    have himported := MergeSet.importedAs?_module hs he htarget hmodule
    have := (s.visibility_covered hs himporter).imports i hi _ himported r hr name hsees
    rw [VisibilityMap.visibleNames_congr _ htarget] at this
    exact hfits.synthesized name hname this

end NameOptions

theorem NameOptions.allocate_avoids_capture_sample
    : ({} : NameOptions).allocate Sample.graph Sample.set = .ok Sample.table
        ∧
      Sample.table.internalName? Sample.a "value" = some "a_value_0"
        ∧
      Sample.second.scope.Sees ⟨2⟩ "a_value"
        ∧
      ¬ Sample.second.scope.Sees ⟨2⟩ "a_value_0" := by
  have hcapture := allocate_avoids_capture {} Sample.graph Sample.set Sample.built Sample.table Sample.allocates
  have hvalue : Sample.table.internalName? Sample.a "value" = some "a_value_0" := by decide +kernel
  refine ⟨Sample.allocates, hvalue, ?_, ?_⟩
  · refine ⟨⟨1⟩, ⟨some ⟨0⟩, ["a_value"]⟩, ?_, by decide +kernel, by decide⟩
    exact .upper (.start (by decide)) (by decide +kernel) (by decide)
  · obtain ⟨name, hname, -, himports⟩ :=
      hcapture.1 Sample.first (by decide +kernel) ⟨"value", [⟨1⟩]⟩ (by decide +kernel)
    cases hvalue.symm.trans hname
    exact himports Sample.second (by decide +kernel) ⟨Sample.a, .symbol "value", [⟨2⟩]⟩ (by decide +kernel)
      (by decide +kernel) rfl ⟨2⟩ (by decide)

end ModuleLink
