import ModuleLink.Proofs.Binding.Agreement
import ModuleLink.Proofs.Binding.Unguarded

/-!
This module contains the proof that names play no part in where a resolution ends. At most one name is looked up, and
that is the last thing that is done.
-/

namespace ModuleLink

def NeededKind.text (kind : NeededKind) (site : ReferenceSite) (name : String) : String :=
  match kind with
  | .interopDefault => Linker.defaultAccess site name
  | .namespaceObject | .interopNamespace | .interopNamespace2 => name

namespace Linker

def withNames (l : Linker) (t : NameTable) : Linker := { l with names := t }

@[simp]
theorem graph_withNames (l : Linker) (t : NameTable) : (l.withNames t).graph = l.graph := rfl

@[simp]
theorem set_withNames (l : Linker) (t : NameTable) : (l.withNames t).set = l.set := rfl

/--
The binding is to a property that a member may have, and nothing is known of it but the symbol that the namespace of the
member is exported as.
-/
def IsFallback (l : Linker) (b : Binding) : Prop :=
  ∃ m d first rest, l.set.get? b.module = some (.concatenated m) ∧ m.namespaceSymbol.isSome ∧
    l.graph.descriptorOf b.module = .ok d ∧ b.path = first :: rest ∧
    (l.graph.exports.record (l.graph.exports.lookup d first)).provided ≠ .notProvided

/--
What a resolution comes to, names aside. The base of a binding is still to be filled in.
-/
inductive Outcome where
  | settled (result : Except LinkError Binding)
  | external (b : Binding) (comment : Option String)
  | object (kind : NeededKind) (b : Binding)
  | fallback (b : Binding)

def Outcome.toResolution (l : Linker) (site : ReferenceSite) : Outcome → Resolution
  | settled result => { result }
  | external b comment =>
    { result := (l.objectName b.module (·.externalName) "external binding").map fun name =>
        { b with base := .raw name comment } }
  | object kind b =>
    { result := (l.neededName kind b.module).map fun name => { b with base := .raw (kind.text site name) none }
      need := some ⟨kind, b.module⟩ }
  | fallback b =>
    { result := (l.objectName b.module (·.namespaceObject) "namespace object").map fun name =>
        { b with base := .raw name none } }

inductive Outcome.Fits (l : Linker) : Outcome → Prop where
  | settled (result : Except LinkError Binding) : Fits l (.settled result)
  | external (b : Binding) (comment : Option String) : Fits l (.external b comment)
  | object {kind : NeededKind} {b : Binding} {name : String} :
      l.neededName kind b.module = .ok name → (kind = .namespaceObject → ¬l.IsFallback b) → Fits l (.object kind b)
  | fallback {b : Binding} : l.IsFallback b → Fits l (.fallback b)

/--
A part of a resolution that takes the same course with all names: it goes on, or comes to an outcome.
-/
inductive Blind {β : Type} (l : Linker) (site : ReferenceSite) (f : NameTable → Resolution ⊕ β) : Prop where
  | goes (b : β) : (∀ t, f t = .inr b) → Blind l site f
  | ends (o : Outcome) : o.Fits l → (∀ t, f t = .inl (o.toResolution (l.withNames t) site)) → Blind l site f

namespace Blind

variable {β γ : Type} {l : Linker} {site : ReferenceSite} {f : NameTable → Resolution ⊕ β}

theorem settled {result : Except LinkError Binding} (h : ∀ t, f t = .inl { result }) : l.Blind site f :=
  .ends (.settled result) (.settled result) h

theorem bind {g : β → NameTable → Resolution ⊕ γ} (hf : l.Blind site f)
    (hg : ∀ b, f l.names = .inr b → l.Blind site (g b))
    : l.Blind site fun t => (f t).elim .inl fun b => g b t := by
  cases hf with
  | goes b hb =>
    cases hg b (hb l.names) with
    | goes c hc =>
      apply goes c
      intro t
      rw [hb]
      exact hc t
    | ends o ho hc =>
      apply ends o ho
      intro t
      rw [hb]
      exact hc t
  | ends o ho hb =>
    apply ends o ho
    intro t
    rw [hb]
    rfl

theorem ite {c : Prop} {dec : NameTable → Decidable c} {g : NameTable → Resolution ⊕ β} (hf : c → l.Blind site f)
    (hg : ¬c → l.Blind site g) : l.Blind site fun t => @ite _ c (dec t) (f t) (g t) := by
  by_cases h : c
  · simpa only [if_pos h] using hf h
  · simpa only [if_neg h] using hg h

theorem object (kind : NeededKind) {id : ModuleId} {ids path : List String} {deferred : Bool}
    (hname : ∃ name, l.neededName kind id = .ok name)
    (hfallback : kind = .namespaceObject → ¬l.IsFallback (rawBinding id "" ids path deferred))
    (h : ∀ t, f t = .inl ((Outcome.object kind (rawBinding id "" ids path deferred)).toResolution (l.withNames t) site))
    : l.Blind site f := by
  obtain ⟨name, hname⟩ := hname
  exact .ends _ (.object hname hfallback) h

end Blind

def shapePart : ShapeStep → Resolution ⊕ List String
  | .done resolution => .inl resolution
  | .lookup path => .inr path

variable {l : Linker} {site : ReferenceSite} {hop : NextHop} {x : Lookup} {id : ModuleId}

section Entry

variable {e : MergeEntry} {n : ModuleNames} (hn : l.names.module? id = some n)
include hn

theorem objectName_ok {pick : ModuleNames → Option String} (hpick : (pick n).isSome) (what : String)
    : ∃ name, l.objectName id pick what = .ok name := by
  obtain ⟨name, hname⟩ := Option.isSome_iff_exists.1 hpick
  refine ⟨name, ?_⟩
  unfold objectName
  rw [hn, Option.bind_some, hname]

theorem blind_shapeStep {shape : ExportShape} (hserves : n.Serves shape) (path : List String) (deferred : Bool)
    : l.Blind site fun t => shapePart ((l.withNames t).shapeStep shape id path deferred site) := by
  cases shape with
  | namespaceOnly => exact .goes path fun _ => rfl
  | defaultOnly =>
    cases path with
    | nil =>
      exact .object .interopNamespace2 (objectName_ok hn (hserves.interopNamespace2 rfl) _) nofun fun _ => rfl
    | cons first rest =>
      simp only [shapeStep, apply_ite shapePart]
      refine .ite (fun _ => .settled fun _ => rfl) fun _ => ?_
      exact .ite (fun _ => .goes rest fun _ => rfl) fun _ => .settled fun _ => rfl
  | defaultWithNamed =>
    cases path with
    | nil =>
      exact .object .interopNamespace (objectName_ok hn (hserves.interopNamespace rfl) _) nofun fun _ => rfl
    | cons first rest =>
      simp only [shapeStep, apply_ite shapePart]
      refine .ite (fun _ => .goes rest fun _ => rfl) fun _ => ?_
      exact .ite (fun _ => .settled fun _ => rfl) fun _ => .goes (first :: rest) fun _ => rfl
  | dynamic =>
    cases path with
    | nil => exact .goes [] fun _ => rfl
    | cons first rest =>
      simp only [shapeStep, apply_ite shapePart]
      refine .ite (fun _ => ?_) fun _ => ?_
      · exact .object .interopDefault (objectName_ok hn (hserves.interopDefault rfl) _) nofun fun _ => rfl
      · exact .ite (fun _ => .settled fun _ => rfl) fun _ => .goes (first :: rest) fun _ => rfl

theorem blind_wholeModule (hfits : n.Fits l.set.visibility e) (deferred : Bool)
    : l.Blind site fun t => (.inl ((l.withNames t).wholeModule e id deferred) : Resolution ⊕ Lookup) := by
  cases e with
  | concatenated m =>
    refine .object .namespaceObject (objectName_ok hn (hfits.object m rfl) _) (fun _ => ?_) fun _ => rfl
    rintro ⟨_, _, first, rest, -, -, -, hpath, -⟩
    cases hpath
  | external x =>
    exact .ends (.external (rawBinding id "" [] [] (deferred && x.deferred)) none) (.external _ _) fun _ => rfl

end Entry

def locatePath (l : Linker) (hop : NextHop) (entry : MergeEntry) : List String → Resolution ⊕ Lookup
  | [] => .inl (l.wholeModule entry hop.module hop.deferred)
  | name :: rest =>
    match l.graph.descriptorOf hop.module with
    | .error e => .inl { result := .error (.graph e) }
    | .ok descriptor => .inr { entry, descriptor, name, rest }

theorem locate_eq {entry : MergeEntry} (hentry : l.set.get? hop.module = some entry) {shape : ExportShape}
    (hshape : l.graph.shape hop.module hop.strict = .ok shape)
    : l.locate site hop
        =
      (shapePart (l.shapeStep shape hop.module hop.path hop.deferred site)).elim .inl (l.locatePath hop entry) := by
  unfold locate
  rw [hentry, hshape]
  dsimp only
  cases l.shapeStep shape hop.module hop.path hop.deferred site with
  | done resolution => rfl
  | lookup path => cases path <;> rfl

theorem blind_locate (hl : l.Supplied) (site : ReferenceSite) (hop : NextHop)
    : l.Blind site fun t => (l.withNames t).locate site hop := by
  cases hentry : l.set.get? hop.module with
  | none =>
    refine .ends (.settled (.error (.notInMergeSet hop.module))) (.settled _) fun t => ?_
    have hentry : (l.withNames t).set.get? hop.module = none := hentry
    rw [locate, hentry]
    rfl
  | some entry =>
    obtain ⟨n, hn, hfits, hshapes⟩ := hl hentry
    obtain ⟨shape, hshape, hserves⟩ := hshapes hop.strict
    obtain ⟨-, d, hd⟩ := shape_eq_ok hshape
    have hparts (t : NameTable) : (l.withNames t).locate site hop
        = (shapePart ((l.withNames t).shapeStep shape hop.module hop.path hop.deferred site)).elim .inl
            ((l.withNames t).locatePath hop entry) :=
      locate_eq (l := l.withNames t) hentry hshape
    simp only [hparts]
    apply (blind_shapeStep hn hserves hop.path hop.deferred).bind
      (g := fun path t => (l.withNames t).locatePath hop entry path)
    intro path _
    cases path with
    | nil => exact blind_wholeModule hn hfits hop.deferred
    | cons name rest =>
      refine .goes ⟨entry, d, name, rest⟩ fun t => ?_
      have hd : (l.withNames t).graph.descriptorOf hop.module = .ok d := hd
      unfold locatePath
      rw [hd]

theorem blind_direct (hl : l.Supplied) (hx : l.locate site hop = .inr x)
    : l.Blind site fun t => (l.withNames t).direct hop x := by
  have ⟨hentry, hd, _⟩ := locate_eq_inr.1 hx
  obtain ⟨n, hn, hfits, -⟩ := hl hentry
  obtain ⟨entry, d, name, rest⟩ := x
  cases entry with
  | external e =>
    cases houtput : l.graph.exports.outputPath? d (name :: rest) with
    | none =>
      simp only [direct, externalExport, graph_withNames, houtput]
      exact .settled fun _ => rfl
    | some used =>
      simp only [direct, externalExport, graph_withNames, houtput]
      exact .ends
        (.external (rawBinding hop.module "" used (name :: rest) (hop.deferred && e.deferred))
          (if used ≠ name :: rest ∧ l.propertyComments then some (blockComment (String.intercalate "." (name :: rest)))
            else none))
        (.external _ _) fun _ => rfl
  | concatenated m =>
    simp only [direct, graph_withNames]
    refine .ite (fun hmissing => ?_) fun _ => ?_
    · refine .object .namespaceObject (objectName_ok hn (hfits.object m rfl) _) (fun _ => ?_) fun _ => rfl
      rintro ⟨_, d', first, rest', -, -, hd', hpath, hprovided⟩
      cases hd.symm.trans hd'
      cases hpath
      exact hprovided hmissing
    · cases m.exports.get? name with
      | some symbol =>
        cases l.graph.exports.outputPath? d (name :: rest) with
        | none => exact .settled fun _ => rfl
        | some used => exact .settled fun _ => rfl
      | none =>
        cases m.rawExports.get? name with
        | some expression => exact .settled fun _ => rfl
        | none => exact .goes m fun _ => rfl

theorem blind_reexport (hx : l.locate site hop = .inr x) {m : Member} (hm : l.direct hop x = .inr m)
    (target : Except GraphError FindTarget) : l.Blind site fun t => (l.withNames t).reexport hop x m target := by
  have ⟨hentry, hd, _⟩ := locate_eq_inr.1 hx
  have ⟨hmember, hprovided, _⟩ := direct_eq_inr.1 hm
  rw [hmember] at hentry
  cases target with
  | error e => exact .settled fun _ => rfl
  | ok target =>
    cases target with
    | notFound =>
      simp only [reexport, set_withNames]
      exact .settled fun _ => rfl
    | circular => exact .settled fun _ => rfl
    | found found =>
      cases hmodule : l.graph.module hop.module with
      | error e =>
        simp only [reexport, graph_withNames, hmodule]
        exact .settled fun _ => rfl
      | ok module =>
        simp only [reexport, graph_withNames, hmodule]
        exact .goes _ fun _ => rfl
    | noTarget =>
      simp only [reexport, graph_withNames]
      refine .ite (fun hsymbol => ?_) fun _ => .settled fun _ => rfl
      refine .ends (.fallback (rawBinding hop.module "" _ (x.name :: x.rest) hop.deferred)) (.fallback ?_) fun _ => rfl
      exact ⟨m, x.descriptor, x.name, x.rest, hentry, hsymbol, hd, rfl, hprovided⟩

theorem blind_advance (hl : l.Supplied) (visited : List (DescriptorId × String)) (hop : NextHop)
    : l.Blind site fun t => (l.withNames t).advance site visited hop := by
  simp only [advance_eq, graph_withNames, set_withNames]
  refine (blind_locate hl site hop).bind fun x hx => ?_
  refine .ite (fun _ => .settled fun _ => rfl) fun _ => ?_
  refine (blind_direct hl hx).bind fun m hm => ?_
  exact (blind_reexport hx hm _).bind fun next _ => .goes (x.key, next) fun _ => rfl

theorem follow_outcome (hl : l.Supplied) (fuel : Nat) (visited : List (DescriptorId × String)) (hop : NextHop)
    : ∃ o : Outcome, o.Fits l ∧
        ∀ t, (l.withNames t).follow site fuel visited hop = o.toResolution (l.withNames t) site := by
  induction fuel generalizing visited hop with
  | zero => exact ⟨.settled _, .settled _, fun _ => rfl⟩
  | succ fuel ih =>
    cases blind_advance hl visited hop with
    | goes step hstep =>
      obtain ⟨o, ho, hfollow⟩ := ih (step.1 :: visited) step.2
      refine ⟨o, ho, fun t => ?_⟩
      rw [follow, hstep]
      exact hfollow t
    | ends o ho hend =>
      refine ⟨o, ho, fun t => ?_⟩
      rw [follow, hend]

theorem exists_outcome (hl : l.Supplied) (id : ModuleId) (path : List String) (site : ReferenceSite)
    : ∃ o : Outcome, o.Fits l ∧ ∀ t, (l.withNames t).resolve id path site = o.toResolution (l.withNames t) site := by
  simp only [resolve, graph_withNames]
  apply follow_outcome hl

end Linker
end ModuleLink
