import ModuleLink.Binding.Request
import ModuleLink.Proofs.Binding.Outcome

/-!
This module contains the proof that the objects that have to be provided are those that bindings are built from. A
binding is built from an object if it follows the object's name: were the object called otherwise, the request would be
answered with that name.
-/

namespace ModuleLink

def NeededObjects.of (n : NeededObjects) : NeededKind → List ModuleId
  | .namespaceObject => n.namespaceObjects
  | .interopNamespace => n.interopNamespaces
  | .interopNamespace2 => n.interopNamespaces2
  | .interopDefault => n.interopDefaults

theorem NeededObjects.of_add (n : NeededObjects) (need : Need) (kind : NeededKind)
    : (n.add need).of kind = if need.kind = kind then addDistinct (n.of kind) need.module else n.of kind := by
  obtain ⟨k, m⟩ := need
  cases k <;> cases kind <;> rfl

namespace ModuleNames

def object? (n : ModuleNames) : NeededKind → Option String
  | .namespaceObject => n.namespaceObject
  | .interopNamespace => n.interopNamespace
  | .interopNamespace2 => n.interopNamespace2
  | .interopDefault => n.interopDefault

def setObject (n : ModuleNames) (kind : NeededKind) (name : String) : ModuleNames :=
  match kind with
  | .namespaceObject => { n with namespaceObject := some name }
  | .interopNamespace => { n with interopNamespace := some name }
  | .interopNamespace2 => { n with interopNamespace2 := some name }
  | .interopDefault => { n with interopDefault := some name }

theorem object?_setObject (n : ModuleNames) (kind : NeededKind) (name : String) (k : NeededKind)
    : (n.setObject kind name).object? k = if k = kind then some name else n.object? k := by
  cases kind <;> cases k <;> rfl

theorem externalName_setObject (n : ModuleNames) (kind : NeededKind) (name : String)
    : (n.setObject kind name).externalName = n.externalName := by
  cases kind <;> rfl

end ModuleNames

theorem NeededKind.text_ne (kind : NeededKind) (site : ReferenceSite) : kind.text site "" ≠ kind.text site "a" := by
  cases kind with
  | interopDefault =>
    unfold text Linker.defaultAccess
    dsimp only
    split
    · decide
    · split <;> decide
  | _ => exact (by decide : "" ≠ "a")

namespace Linker

def rename (l : Linker) (o : Need) (name : String) : Linker :=
  l.withNames ⟨l.names.modules.modify o.module (·.setObject o.kind name)⟩

/--
The binding that answers a request is built from an object: it is a binding to its name, and it would be one to any
other name if the object were called that.
-/
structure BuiltFrom (l : Linker) (r : Request) (b : Binding) (o : Need) : Prop where
  answered : (l.answer {} r).1 = .ok b
  module : b.module == o.module
  renamed : ∀ name, ((l.rename o name).answer {} r).1 = .ok { b with base := .raw (o.kind.text r.site name) none }

/--
A request is answered with a binding that is built from an object. Fallbacks on the symbol of a namespace do not count,
since that is a declaration and need not be provided.
-/
def Uses (l : Linker) (r : Request) (o : Need) : Prop :=
  ∃ b, l.BuiltFrom r b o ∧ ¬(o.kind = .namespaceObject ∧ l.IsFallback b)

variable {l : Linker} {r : Request} {o : Need} {id : ModuleId}

section Rename

variable (name : String)

theorem module?_rename (l : Linker) (o : Need) (id : ModuleId)
    : (l.rename o name).names.module? id
        =
      if o.module == id then (l.names.module? id).map (·.setObject o.kind name) else l.names.module? id := by
  apply Dict.get?_modify

theorem objectName_rename {pick : ModuleNames → Option String} (what : String)
    (hpick : o.module == id → ∀ n, pick (n.setObject o.kind name) = pick n)
    : (l.rename o name).objectName id pick what = l.objectName id pick what := by
  have hbind : ((l.rename o name).names.module? id).bind pick = (l.names.module? id).bind pick := by
    rw [module?_rename]
    split
    next hid =>
      rw [Option.bind_map]
      simp only [Function.comp_def, hpick hid]
    · rfl
  unfold objectName
  rw [hbind]

theorem neededName_eq (kind : NeededKind)
    : ∃ what, ∀ (l : Linker) (id : ModuleId), l.neededName kind id = l.objectName id (·.object? kind) what := by
  cases kind <;> exact ⟨_, fun _ _ => rfl⟩

theorem neededName_rename_of_ne {kind : NeededKind} (h : o.module == id → kind ≠ o.kind)
    : (l.rename o name).neededName kind id = l.neededName kind id := by
  obtain ⟨what, hname⟩ := neededName_eq kind
  rw [hname, hname]
  apply objectName_rename
  intro hid n
  rw [ModuleNames.object?_setObject, if_neg (h hid)]

theorem neededName_rename {old : String} (hid : o.module == id) (h : l.neededName o.kind id = .ok old)
    : (l.rename o name).neededName o.kind id = .ok name := by
  obtain ⟨what, hname⟩ := neededName_eq o.kind
  rw [hname] at h ⊢
  have hmodule := module?_rename name l o id
  rw [if_pos hid] at hmodule
  unfold objectName at h ⊢
  cases hn : l.names.module? id with
  | none =>
    rw [hn] at h
    cases h
  | some n =>
    rw [hmodule, hn, Option.map_some, Option.bind_some, ModuleNames.object?_setObject, if_pos rfl]

end Rename

inductive Outcome.Asks (o : Need) : Outcome → Prop where
  | object {b : Binding} : o.module == b.module → Asks o (.object o.kind b)
  | fallback {b : Binding} : o.kind = .namespaceObject → o.module == b.module → Asks o (.fallback b)

theorem Outcome.result_rename {out : Outcome} (h : ¬out.Asks o) (l : Linker) (site : ReferenceSite) (name : String)
    : (out.toResolution (l.rename o name) site).result = (out.toResolution l site).result := by
  cases out with
  | settled result => rfl
  | external b comment =>
    have hname : (l.rename o name).objectName b.module (·.externalName) "external binding"
        = l.objectName b.module (·.externalName) "external binding" := by
      apply objectName_rename
      intro _ n
      apply ModuleNames.externalName_setObject
    exact congrArg (Except.map _) hname
  | object kind b =>
    have hname : (l.rename o name).neededName kind b.module = l.neededName kind b.module := by
      apply neededName_rename_of_ne
      rintro hmodule rfl
      exact h (.object hmodule)
    exact congrArg (Except.map _) hname
  | fallback b =>
    have hname : (l.rename o name).neededName .namespaceObject b.module = l.neededName .namespaceObject b.module := by
      apply neededName_rename_of_ne
      intro hmodule hkind
      exact h (.fallback hkind.symm hmodule)
    exact congrArg (Except.map _) hname

theorem Outcome.asks_of_renamed {out : Outcome} {b : Binding} {site : ReferenceSite}
    (h : ∀ name, (out.toResolution (l.rename o name) site).result
      = .ok { b with base := .raw (o.kind.text site name) none }) : out.Asks o := by
  by_contra hasks
  simp only [result_rename hasks] at h
  have heq := Except.ok.inj ((h "").symm.trans (h "a"))
  exact o.kind.text_ne site (BindingBase.raw.inj (congrArg Binding.base heq)).1

theorem Outcome.isFallback {b b' : Binding} {site : ReferenceSite} (hfits : (fallback b').Fits l)
    (h : ((fallback b').toResolution l site).result = .ok b) : l.IsFallback b := by
  cases hfits with
  | fallback hfallback =>
    change (l.objectName b'.module (·.namespaceObject) "namespace object").map _ = _ at h
    cases hname : l.objectName b'.module (·.namespaceObject) "namespace object" with
    | error e =>
      rw [hname] at h
      cases h
    | ok name =>
      rw [hname] at h
      cases h
      exact hfallback

theorem Outcome.uses_of_object {b : Binding} (hfits : (object o.kind b).Fits l) (hmodule : o.module == b.module)
    (hanswer : ∀ t, (l.withNames t).resolve r.module r.path r.site
      = (object o.kind b).toResolution (l.withNames t) r.site)
    : l.Uses r o := by
  cases hfits with
  | @object _ _ old hname hplain =>
    refine ⟨{ b with base := .raw (o.kind.text r.site old) none }, ⟨?_, BEq.symm hmodule, ?_⟩, ?_⟩
    · have hself := congrArg Resolution.result (hanswer l.names)
      exact hself.trans (congrArg (Except.map _) hname)
    · intro name
      have hrenamed := congrArg Resolution.result (hanswer (l.rename o name).names)
      exact hrenamed.trans (congrArg (Except.map _) (neededName_rename name hmodule hname))
    · rintro ⟨hkind, hfallback⟩
      exact hplain hkind hfallback

theorem uses_iff (hl : l.Supplied) (r : Request) (o : Need)
    : l.Uses r o
        ↔
      ∃ need, (l.resolve r.module r.path r.site).need = some need ∧ need.kind = o.kind ∧ o.module == need.module := by
  obtain ⟨out, hfits, hall⟩ := exists_outcome hl r.module r.path r.site
  have hself : l.resolve r.module r.path r.site = out.toResolution l r.site := hall l.names
  constructor
  · rintro ⟨b, hbuilt, hplain⟩
    have hasks : out.Asks o := by
      apply Outcome.asks_of_renamed
      intro name
      exact (congrArg Resolution.result (hall (l.rename o name).names)).symm.trans (hbuilt.renamed name)
    have hanswered : (out.toResolution l r.site).result = .ok b := by
      rw [← hself]
      exact hbuilt.answered
    cases hasks with
    | object hmodule =>
      rw [hself]
      exact ⟨_, rfl, rfl, hmodule⟩
    | fallback hkind _ =>
      exact absurd ⟨hkind, Outcome.isFallback hfits hanswered⟩ hplain
  · rintro ⟨need, hneed, hkind, hmodule⟩
    rw [hself] at hneed
    cases out with
    | object kind b =>
      cases hneed
      cases hkind
      exact Outcome.uses_of_object hfits hmodule hall
    | _ => cases hneed

theorem need_of_error (hl : l.Supplied) {r : Request} {e : LinkError}
    (h : (l.resolve r.module r.path r.site).result = .error e)
    : (l.resolve r.module r.path r.site).need = none := by
  obtain ⟨out, hfits, hall⟩ := exists_outcome hl r.module r.path r.site
  have hself : l.resolve r.module r.path r.site = out.toResolution l r.site := hall l.names
  rw [hself] at h ⊢
  cases hfits with
  | object hname =>
    have hresult := (congrArg (Except.map _) hname).symm.trans h
    cases hresult
  | _ => rfl

end Linker

/--
`ms` are the modules that requests use an object of, each of them once and in the order of their first uses.
-/
structure FirstUses (uses : Request → ModuleId → Prop) (rs : List Request) (ms : List ModuleId) : Prop where
  contains : ∀ m, ms.contains m = true ↔ ∃ r ∈ rs, uses r m
  once : ms.Pairwise fun m m' => (m == m') = false
  order : ms.Pairwise fun m m' => ∃ before r after,
    rs = before ++ r :: after ∧ uses r m ∧ ∀ r' ∈ before ++ [r], ¬uses r' m'

namespace FirstUses

variable {uses : Request → ModuleId → Prop} {rs : List Request} {ms : List ModuleId} {r : Request}

theorem nil : FirstUses uses [] [] where
  contains m := by simp
  once := .nil
  order := .nil

theorem order_concat (h : FirstUses uses rs ms) (r : Request)
    : ms.Pairwise fun m m' => ∃ before r' after,
        rs ++ [r] = before ++ r' :: after ∧ uses r' m ∧ ∀ r'' ∈ before ++ [r'], ¬uses r'' m' := by
  refine h.order.imp ?_
  rintro m m' ⟨before, r', after, rfl, huses, hnone⟩
  refine ⟨before, r', after ++ [r], ?_, huses, hnone⟩
  rw [List.append_assoc, List.cons_append]

theorem skip (h : FirstUses uses rs ms) (hr : ∀ m, ¬uses r m) : FirstUses uses (rs ++ [r]) ms where
  contains m := by
    rw [h.contains]
    simp [or_and_right, exists_or, hr]
  once := h.once
  order := h.order_concat r

theorem add (h : FirstUses uses rs ms) {new : ModuleId} (hr : ∀ m, uses r m ↔ m == new)
    : FirstUses uses (rs ++ [r]) (addDistinct ms new) := by
  have hcontains (m : ModuleId) : (∃ r' ∈ rs ++ [r], uses r' m) ↔ ms.contains m = true ∨ m == new := by
    rw [h.contains]
    simp [or_and_right, exists_or, hr]
  unfold addDistinct
  split
  next hold =>
    refine ⟨?_, h.once, h.order_concat r⟩
    intro m
    rw [hcontains]
    constructor
    · exact .inl
    · rintro (hm | hm)
      · exact hm
      · rw [contains_congr hm]
        exact hold
  next hnew =>
    have hmem {m : ModuleId} (hm : m ∈ ms) : ms.contains m = true := List.contains_iff_exists_mem_beq.2 ⟨m, hm, BEq.rfl⟩
    have hother {m : ModuleId} (hm : m ∈ ms) : (m == new) = false := by
      rw [← Bool.not_eq_true]
      intro heq
      rw [← contains_congr heq] at hnew
      exact hnew (hmem hm)
    refine ⟨?_, ?_, ?_⟩
    · intro m
      rw [hcontains]
      simp
    · rw [List.pairwise_append]
      refine ⟨h.once, List.pairwise_singleton _ _, ?_⟩
      intro m hm m' hm'
      rw [List.mem_singleton.1 hm']
      exact hother hm
    · rw [List.pairwise_append]
      refine ⟨h.order_concat r, List.pairwise_singleton _ _, ?_⟩
      intro m hm m' hm'
      rw [List.mem_singleton.1 hm']
      -- A request before the last one uses `m`, and none of them uses `new`.
      obtain ⟨r', hr', huses⟩ := (h.contains m).1 (hmem hm)
      obtain ⟨before, after, rfl⟩ := List.append_of_mem hr'
      refine ⟨before, r', after ++ [r], ?_, huses, ?_⟩
      · rw [List.append_assoc, List.cons_append]
      · intro r'' hr'' huses'
        refine hnew ((h.contains new).2 ⟨r'', ?_, huses'⟩)
        rw [List.append_cons]
        exact List.mem_append_left after hr''

end FirstUses

namespace Linker

theorem answerAll_eq (l : Linker) (needed : NeededObjects) (rs : List Request)
    : l.answerAll needed rs = (rs.map fun r => (l.answer {} r).1, rs.foldl (fun n r => (l.answer n r).2) needed) := by
  induction rs generalizing needed with
  | nil => rfl
  | cons r rs ih =>
    simp only [answerAll, ih]
    rfl

theorem firstUses_answer {l : Linker} (hl : l.Supplied) {rs : List Request} {needed : NeededObjects} {kind : NeededKind}
    (h : FirstUses (fun r m => l.Uses r ⟨kind, m⟩) rs (needed.of kind)) (r : Request)
    : FirstUses (fun r m => l.Uses r ⟨kind, m⟩) (rs ++ [r]) ((l.answer needed r).2.of kind) := by
  have huses (m : ModuleId) := uses_iff hl r ⟨kind, m⟩
  unfold answer NeededObjects.addFrom
  dsimp only
  cases hneed : (l.resolve r.module r.path r.site).need with
  | none =>
    simp only [hneed] at huses
    apply h.skip
    intro m
    rw [huses]
    simp
  | some need =>
    simp only [hneed, Option.some.injEq, exists_eq_left'] at huses
    dsimp only
    rw [NeededObjects.of_add]
    split
    next hkind =>
      apply h.add
      intro m
      rw [huses]
      exact and_iff_right hkind
    next hkind =>
      apply h.skip
      intro m
      rw [huses]
      exact fun hused => hkind hused.1

/--
The objects that have to be provided after a sequence of requests are those that their bindings are built from, each
once and in the order of first use. A request is answered as if it were the only one, and one that fails needs nothing.
-/
theorem needed_exact (l : Linker) (hs : l.set.Built) (o : NameOptions) (h : o.allocate l.graph l.set = .ok l.names)
    (rs : List Request)
    : (l.answerAll {} rs).1 = (rs.map fun r => (l.answer {} r).1) ∧
      (∀ kind, FirstUses (fun r m => l.Uses r ⟨kind, m⟩) rs ((l.answerAll {} rs).2.of kind)) ∧
      ∀ needed r e, (l.answer needed r).1 = .error e → (l.answer needed r).2 = needed := by
  have hl : l.Supplied := supplied_of_allocate hs h
  refine ⟨?_, ?_, ?_⟩
  · rw [answerAll_eq]
  · intro kind
    rw [answerAll_eq]
    refine foldl_prefix_induction
      (fun rs (needed : NeededObjects) => FirstUses (fun r m => l.Uses r ⟨kind, m⟩) rs (needed.of kind)) ?_ ?_ rs
    · intro rs needed r hrs
      exact firstUses_answer hl hrs r
    · cases kind <;> exact .nil
  · intro needed r e herror
    have hneed := need_of_error hl herror
    unfold answer NeededObjects.addFrom
    dsimp only
    rw [hneed]

end Linker

namespace Sample

/--
Among other things, a property is asked of the second member, and one that the first member does not have.
-/
def requests : List Request := [
  { module := b, path := ["default"] }, { module := a, path := [] }, { module := c, path := ["u"] },
  { module := b, path := [], site := { strict := true } }, { module := a, path := ["u"] },
  { module := b, path := ["default", "x"] }]

end Sample

theorem Linker.needed_exact_sample
    : Sample.linker.set.Built ∧
      ({} : NameOptions).allocate Sample.linker.graph Sample.linker.set = .ok Sample.linker.names ∧
      (Sample.linker.answerAll {} Sample.requests).2
        = { namespaceObjects := [Sample.a], interopNamespaces := [Sample.b], interopDefaults := [Sample.b] } ∧
      (∃ r ∈ Sample.requests, Sample.linker.Uses r ⟨.interopDefault, Sample.b⟩) ∧
      (∀ r ∈ Sample.requests, ¬Sample.linker.Uses r ⟨.namespaceObject, Sample.c⟩) ∧
      (Sample.linker.answer {} { module := Sample.c, path := ["u"] }).1
        = .ok { module := Sample.c, base := .raw "value" none, ids := ["u"], path := ["u"], deferred := false } ∧
      Sample.linker.answer {} { module := Sample.a, path := ["u"] } = (.error (.unknownExport Sample.a ["u"]), {}) := by
  have hnames : ({} : NameOptions).allocate Sample.linker.graph Sample.linker.set
      = .ok Sample.linker.names := by decide +kernel
  obtain ⟨-, hfirst, hfails⟩ := needed_exact Sample.linker Sample.built {} hnames Sample.requests
  have hneeded : (Sample.linker.answerAll {} Sample.requests).2
      = { namespaceObjects := [Sample.a], interopNamespaces := [Sample.b], interopDefaults := [Sample.b] } := by
    decide +kernel
  rw [hneeded] at hfirst
  have herror : (Sample.linker.answer {} { module := Sample.a, path := ["u"] }).1
      = .error (.unknownExport Sample.a ["u"]) := by decide +kernel
  refine ⟨Sample.built, hnames, hneeded, ?_, ?_, by decide +kernel, Prod.ext herror (hfails {} _ _ herror)⟩
  · exact ((hfirst .interopDefault).contains Sample.b).1 (by decide +kernel)
  · intro r hr huses
    have hcontains := ((hfirst .namespaceObject).contains Sample.c).2 ⟨r, hr, huses⟩
    exact absurd hcontains (by decide +kernel)

end ModuleLink
