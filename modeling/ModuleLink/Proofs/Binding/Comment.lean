import ModuleLink.Binding.Render
import ModuleLink.Proofs.Graph.Operation
import ModuleLink.Proofs.Rename.Allocation
import ModuleLink.Proofs.Rename.Candidate
import ModuleLink.Proofs.SourceText

/-!
This module contains the proof that the comment in the text of a reference hides nothing but itself. The comment is made
of the path that is asked for, which may be any text. What stands before it is the name of an external module, which was
allocated and so is an identifier, and what stands after it is a property access.
-/

namespace ModuleLink

namespace NameOptions

-- Only the form of the names that the search gives is of interest; unfolding it on texts is slow.
attribute [local irreducible] findNewName

variable {o : NameOptions} {g : Graph} {s : MergeSet} {v : VisibilityMap} {t : NameTable}

theorem nameEntry_externalName {e : MergeEntry} {readable name : String} {al al' : List String} {n : ModuleNames}
    (h : o.nameEntry v e readable al = .ok (n, al')) (hname : n.externalName = some name)
    : Identifier.hasForm name := by
  unfold nameEntry at h
  dsimp only at h
  cases e with
  | concatenated m =>
    dsimp only at h
    split at h
    · cases h
      cases hname
    · split at h
      · cases h
      · cases h
        cases hname
  | external x =>
    cases h
    cases hname
    exact hasForm_findNewName ..

theorem allocate_externalName (h : o.allocate g s = .ok t) {id : ModuleId} {n : ModuleNames} {name : String}
    (hn : t.module? id = some n) (hname : n.externalName = some name) : Identifier.hasForm name := by
  unfold allocate at h
  rw [bind_eq_ok] at h
  obtain ⟨⟨t', al⟩, hrun, h⟩ := h
  cases h
  refine foldlM_ok_induction (fun state : NameTable × List String => ∀ id n, state.1.module? id = some n →
    ∀ name, n.externalName = some name → Identifier.hasForm name) ?_ ?_ hrun id n hn name hname
  · intro state state' e _ hstate hstep id n hn name hname
    unfold allocateEntry at hstep
    simp only [bind_eq_ok, LinkError.ofGraph_eq_ok] at hstep
    obtain ⟨module, -, ⟨n', al'⟩, hentry, _, -, _, -, hstep⟩ := hstep
    cases hstep
    rw [module?_insert] at hn
    split at hn
    · cases hn
      exact nameEntry_externalName hentry hname
    · exact hstate id n hn name hname
  · intro id n hn
    cases hn

end NameOptions

namespace Linker

structure Annotates (l : Linker) (result : Except LinkError Binding) : Prop where
  comment : ∀ b name comment, result = .ok b → b.base = .raw name (some comment) →
    comment = blockComment (String.intercalate "." b.path) ∧
      l.objectName b.module (·.externalName) "external binding" = .ok name

variable {l : Linker} {site : ReferenceSite} {id : ModuleId}

namespace Annotates

theorem error (e : LinkError) : l.Annotates (.error e) := by
  constructor
  intro b name comment hb
  cases hb

theorem bare {b : Binding} (h : ∀ name comment, b.base ≠ .raw name (some comment)) : l.Annotates (.ok b) := by
  constructor
  intro b' name comment hb hbase
  cases hb
  exact absurd hbase (h name comment)

theorem marker (id : ModuleId) (text : String) (ids path : List String) (deferred : Bool)
    : l.Annotates (marker id text ids path deferred).result := by
  apply bare
  rintro name comment ⟨⟩

theorem named {name : Except LinkError String} {build : String → Binding}
    (hbuild : ∀ name, ∃ text, (build name).base = .raw text none) : l.Annotates (name.map build) := by
  cases name with
  | error e => exact error e
  | ok name =>
    obtain ⟨text, htext⟩ := hbuild name
    apply bare
    intro name' comment hbase
    cases htext.symm.trans hbase

end Annotates

theorem annotates_shapeStep {shape : ExportShape} {path : List String} {deferred : Bool} {r : Resolution}
    (h : l.shapeStep shape id path deferred site = .done r) : l.Annotates r.result := by
  unfold shapeStep at h
  split at h
  · cases h
  · cases h
  · cases h
    exact .named fun _ => ⟨_, rfl⟩
  · cases h
    exact .named fun _ => ⟨_, rfl⟩
  · split at h
    · cases h
    · split at h
      · cases h
        exact .marker ..
      · cases h
  · split at h
    · cases h
      exact .marker ..
    · split at h
      · cases h
      · cases h
        exact .marker ..
  · split at h
    · cases h
      exact .named fun _ => ⟨_, rfl⟩
    · split at h
      · cases h
        exact .marker ..
      · cases h

theorem annotates_wholeModule (e : MergeEntry) (deferred : Bool)
    : l.Annotates (l.wholeModule e id deferred).result := by
  cases e with
  | concatenated m => exact .named fun _ => ⟨_, rfl⟩
  | external x => exact .named fun _ => ⟨_, rfl⟩

theorem annotates_externalExport (x : External) (d : DescriptorId) (first : String) (rest : List String)
    (deferred : Bool) : l.Annotates (l.externalExport x id d first rest deferred).result := by
  unfold externalExport
  dsimp only
  split
  · exact .marker ..
  · next used _ =>
    dsimp only
    cases hname : l.objectName id (·.externalName) "external binding" with
    | error e => exact .error e
    | ok name =>
      constructor
      intro b name' comment hb hbase
      cases hb
      dsimp only at hbase
      split at hbase
      · cases hbase
        exact ⟨rfl, hname⟩
      · cases hbase

theorem annotates_memberExport {m : Member} {d : DescriptorId} {first : String} {rest : List String}
    {deferred : Bool} {r : Resolution} (h : l.memberExport m id d first rest deferred = .inl r)
    : l.Annotates r.result := by
  unfold memberExport at h
  dsimp only at h
  split at h
  · cases h
    exact .named fun _ => ⟨_, rfl⟩
  · split at h
    · split at h
      · cases h
        exact .marker ..
      · cases h
        apply Annotates.bare
        rintro name comment ⟨⟩
    · split at h
      · cases h
        exact .marker ..
      · split at h
        · cases h
          exact .error _
        · cases h
          exact .error _
        · cases h
          exact .marker ..
        · split at h
          · cases h
            exact .error _
          · cases h
        · split at h
          · cases h
            exact .named fun _ => ⟨_, rfl⟩
          · cases h
            exact .error _

theorem annotates_advance {visited : List (DescriptorId × String)} {hop : NextHop} {r : Resolution}
    (h : l.advance site visited hop = .inl r) : l.Annotates r.result := by
  unfold advance at h
  split at h
  · cases h
    exact .error _
  · split at h
    · cases h
      exact .error _
    · split at h
      · next hstep =>
        cases h
        exact annotates_shapeStep hstep
      · cases h
        exact annotates_wholeModule ..
      · split at h
        · cases h
          exact .error _
        · split at h
          · cases h
            exact .marker ..
          · split at h
            · cases h
              exact annotates_externalExport ..
            · split at h
              · next hexport =>
                cases h
                exact annotates_memberExport hexport
              · cases h

theorem annotates_follow (fuel : Nat) (visited : List (DescriptorId × String)) (hop : NextHop)
    : l.Annotates (l.follow site fuel visited hop).result := by
  induction fuel generalizing visited hop with
  | zero => exact .marker ..
  | succ fuel ih =>
    unfold follow
    split
    · next hadvance => exact annotates_advance hadvance
    · apply ih

theorem objectName_eq_ok {pick : ModuleNames → Option String} {what name : String}
    : l.objectName id pick what = .ok name ↔ ∃ n, l.names.module? id = some n ∧ pick n = some name := by
  unfold objectName
  rw [← Option.bind_eq_some_iff]
  split
  · next found hfound => rw [hfound, Except.ok.injEq, Option.some.injEq]
  · next hnone =>
    rw [hnone]
    constructor
    · rintro ⟨⟩
    · rintro ⟨⟩

/--
A call of a property has to be wrapped, in order that it does not get the owner of the property.
-/
def wraps (b : Binding) (site : ReferenceSite) : Bool := !b.ids.isEmpty && site.asCall && !site.callContext

def callOpening (b : Binding) (site : ReferenceSite) : String :=
  if wraps b site then
    match site.asiSafe with
    | some true => "(0,"
    | some false => ";(0,"
    | none => "/*#__PURE__*/Object("
  else
    ""

def callClosing (b : Binding) (site : ReferenceSite) : String := if wraps b site then ")" else ""

theorem render_eq {b : Binding} {text : String} (h : l.reference b = .ok text)
    : l.render b site = .ok (callOpening b site ++ text ++ callClosing b site) := by
  unfold render callOpening callClosing
  rw [h]
  change Except.ok (if wraps b site then withoutReceiver site text else text) = _
  split
  · unfold withoutReceiver
    cases site.asiSafe with
    | none => rfl
    | some safe => cases safe <;> rfl
  · simp

open SourceText

theorem commented_callOpening (b : Binding) (site : ReferenceSite) (rest : List Char)
    : commented .code ((callOpening b site).toList ++ rest)
        =
      commented .code (callOpening b site).toList ++ commented .code rest := by
  unfold callOpening
  split
  · cases site.asiSafe with
    | none => rfl
    | some safe => cases safe <;> rfl
  · rfl

theorem readAs_callClosing (b : Binding) (site : ReferenceSite)
    : ReadAs .code (callClosing b site).toList false .code := by
  unfold callClosing
  split
  · exact .plain (by decide) (by decide)
  · exact .nil

/--
A comment of an export path is empty or ends with its first terminator. In the text of a reference, whatever follows it,
the comment is read as a comment from its first character to its last, and the name before it and the property access
after it are not.
-/
theorem finalName_comment (l : Linker) (o : NameOptions) (g : Graph) (s : MergeSet)
    (hnames : o.allocate g s = .ok l.names)
    : (∀ path : List String, blockComment (String.intercalate "." path) = "" ∨
        IsBlockComment (blockComment (String.intercalate "." path))) ∧
      ∀ (id : ModuleId) (path : List String) (site : ReferenceSite) (b : Binding) (name comment : String),
        (l.resolve id path site).result = .ok b → b.base = .raw name (some comment) →
          comment = blockComment (String.intercalate "." b.path) ∧
          ∃ text, text = callOpening b site ++ (name ++ comment ++ propertyAccess b.ids) ++ callClosing b site ∧
            l.finalName id path site = .ok text ∧
            ∀ rest : List Char, commented .code (text.toList ++ rest)
              = commented .code (callOpening b site).toList ++
                List.replicate name.length false ++
                List.replicate comment.length true ++
                List.replicate (propertyAccess b.ids).length false ++
                List.replicate (callClosing b site).length false ++
                commented .code rest := by
  constructor
  · intro path
    by_cases hempty : String.intercalate "." path = ""
    · rw [hempty]
      exact .inl rfl
    · exact .inr (isBlockComment_blockComment hempty)
  · intro id path site b name comment hresult hbase
    obtain ⟨hcomment, hname⟩ := (annotates_follow _ _ _).comment b name comment hresult hbase
    obtain ⟨n, hn, hexternal⟩ := objectName_eq_ok.1 hname
    have hform := NameOptions.allocate_externalName hnames hn hexternal
    have hreference : l.reference b = .ok (name ++ comment ++ propertyAccess b.ids) := by
      unfold reference
      rw [hbase]
      rfl
    refine ⟨hcomment, _, rfl, ?_, ?_⟩
    · unfold finalName
      rw [hresult]
      exact render_eq hreference
    · intro rest
      have hbefore := ReadAs.identifier hform
      have hhidden : ReadAs .code comment.toList true .code := hcomment ▸ .blockComment _
      have hafter := ReadAs.propertyAccess b.ids
      simp only [String.toList_append, List.append_assoc]
      rw [commented_callOpening, hbefore, hhidden, hafter, readAs_callClosing]
      simp only [String.length_toList]

end Linker

namespace Sample

def library : ModuleId := ⟨"./library"⟩

/--
A module with an export that has the terminator of a comment in its name and is called `a` in the output.
-/
def terminating : List GraphOp := [
  .addModule { id := library, buildMeta := { exportsType := some .namespaced } },
  .exports (.getOrCreate ⟨0⟩ "**/x/*/"), .exports (.edit ⟨2⟩ (.setOutputName (.renamed "a"))),
  .markExportUsed library ["**/x/*/"] .used]

def libraryLinker : Linker where
  graph := terminating.foldl GraphOp.apply {}
  set := ⟨.ofFirst [.external { module := library }], library, none⟩
  names := ⟨.ofList [(library, { externalName := some "library" })]⟩

def libraryBinding : Binding where
  module := library
  base := .raw "library" (some "/* ** /x/* / */")
  ids := ["a"]
  path := ["**/x/*/"]
  deferred := false

end Sample

namespace Linker

open Sample

theorem finalName_comment_sample
    : ({} : NameOptions).allocate libraryLinker.graph libraryLinker.set = .ok libraryLinker.names
        ∧
      libraryLinker.finalName library ["**/x/*/"] { asCall := true }
          = .ok "/*#__PURE__*/Object(library/* ** /x/* / */.a)"
        ∧
      ∀ rest, SourceText.commented .code ("/*#__PURE__*/Object(library/* ** /x/* / */.a)".toList ++ rest)
        = List.replicate 13 true ++ List.replicate 14 false ++ List.replicate 15 true ++ List.replicate 3 false ++
            SourceText.commented .code rest := by
  have hallocates : ({} : NameOptions).allocate libraryLinker.graph libraryLinker.set = .ok libraryLinker.names := by
    decide +kernel
  have hresult : (libraryLinker.resolve library ["**/x/*/"] { asCall := true }).result = .ok libraryBinding := by
    decide
  obtain ⟨-, text, htext, hfinal, hread⟩ :=
    (finalName_comment libraryLinker {} _ _ hallocates).2 _ _ _ _ _ _ hresult rfl
  have heq : text = "/*#__PURE__*/Object(library/* ** /x/* / */.a)" := by
    rw [htext]
    decide
  rw [heq] at hfinal hread
  refine ⟨hallocates, hfinal, ?_⟩
  intro rest
  rw [hread]
  rfl

end Linker
end ModuleLink
