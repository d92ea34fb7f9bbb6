import ModuleLink.Exchange.Basic
import ModuleLink.Proofs.Binary.Graph
import ModuleLink.Proofs.Path
import ModuleLink.Proofs.StringLiteral

/-!
This module contains the proof that the identities of modules are normal forms: paths that differ in detours only name
the same module, and the path of an identity names that identity.
-/

namespace ModuleLink

theorem Json.read?_write_string (text : String) : read? (write (.string text)) = some (.string text) := by
  have hread : readString [] (text.toList.flatMap JsonString.escapeChar ++ ['"']) = some (text, []) := by
    apply readString_eq_some_iff.2
    refine ⟨_, text.toList, JsonString.spells_flatMap_escapeChar text.toList, rfl, ?_⟩
    rw [List.reverse_nil, List.nil_append, String.ofList_toList]
  have hwrite : (write (.string text)).toList = '"' :: (text.toList.flatMap JsonString.escapeChar ++ ['"']) := by
    simp [write, JsonString.encode]
  have hvalue
      : readValue ((write (.string text)).length + 1) (write (.string text)).toList = some (.string text, []) := by
    rw [hwrite, readValue]
    change (readString [] _).map _ = _
    rw [hread]
    rfl
  unfold read?
  rw [hvalue]
  rfl

namespace ModuleId

def NamesSynthetic (path : RawText) : Prop := isMarked path.toText ∨ path.toText.toList.head? = some '\x00'

def pathOf (given cleaned : List Component) : RawText :=
  if keepsCurrent given cleaned then RawText.ofString "./" ++ Path.render cleaned else Path.render cleaned

theorem toOption_ofPath {path : RawText} (h : ¬NamesSynthetic path)
    : (ofPath path).toOption
        = if Path.clean (Path.components path) = [] then none
          else some ⟨pathOf (Path.components path) (Path.clean (Path.components path))⟩ := by
  have ⟨hmarked, hnul⟩ := not_or.1 h
  unfold ofPath
  by_cases hempty : path.bytes = []
  · obtain ⟨bytes⟩ := path
    subst hempty
    rfl
  · dsimp only
    rw [if_neg (by simpa using hempty), if_neg hmarked, if_neg hnul]
    unfold pathOf
    simp only [List.isEmpty_iff]
    split
    · rfl
    · split
      · rfl
      · rfl

theorem ofPath_eq_ok {path : RawText} {id : ModuleId} (h : (ofPath path).toOption = some id)
    : ofPath path = .ok id := by
  cases hpath : ofPath path with
  | error e =>
    rw [hpath] at h
    cases h
  | ok id' =>
    rw [hpath] at h
    cases h
    rfl

theorem toOption_ofPath_congr {path path' : RawText} (h : ¬NamesSynthetic path) (h' : ¬NamesSynthetic path')
    (hdetours : Relation.EqvGen Path.Detour (Path.pieces path) (Path.pieces path'))
    (hfirst : (Path.pieces path).head? = (Path.pieces path').head?)
    : (ofPath path).toOption = (ofPath path').toOption := by
  have hclean : Path.clean (Path.components path) = Path.clean (Path.components path') := by
    rw [Path.clean_components, Path.clean_components, Path.clean_eq_of_detours hdetours]
  have hhead : (Path.components path).head? = (Path.components path').head? := by
    rw [Path.head?_components, Path.head?_components, hfirst]
  rw [toOption_ofPath h, toOption_ofPath h', hclean]
  unfold pathOf keepsCurrent
  rw [hhead]

theorem pathOf_eq (given : List Component) (n : Path.Normal)
    : pathOf given n.components
        =
      if given.head? = some .current ∧ n.ups = 0 then RawText.ofString "./" ++ n.text else n.text := by
  unfold pathOf keepsCurrent
  rw [n.render_components]
  simp [n.head?_components_eq_parent_iff]

theorem exists_normal {path : RawText} {id : ModuleId} (h : ¬NamesSynthetic path) (hid : ofPath path = .ok id)
    : ∃ n : Path.Normal, n.components ≠ [] ∧ Path.clean (Path.components path) = n.components ∧
        (n.absolute ↔ (Path.components path).head? = some .root) ∧
        id.path
          =
        if (Path.components path).head? = some .current ∧ n.ups = 0 then RawText.ofString "./" ++ n.text
        else n.text := by
  obtain ⟨n, hclean, habsolute⟩ := Path.Normal.exists_clean_eq path
  have hoption := toOption_ofPath h
  rw [hid, hclean, pathOf_eq] at hoption
  by_cases hne : n.components = []
  · rw [if_pos hne] at hoption
    cases hoption
  · rw [if_neg hne] at hoption
    exact ⟨n, hne, hclean, habsolute, congrArg ModuleId.path (Option.some.inj hoption)⟩

theorem cleaned_eq {path : RawText} {n : Path.Normal} (h : Path.clean (Path.components path) = n.components)
    (hne : n.components ≠ []) : Path.cleaned path = n.text := by
  rw [Path.cleaned, h, if_neg hne, n.render_components]

theorem cleaned_eq_current_iff (path : RawText)
    : Path.cleaned path = RawText.ofString "." ↔ Path.clean (Path.components path) = [] := by
  refine ⟨fun hcleaned => ?_, fun hclean => by rw [Path.cleaned, if_pos hclean]⟩
  obtain ⟨n, hclean, -⟩ := Path.Normal.exists_clean_eq path
  by_cases hne : n.components = []
  · rw [hclean, hne]
  · -- A `.` is no normal form.
    rw [cleaned_eq hclean hne] at hcleaned
    have hcomponents := n.components_text
    rw [hcleaned] at hcomponents
    exact absurd (n.clean_components) (by rw [← hcomponents]; decide)

theorem ofPath_error_iff {path : RawText} (h : ¬NamesSynthetic path)
    : (∃ e, ofPath path = .error e) ↔ path = RawText.ofString "" ∨ Path.cleaned path = RawText.ofString "." := by
  have hnone : (∃ e, ofPath path = .error e) ↔ (ofPath path).toOption = none := by
    cases ofPath path with
    | error e => simp [Except.toOption]
    | ok id => simp [Except.toOption]
  rw [hnone, toOption_ofPath h, cleaned_eq_current_iff]
  simp only [ite_eq_left_iff, reduceCtorEq, imp_false, not_not]
  refine ⟨.inr, ?_⟩
  rintro (rfl | hclean)
  · rfl
  · exact hclean

section Text

variable {n : Path.Normal}

theorem ofPath_text (hne : n.components ≠ []) (h : ¬NamesSynthetic n.text) : ofPath n.text = .ok ⟨n.text⟩ := by
  have hcurrent : n.components.head? ≠ some .current :=
    fun hhead => n.current_not_mem_components (List.mem_of_mem_head? hhead)
  apply ofPath_eq_ok
  rw [toOption_ofPath h, n.components_text, n.clean_components, if_neg hne, pathOf_eq, if_neg fun hc => hcurrent hc.1]

theorem not_namesSynthetic_current (path : RawText) : ¬NamesSynthetic (RawText.ofString "./" ++ path) := by
  have htext : (RawText.ofString "./" ++ path).toText
      = String.ofList ('.' :: '/' :: RawText.Reader.between.read path.bytes) := rfl
  unfold NamesSynthetic isMarked
  rw [htext]
  simp [syntheticMark]

theorem ofPath_current_text (hne : n.components ≠ []) (hrelative : ¬n.absolute) (hups : n.ups = 0)
    : ofPath (RawText.ofString "./" ++ n.text) = .ok ⟨RawText.ofString "./" ++ n.text⟩ := by
  have hclean : Path.clean (.current :: n.components) = n.components := n.clean_components
  apply ofPath_eq_ok
  rw [toOption_ofPath (not_namesSynthetic_current _), Path.Normal.components_current_text hrelative, hclean, if_neg hne,
    pathOf_eq, if_pos ⟨rfl, hups⟩]

end Text

theorem ofPath_of_isMarked {path : RawText} (h : isMarked path.toText) : ofPath path = .ok ⟨path.toText⟩ := by
  have hempty : ¬path.bytes.isEmpty := by
    intro hempty
    obtain ⟨bytes⟩ := path
    rw [List.isEmpty_iff] at hempty
    subst hempty
    cases h
  unfold ofPath
  dsimp only
  rw [if_neg hempty, if_pos h]

theorem isMarked_append (rest : String) : isMarked (syntheticMark ++ rest) := by
  unfold isMarked
  rw [String.toList_append, List.isPrefixOf_iff_prefix]
  exact List.prefix_append _ _

theorem exists_marked {path : RawText} {id : ModuleId} (h : NamesSynthetic path) (hid : ofPath path = .ok id)
    : ∃ text, isMarked text ∧ id = ⟨RawText.ofString text⟩ := by
  by_cases hmarked : isMarked path.toText
  · cases (ofPath_of_isMarked hmarked).symm.trans hid
    exact ⟨_, hmarked, rfl⟩
  · -- What comes after the NUL characters is marked.
    unfold ofPath at hid
    dsimp only at hid
    rw [if_neg hmarked, if_pos (h.resolve_left hmarked)] at hid
    split at hid
    · cases hid
    · cases hid
      exact ⟨_, isMarked_append _, rfl⟩

theorem isText_path {path : RawText} {id : ModuleId} (h : path.IsText) (hid : ofPath path = .ok id)
    : id.path.IsText := by
  by_cases hsynthetic : NamesSynthetic path
  · obtain ⟨text, -, rfl⟩ := exists_marked hsynthetic hid
    exact RawText.isText_ofString text
  · have hrender : (Path.render (Path.clean (Path.components path))).IsText :=
      Path.isText_render fun name hname => Path.isText_of_mem_components h (Path.mem_of_mem_clean hname)
    have hoption := toOption_ofPath hsynthetic
    rw [hid] at hoption
    split at hoption
    · cases hoption
    · cases hoption
      unfold pathOf
      split
      · exact (RawText.isText_ofString "./").append hrender
      · exact hrender

theorem ofPath_path {path : RawText} {id : ModuleId} (hid : ofPath path = .ok id) (htext : id.path.IsText)
    (hnul : id.text.toList.head? ≠ some '\x00') : ofPath id.path = .ok id := by
  by_cases hmarked : isMarked id.text
  · -- A mark may have come to the front when the path was cleaned.
    rw [ofPath_of_isMarked hmarked]
    exact congrArg (Except.ok ∘ ModuleId.mk) htext
  by_cases hsynthetic : NamesSynthetic path
  · obtain ⟨text, htextMarked, rfl⟩ := exists_marked hsynthetic hid
    rw [ModuleId.text, RawText.toText_ofString] at hmarked
    exact absurd htextMarked hmarked
  obtain ⟨n, hne, -, habsolute, hn⟩ := exists_normal hsynthetic hid
  obtain ⟨path⟩ := id
  dsimp only at hn ⊢
  subst hn
  split
  · next hc =>
    have hrelative : ¬n.absolute := by
      rw [habsolute, hc.1]
      simp
    exact ofPath_current_text hne hrelative hc.2
  · next hc =>
    rw [if_neg hc] at hmarked hnul
    exact ofPath_text hne (not_or.2 ⟨hmarked, hnul⟩)

/--
A path that does not name a synthetic module names none exactly if it is empty or cleans down to the current directory.
Otherwise the identity is a normal form, with a `./` before it if the path has one and no step up comes after it.
Detours after the first component do not change the identity. The text of an identity names it again and it is read back
from its saved forms, unless the text begins with NUL or is not all of the path.
-/
theorem ofPath_normal
    : (∀ path, ¬NamesSynthetic path →
        ((∃ e, ofPath path = .error e) ↔ path = RawText.ofString "" ∨ Path.cleaned path = RawText.ofString ".") ∧
        ∀ id, ofPath path = .ok id →
          ∃ n : Path.Normal, n.components ≠ [] ∧ Path.cleaned path = n.text ∧
            (id.path = n.text ∨ id.path = RawText.ofString "./" ++ n.text) ∧
            ([Path.dot, Path.slash] <+: id.path.bytes
              ↔ (Path.components path).head? = some .current ∧ n.ups = 0) ∧
            (id.path.bytes = [Path.slash] ∨
              ∀ s ∈ (Path.segments Path.slash id.path.bytes).tail, s ≠ [] ∧ s ≠ [Path.dot])) ∧
      (∀ path path', ¬NamesSynthetic path → ¬NamesSynthetic path' →
        Relation.EqvGen Path.Detour (Path.pieces path) (Path.pieces path') →
        (Path.pieces path).head? = (Path.pieces path').head? →
        (ofPath path).toOption = (ofPath path').toOption) ∧
      ∀ path id, ofPath path = .ok id →
        (path.IsText → id.path.IsText) ∧
        (id.path.IsText → id.text.toList.head? ≠ some '\x00' →
          ofPath id.text = .ok id ∧ Binary.Codec.moduleId.Restores id ∧
            (Json.read? (Json.write (toValue id))).bind ofValue? = some id) := by
  refine ⟨fun path h => ⟨ofPath_error_iff h, ?form⟩, fun _ _ => toOption_ofPath_congr, ?saved⟩
  case form =>
    intro id hid
    obtain ⟨n, hne, hclean, habsolute, hpath⟩ := exists_normal h hid
    refine ⟨n, hne, cleaned_eq hclean hne, ?_⟩
    split at hpath
    · next hc =>
      have hrelative : ¬n.absolute := by
        rw [habsolute, hc.1]
        simp
      rw [hpath]
      refine ⟨.inr rfl, ⟨fun _ => hc, fun _ => ?_⟩, .inr fun s hs => ?_⟩
      · rw [n.bytes_current_text]
        exact List.prefix_append [Path.dot, Path.slash] _
      · rw [n.segments_current_text, List.tail_cons, Path.Normal.bytes_text_relative hrelative] at hs
        exact Path.Normal.ne_of_mem_segments (Path.Normal.texts_ne_nil hrelative hne) hs
    · next hc =>
      rw [hpath]
      exact ⟨.inl rfl, ⟨fun hdot => absurd hdot Path.Normal.not_current_text, fun h => absurd h hc⟩,
        Path.Normal.segments_text hne⟩
  case saved =>
    intro path id hid
    refine ⟨fun hpath => isText_path hpath hid, fun htext hnul => ?_⟩
    have hsaved : RawText.ofString id.text = id.path := htext
    refine ⟨?_, ?_, ?_⟩
    · rw [hsaved]
      exact ofPath_path hid htext hnul
    · exact Binary.Codec.Rereads.map (Binary.Codec.Restores.text id.text) (congrArg ModuleId.mk hsaved)
    · change (Json.read? (Json.write (.string id.text))).bind _ = _
      rw [Json.read?_write_string]
      exact congrArg (some ∘ ModuleId.mk) hsaved

end ModuleId

namespace Sample

def winding : RawText := "./src/../lib//./x.js/"

def straight : RawText := "./lib/x.js"

theorem ofPath_winding : ModuleId.ofPath winding = .ok ⟨straight⟩ := by
  decide +kernel

theorem straight_winding : Relation.EqvGen Path.Detour (Path.pieces straight) (Path.pieces winding) := by
  have hstraight : Path.pieces straight = [.current, .normal "lib", .normal "x.js"] := by decide +kernel
  have hwinding : Path.pieces winding
      = [.current, .normal "src", .parent, .normal "lib", .current, .normal "x.js"] := by decide +kernel
  rw [hstraight, hwinding]
  refine .trans _ [.current, .normal "src", .parent, .normal "lib", .normal "x.js"] _ (.rel _ _ ?_) (.rel _ _ ?_)
  · exact .back [.current] [.normal "lib", .normal "x.js"] "src"
  · exact .stay [.current, .normal "src", .parent, .normal "lib"] [.normal "x.js"]

end Sample

theorem ModuleId.ofPath_normal_sample
    : ¬NamesSynthetic Sample.winding ∧ ¬NamesSynthetic Sample.straight ∧
      Relation.EqvGen Path.Detour (Path.pieces Sample.straight) (Path.pieces Sample.winding) ∧
      (ofPath Sample.straight).toOption = (ofPath Sample.winding).toOption ∧
      ofPath Sample.winding = .ok ⟨Sample.straight⟩ ∧ Path.cleaned Sample.winding ≠ RawText.ofString "." ∧
      (∃ n : Path.Normal, Path.cleaned Sample.winding = n.text ∧ n.ups = 0) ∧
      ofPath (text ⟨Sample.straight⟩) = .ok ⟨Sample.straight⟩ ∧
      Binary.Codec.moduleId.Restores ⟨Sample.straight⟩ := by
  have hwinding : ¬NamesSynthetic Sample.winding := by
    unfold NamesSynthetic
    decide +kernel
  have hstraight : ¬NamesSynthetic Sample.straight := by
    unfold NamesSynthetic
    decide +kernel
  have ⟨hforms, hdetours, hsaved⟩ := ofPath_normal
  have ⟨herror, hform⟩ := hforms Sample.winding hwinding
  obtain ⟨n, -, hcleaned, -, hcurrent, -⟩ := hform _ Sample.ofPath_winding
  have ⟨htext, hread⟩ := hsaved _ _ Sample.ofPath_winding
  have ⟨hself, hrestores, _⟩ := hread (htext (RawText.isText_ofString _)) (by decide +kernel)
  refine ⟨hwinding, hstraight, Sample.straight_winding,
    hdetours _ _ hstraight hwinding Sample.straight_winding (by decide +kernel), Sample.ofPath_winding, ?_,
    ⟨n, hcleaned, (hcurrent.1 (by decide +kernel)).2⟩, hself, hrestores⟩
  intro hdot
  obtain ⟨e, he⟩ := herror.2 (.inr hdot)
  cases he.symm.trans Sample.ofPath_winding

end ModuleLink
