import Mathlib.Data.List.Induction
import Mathlib.Logic.Relation
import ModuleLink.Path
import ModuleLink.Proofs.RawText

/-!
This module contains the normal forms of paths. Cleaning a path gives its normal form, which is read back from its
bytes and is not changed by cleaning it again. Detours that lead back to where they start do not change the normal
form.
-/

namespace ModuleLink
namespace Path

structure IsName (name : RawText) : Prop where
  nonempty : name.bytes ≠ []
  not_current : name.bytes ≠ [dot]
  not_parent : name.bytes ≠ [dot, dot]
  not_slash : slash ∉ name.bytes

/--
A path without detours: from the root or a number of steps up, and from there on only names.
-/
structure Normal where
  absolute : Bool
  ups : Nat
  names : List RawText
  isName : ∀ name ∈ names, IsName name
  ups_eq_zero : absolute → ups = 0

namespace Normal

def body (n : Normal) : List Component := List.replicate n.ups .parent ++ n.names.map .normal

def components (n : Normal) : List Component := if n.absolute then .root :: n.body else n.body

def texts (n : Normal) : List RawText := List.replicate n.ups (.ofString "..") ++ n.names

def joined (n : Normal) : List UInt8 := [slash].intercalate (n.texts.map (·.bytes))

def text (n : Normal) : RawText := if n.absolute then ⟨slash :: n.joined⟩ else ⟨n.joined⟩

end Normal

def cleaned (path : RawText) : RawText :=
  if clean (components path) = [] then "." else render (clean (components path))

def piece? (s : List UInt8) : Option Component :=
  if s = [] then none
  else if s = [dot] then some .current
  else if s = [dot, dot] then some .parent
  else some (.normal ⟨s⟩)

def pieces (path : RawText) : List Component :=
  match path.bytes with
  | [] => []
  | c :: cs =>
    if c = slash then .root :: (segments slash cs).filterMap piece?
    else (segments slash (c :: cs)).filterMap piece?

inductive Detour : List Component → List Component → Prop where
  | stay (before after : List Component) : Detour (before ++ after) (before ++ .current :: after)
  | back (before after : List Component) (name : RawText)
      : Detour (before ++ after) (before ++ .normal name :: .parent :: after)

section Segments

variable {α : Type} [DecidableEq α] {separator : α}

theorem segments_eq_splitOn (cs : List α) : segments separator cs = cs.splitOn separator := by
  induction cs with
  | nil => rfl
  | cons c cs ih =>
    rw [segments, ih, List.splitOn_cons_eq_if_modifyHead]
    by_cases hc : c = separator
    · rw [if_pos hc, if_pos (beq_iff_eq.2 hc)]
    · rw [if_neg hc, if_neg (by simpa using hc)]
      cases hsplit : cs.splitOn separator with
      | nil => exact absurd hsplit (List.splitOn_ne_nil _ _)
      | cons s rest => rfl

theorem separator_not_mem_of_mem_segments {cs s : List α} (h : s ∈ segments separator cs) : separator ∉ s := by
  induction cs generalizing s with
  | nil =>
    cases List.mem_singleton.1 h
    exact List.not_mem_nil
  | cons c cs ih =>
    unfold segments at h
    split at h
    · rcases List.mem_cons.1 h with rfl | h
      · exact List.not_mem_nil
      · exact ih h
    · next hc =>
      split at h
      · cases List.mem_singleton.1 h
        simpa using Ne.symm hc
      · next first rest hsegments =>
        rw [hsegments] at ih
        rcases List.mem_cons.1 h with rfl | h
        · rw [List.mem_cons, not_or]
          exact ⟨Ne.symm hc, ih List.mem_cons_self⟩
        · exact ih (List.mem_cons_of_mem _ h)

theorem segments_intercalate {texts : List (List α)} (hne : texts ≠ []) (h : ∀ t ∈ texts, separator ∉ t)
    : segments separator ([separator].intercalate texts) = texts := by
  rw [segments_eq_splitOn]
  exact List.splitOn_intercalate separator h hne

theorem segments_cons {c : α} (hc : c ≠ separator) (cs : List α)
    : ∃ s rest, segments separator (c :: cs) = (c :: s) :: rest := by
  unfold segments
  rw [if_neg hc]
  split
  · exact ⟨[], [], rfl⟩
  · next s rest _ => exact ⟨s, rest, rfl⟩

theorem segments_append {before : List α} (h : separator ∉ before) {cs s : List α} {rest : List (List α)}
    (hcs : segments separator cs = s :: rest) : segments separator (before ++ cs) = (before ++ s) :: rest := by
  induction before with
  | nil => exact hcs
  | cons c before ih =>
    have ⟨hc, hbefore⟩ := not_or.1 (fun hmem => h (List.mem_cons.2 hmem))
    rw [List.cons_append, segments, if_neg (Ne.symm hc), ih hbefore]
    rfl

theorem segments_ne_nil (cs : List α) : segments separator cs ≠ [] := by
  rw [segments_eq_splitOn]
  exact List.splitOn_ne_nil _ _

end Segments

section Clean

theorem clean_concat (cs : List Component) (c : Component)
    : clean (cs ++ [c]) = (cleanStep (clean cs).reverse c).reverse := by
  unfold clean
  rw [List.foldl_append, List.reverse_reverse]
  rfl

theorem clean_concat_current (cs : List Component) : clean (cs ++ [.current]) = clean cs := by
  rw [clean_concat, cleanStep, List.reverse_reverse]

theorem clean_concat_normal (cs : List Component) (name : RawText)
    : clean (cs ++ [.normal name]) = clean cs ++ [.normal name] := by
  rw [clean_concat]
  change ((Component.normal name) :: (clean cs).reverse).reverse = _
  rw [List.reverse_cons, List.reverse_reverse]

theorem clean_concat_parent {cs : List Component} {k : Nat} (h : clean cs = List.replicate k .parent)
    : clean (cs ++ [.parent]) = List.replicate (k + 1) .parent := by
  rw [clean_concat, h, List.reverse_replicate]
  cases k with
  | zero => rfl
  | succ k =>
    change (Component.parent :: List.replicate (k + 1) .parent).reverse = _
    rw [← List.replicate_succ, List.reverse_replicate]

theorem clean_congr {cs cs' : List Component} (after : List Component) (h : clean cs = clean cs')
    : clean (cs ++ after) = clean (cs' ++ after) := by
  induction after using List.reverseRecOn with
  | nil => rwa [List.append_nil, List.append_nil]
  | append_singleton after c ih =>
    rw [← List.append_assoc, ← List.append_assoc, clean_concat, clean_concat, ih]

theorem Detour.clean_eq {cs cs' : List Component} (h : Detour cs cs') : clean cs = clean cs' := by
  cases h with
  | stay before after =>
    rw [← List.singleton_append, ← List.append_assoc]
    exact clean_congr after (clean_concat_current before).symm
  | back before after name =>
    -- The step up takes back the name that was put on just before it.
    have hback : clean (before ++ [.normal name] ++ [.parent]) = clean before := by
      rw [clean_concat, clean_concat_normal, List.reverse_append]
      change (clean before).reverse.reverse = _
      rw [List.reverse_reverse]
    have hsplit : before ++ .normal name :: .parent :: after = before ++ [.normal name] ++ [.parent] ++ after := by
      simp
    rw [hsplit]
    exact clean_congr after hback.symm

theorem clean_eq_of_detours {cs cs' : List Component} (h : Relation.EqvGen Detour cs cs') : clean cs = clean cs' := by
  induction h with
  | rel _ _ hdetour => exact hdetour.clean_eq
  | refl _ => rfl
  | symm _ _ _ ih => exact ih.symm
  | trans _ _ _ _ _ ih ih' => exact ih.trans ih'

theorem clean_filter (before cs : List Component)
    : clean (before ++ cs.filter (· ≠ .current)) = clean (before ++ cs) := by
  induction cs using List.reverseRecOn with
  | nil => rfl
  | append_singleton cs c ih =>
    rw [List.filter_append, ← List.append_assoc, ← List.append_assoc, clean_concat, ← ih]
    by_cases hc : c = .current
    · rw [hc, ← clean_concat, clean_concat_current]
      simp
    · rw [← clean_concat]
      simp [hc]

end Clean

section Components

inductive Inner : Component → Prop where
  | parent : Inner .parent
  | normal {name : RawText} : IsName name → Inner (.normal name)

theorem Inner.component?_text {c : Component} (h : Inner c) : component? c.text.bytes = some c := by
  cases h with
  | parent => rfl
  | @normal name hname =>
    change component? name.bytes = _
    unfold component?
    rw [if_neg (not_or.2 ⟨hname.nonempty, hname.not_current⟩), if_neg hname.not_parent]

theorem inner_of_component? {s : List UInt8} {c : Component} (hs : slash ∉ s) (h : component? s = some c)
    : Inner c := by
  unfold component? at h
  split at h
  · cases h
  · next hnone =>
    have ⟨hnil, hcurrent⟩ := not_or.1 hnone
    split at h
    · cases h
      exact .parent
    · next hparent =>
      cases h
      exact .normal ⟨hnil, hcurrent, hparent, hs⟩

theorem inner_of_mem_filterMap {segs : List (List UInt8)} {c : Component} (hsegs : ∀ s ∈ segs, slash ∉ s)
    (h : c ∈ segs.filterMap component?) : Inner c := by
  obtain ⟨s, hs, hc⟩ := List.mem_filterMap.1 h
  exact inner_of_component? (hsegs s hs) hc

theorem components_absolute {path : RawText} {cs : List UInt8} (h : path.bytes = slash :: cs)
    : components path = .root :: (segments slash cs).filterMap component? := by
  unfold components
  rw [h]
  rfl

theorem components_relative {path : RawText} (h : path.bytes.head? ≠ some slash)
    (hfirst : (segments slash path.bytes).head? ≠ some [dot])
    : components path = (segments slash path.bytes).filterMap component? := by
  unfold components
  cases hbytes : path.bytes with
  | nil => rfl
  | cons c cs =>
    rw [hbytes] at h hfirst
    have hc : c ≠ slash := fun hc => h (congrArg some hc)
    obtain ⟨s, rest, hsegments⟩ := segments_cons hc cs
    rw [hsegments] at hfirst
    dsimp only
    rw [if_neg hc, hsegments]
    dsimp only
    rw [if_neg fun hdot => hfirst (congrArg some hdot)]

theorem components_current {path : RawText} {rest : List (List UInt8)}
    (h : segments slash path.bytes = [dot] :: rest) : components path = .current :: rest.filterMap component? := by
  unfold components
  cases hbytes : path.bytes with
  | nil =>
    rw [hbytes] at h
    cases h
  | cons c cs =>
    rw [hbytes] at h
    dsimp only
    split
    · next hc =>
      rw [hc, segments, if_pos rfl] at h
      cases h
    · rw [h]
      rfl

theorem pieces_absolute {path : RawText} {cs : List UInt8} (h : path.bytes = slash :: cs)
    : pieces path = .root :: (segments slash cs).filterMap piece? := by
  unfold pieces
  rw [h]
  rfl

theorem pieces_relative {path : RawText} (h : path.bytes.head? ≠ some slash)
    : pieces path = (segments slash path.bytes).filterMap piece? := by
  unfold pieces
  cases hbytes : path.bytes with
  | nil => rfl
  | cons c cs =>
    rw [hbytes] at h
    dsimp only
    rw [if_neg fun hc => h (congrArg some hc)]

theorem head?_cases (path : RawText) : (∃ cs, path.bytes = slash :: cs) ∨ path.bytes.head? ≠ some slash := by
  by_cases h : path.bytes.head? = some slash
  · exact .inl (List.head?_eq_some_iff.1 h)
  · exact .inr h

theorem components_cases (path : RawText)
    : ∃ body, (∀ c ∈ body, Inner c) ∧
        (components path = .root :: body ∨ components path = .current :: body ∨ components path = body) := by
  rcases head?_cases path with ⟨cs, hslash⟩ | hslash
  · refine ⟨_, ?_, .inl (components_absolute hslash)⟩
    exact fun c => inner_of_mem_filterMap fun s => separator_not_mem_of_mem_segments
  · have hsegments : ∀ s ∈ segments slash path.bytes, slash ∉ s := fun s => separator_not_mem_of_mem_segments
    by_cases hfirst : (segments slash path.bytes).head? = some [dot]
    · obtain ⟨rest, hrest⟩ := List.head?_eq_some_iff.1 hfirst
      rw [hrest] at hsegments
      refine ⟨_, ?_, .inr (.inl (components_current hrest))⟩
      exact fun c => inner_of_mem_filterMap (List.forall_mem_cons.1 hsegments).2
    · refine ⟨_, ?_, .inr (.inr (components_relative hslash hfirst))⟩
      exact fun c => inner_of_mem_filterMap hsegments

theorem component?_eq (s : List UInt8) : component? s = (piece? s).filter (· ≠ .current) := by
  unfold component? piece?
  by_cases hnil : s = []
  · rw [if_pos (.inl hnil), if_pos hnil]
    rfl
  by_cases hcurrent : s = [dot]
  · rw [if_pos (.inr hcurrent), if_neg hnil, if_pos hcurrent]
    rfl
  rw [if_neg (not_or.2 ⟨hnil, hcurrent⟩), if_neg hnil, if_neg hcurrent]
  split <;> rfl

theorem filterMap_component? (segs : List (List UInt8))
    : segs.filterMap component? = (segs.filterMap piece?).filter (· ≠ .current) := by
  rw [List.filter_filterMap]
  exact congrArg (List.filterMap · segs) (funext component?_eq)

theorem components_eq_pieces (path : RawText)
    : (pieces path = [] ∧ components path = []) ∨
      ∃ first rest, pieces path = first :: rest ∧ components path = first :: rest.filter (· ≠ .current) := by
  rcases head?_cases path with ⟨cs, hslash⟩ | hslash
  · rw [pieces_absolute hslash, components_absolute hslash, filterMap_component?]
    exact .inr ⟨_, _, rfl, rfl⟩
  · cases hbytes : path.bytes with
    | nil =>
      rw [pieces_relative hslash, components_relative hslash (by rw [hbytes]; simp [segments]), hbytes]
      exact .inl ⟨rfl, rfl⟩
    | cons c cs =>
      have hc : c ≠ slash := fun hc => hslash (by rw [hbytes, hc]; rfl)
      obtain ⟨s, rest, hsegments⟩ := segments_cons hc cs
      rw [← hbytes] at hsegments
      rw [pieces_relative hslash, hsegments]
      by_cases hfirst : c :: s = [dot]
      · rw [hfirst] at hsegments ⊢
        rw [components_current hsegments, filterMap_component?]
        exact .inr ⟨_, _, rfl, rfl⟩
      · -- The first segment is neither empty nor a dot, so it has a component in either list.
        obtain ⟨first, hpiece, hcurrent⟩ : ∃ first, piece? (c :: s) = some first ∧ first ≠ .current := by
          unfold piece?
          rw [if_neg (List.cons_ne_nil c s), if_neg hfirst]
          split
          · exact ⟨_, rfl, nofun⟩
          · exact ⟨_, rfl, nofun⟩
        rw [components_relative hslash (by rw [hsegments]; simpa using hfirst), hsegments, filterMap_component?,
          List.filterMap_cons_some hpiece, List.filter_cons_of_pos (by simpa using hcurrent)]
        exact .inr ⟨_, _, rfl, rfl⟩

theorem head?_components (path : RawText) : (components path).head? = (pieces path).head? := by
  rcases components_eq_pieces path with ⟨hpieces, hcomponents⟩ | ⟨first, rest, hpieces, hcomponents⟩
  · rw [hpieces, hcomponents]
  · rw [hpieces, hcomponents]
    rfl

theorem clean_components (path : RawText) : clean (components path) = clean (pieces path) := by
  rcases components_eq_pieces path with ⟨hpieces, hcomponents⟩ | ⟨first, rest, hpieces, hcomponents⟩
  · rw [hpieces, hcomponents]
  · rw [hpieces, hcomponents]
    exact clean_filter [first] rest

end Components

namespace Normal

def concat (n : Normal) {name : RawText} (h : IsName name) : Normal where
  absolute := n.absolute
  ups := n.ups
  names := n.names ++ [name]
  isName := List.forall_mem_append.2 ⟨n.isName, List.forall_mem_singleton.2 h⟩
  ups_eq_zero := n.ups_eq_zero

theorem components_concat (n : Normal) {name : RawText} (h : IsName name)
    : (n.concat h).components = n.components ++ [.normal name] := by
  unfold components body concat
  split <;> simp

theorem eq_concat {n : Normal} (h : n.names ≠ [])
    : ∃ (m : Normal) (name : RawText) (hname : IsName name), n = m.concat hname := by
  obtain ⟨absolute, ups, names, isName, hups⟩ := n
  rcases List.eq_nil_or_concat names with hnil | ⟨init, last, rfl⟩
  · exact absurd hnil h
  · simp only [List.concat_eq_append] at isName
    have ⟨hinit, hlast⟩ := List.forall_mem_append.1 isName
    refine ⟨⟨absolute, ups, init, hinit, hups⟩, last, List.forall_mem_singleton.1 hlast, ?_⟩
    simp [concat]

theorem components_of_names_eq_nil {n : Normal} (h : n.names = [])
    : n.components = if n.absolute then [.root] else List.replicate n.ups .parent := by
  unfold components body
  split
  · next habsolute => simp [h, n.ups_eq_zero habsolute]
  · simp [h]

theorem clean_concat_inner {n : Normal} {cs : List Component} {c : Component} (h : clean cs = n.components)
    (hc : Inner c)
    : ∃ m : Normal, clean (cs ++ [c]) = m.components ∧ m.absolute = n.absolute := by
  cases hc with
  | @normal name hname =>
    refine ⟨n.concat hname, ?_, rfl⟩
    rw [clean_concat_normal, h, components_concat]
  | parent =>
    by_cases hnames : n.names = []
    · rw [components_of_names_eq_nil hnames] at h
      cases habsolute : n.absolute with
      | true =>
        -- There is nothing above the root.
        refine ⟨n, ?_, habsolute⟩
        rw [clean_concat, h, components_of_names_eq_nil hnames, habsolute]
        rfl
      | false =>
        rw [habsolute] at h
        refine ⟨⟨false, n.ups + 1, [], by simp, by simp⟩, ?_, rfl⟩
        rw [clean_concat_parent h, components_of_names_eq_nil rfl]
        rfl
    · obtain ⟨m, name, hname, rfl⟩ := eq_concat hnames
      refine ⟨m, ?_, rfl⟩
      rw [clean_concat, h, components_concat, List.reverse_append]
      exact List.reverse_reverse m.components

theorem clean_append_inner {n : Normal} {body : List Component} (cs : List Component) (h : clean cs = n.components)
    (hbody : ∀ c ∈ body, Inner c)
    : ∃ m : Normal, clean (cs ++ body) = m.components ∧ m.absolute = n.absolute := by
  induction body using List.reverseRecOn with
  | nil =>
    rw [List.append_nil]
    exact ⟨n, h, rfl⟩
  | append_singleton body c ih =>
    have ⟨hbody, hc⟩ := List.forall_mem_append.1 hbody
    obtain ⟨m, hm, habsolute⟩ := ih hbody
    obtain ⟨m', hm', habsolute'⟩ := clean_concat_inner hm (List.forall_mem_singleton.1 hc)
    rw [List.append_assoc] at hm'
    exact ⟨m', hm', habsolute'.trans habsolute⟩

def start (absolute : Bool) : Normal := ⟨absolute, 0, [], List.forall_mem_nil _, fun _ => rfl⟩

theorem exists_clean_eq (path : RawText)
    : ∃ n : Normal, clean (Path.components path) = n.components ∧
        (n.absolute ↔ (Path.components path).head? = some .root) := by
  obtain ⟨body, hbody, htext | htext | htext⟩ := components_cases path
  · obtain ⟨n, hn, habsolute⟩ := clean_append_inner (n := start true) [.root] rfl hbody
    refine ⟨n, htext ▸ hn, ?_⟩
    rw [htext, habsolute]
    exact ⟨fun _ => rfl, fun _ => rfl⟩
  · obtain ⟨n, hn, habsolute⟩ := clean_append_inner (n := start false) [.current] rfl hbody
    refine ⟨n, htext ▸ hn, ?_⟩
    rw [htext, habsolute]
    simp [start]
  · obtain ⟨n, hn, habsolute⟩ := clean_append_inner (n := start false) [] rfl hbody
    refine ⟨n, htext ▸ hn, ?_⟩
    rw [htext, habsolute]
    refine ⟨fun hstart => absurd hstart Bool.false_ne_true, fun hroot => ?_⟩
    cases hbody _ (List.mem_of_mem_head? hroot)

theorem clean_append_names (cs : List Component) (names : List RawText)
    : clean (cs ++ names.map .normal) = clean cs ++ names.map .normal := by
  induction names using List.reverseRecOn with
  | nil => rw [List.map_nil, List.append_nil, List.append_nil]
  | append_singleton names name ih =>
    rw [List.map_append, ← List.append_assoc, List.map_singleton, clean_concat_normal, ih, List.append_assoc]

theorem clean_replicate_parent (k : Nat) : clean (List.replicate k .parent) = List.replicate k .parent := by
  induction k with
  | zero => rfl
  | succ k ih =>
    rw [List.replicate_succ', clean_concat_parent ih, List.replicate_succ']

theorem clean_components (n : Normal) : clean n.components = n.components := by
  unfold components body
  split
  · next habsolute =>
    rw [n.ups_eq_zero habsolute]
    exact clean_append_names [.root] n.names
  · rw [clean_append_names, clean_replicate_parent]

theorem inner_of_mem_body {n : Normal} {c : Component} (h : c ∈ n.body) : Inner c := by
  rcases List.mem_append.1 h with hup | hname
  · rw [List.eq_of_mem_replicate hup]
    exact .parent
  · obtain ⟨name, hmem, rfl⟩ := List.mem_map.1 hname
    exact .normal (n.isName name hmem)

theorem head?_components_eq_parent_iff (n : Normal) : n.components.head? = some .parent ↔ n.ups ≠ 0 := by
  unfold components body
  split
  · next habsolute => simp [n.ups_eq_zero habsolute]
  · cases n.ups with
    | zero => simp [List.head?_map]
    | succ k => simp [List.replicate_succ]

theorem map_text_body (n : Normal) : n.body.map Component.text = n.texts := by
  unfold body texts
  rw [List.map_append, List.map_replicate, List.map_map]
  congr 1
  exact List.map_id n.names

theorem render_components (n : Normal) : render n.components = n.text := by
  unfold components text joined
  split
  · rw [render, ← map_text_body, List.map_map]
    rfl
  · rw [← map_text_body, List.map_map]
    cases hbody : n.body with
    | nil => rfl
    | cons c cs =>
      have hc : Inner c := inner_of_mem_body (hbody ▸ List.mem_cons_self)
      cases hc with
      | parent => rfl
      | normal => rfl

theorem of_mem_texts {n : Normal} {t : RawText} (h : t ∈ n.texts)
    : t.bytes ≠ [] ∧ t.bytes ≠ [dot] ∧ slash ∉ t.bytes := by
  rcases List.mem_append.1 h with hup | hname
  · rw [List.eq_of_mem_replicate hup]
    decide
  · have hname := n.isName t hname
    exact ⟨hname.nonempty, hname.not_current, hname.not_slash⟩

theorem filterMap_texts (n : Normal) : (n.texts.map (·.bytes)).filterMap component? = n.body := by
  have hbody : ∀ c ∈ n.body, component? c.text.bytes = some c := fun c hc => (inner_of_mem_body hc).component?_text
  rw [← map_text_body, List.map_map, List.filterMap_map]
  generalize n.body = body at hbody
  induction body with
  | nil => rfl
  | cons c cs ih =>
    have ⟨hc, hcs⟩ := List.forall_mem_cons.1 hbody
    rw [List.filterMap_cons_some (f := component? ∘ RawText.bytes ∘ Component.text) hc, ih hcs]

theorem segments_joined {n : Normal} (h : n.texts ≠ []) : segments slash n.joined = n.texts.map (·.bytes) := by
  apply segments_intercalate
  · simpa using h
  · intro bs hbs
    obtain ⟨t, ht, rfl⟩ := List.mem_map.1 hbs
    exact (of_mem_texts ht).2.2

theorem filterMap_segments (n : Normal) : (segments slash n.joined).filterMap component? = n.body := by
  by_cases h : n.texts = []
  · have hbody : n.body = [] := by
      rw [← List.map_eq_nil_iff, map_text_body, h]
    rw [joined, h, hbody]
    rfl
  · rw [segments_joined h, filterMap_texts]

theorem bytes_text_absolute {n : Normal} (h : n.absolute) : n.text.bytes = slash :: n.joined := by
  rw [text, if_pos h]

theorem bytes_text_relative {n : Normal} (h : ¬n.absolute) : n.text.bytes = n.joined := by
  rw [text, if_neg h]

theorem ne_of_mem_segments {n : Normal} (hne : n.texts ≠ []) {s : List UInt8} (hs : s ∈ segments slash n.joined)
    : s ≠ [] ∧ s ≠ [dot] := by
  rw [segments_joined hne] at hs
  obtain ⟨t, ht, rfl⟩ := List.mem_map.1 hs
  have ⟨hempty, hcurrent, _⟩ := of_mem_texts ht
  exact ⟨hempty, hcurrent⟩

theorem head?_text_relative {n : Normal} (h : ¬n.absolute) : n.text.bytes.head? ≠ some slash := by
  intro hslash
  obtain ⟨cs, hcs⟩ := List.head?_eq_some_iff.1 hslash
  rw [bytes_text_relative h] at hcs
  by_cases hne : n.texts = []
  · rw [joined, hne] at hcs
    cases hcs
  · -- A slash at the beginning has an empty segment before it.
    refine (ne_of_mem_segments hne (s := []) ?_).1 rfl
    rw [hcs]
    exact List.mem_cons_self

theorem components_text (n : Normal) : Path.components n.text = n.components := by
  unfold components
  split
  · next habsolute =>
    rw [components_absolute (bytes_text_absolute habsolute), filterMap_segments]
  · next hrelative =>
    rw [components_relative (head?_text_relative hrelative), bytes_text_relative hrelative, filterMap_segments]
    rw [bytes_text_relative hrelative]
    intro hfirst
    by_cases hne : n.texts = []
    · rw [joined, hne] at hfirst
      cases hfirst
    · exact (ne_of_mem_segments hne (List.mem_of_mem_head? hfirst)).2 rfl

theorem bytes_current_text (n : Normal) : (RawText.ofString "./" ++ n.text).bytes = dot :: slash :: n.text.bytes := rfl

theorem segments_current_text (n : Normal)
    : segments slash (RawText.ofString "./" ++ n.text).bytes = [dot] :: segments slash n.text.bytes := rfl

theorem components_current_text {n : Normal} (h : ¬n.absolute)
    : Path.components (RawText.ofString "./" ++ n.text) = .current :: n.components := by
  rw [components_current n.segments_current_text, bytes_text_relative h, filterMap_segments, components, if_neg h]

theorem texts_ne_nil {n : Normal} (h : ¬n.absolute) (hne : n.components ≠ []) : n.texts ≠ [] := by
  rw [← map_text_body, ne_eq, List.map_eq_nil_iff]
  rwa [components, if_neg h] at hne

theorem segments_text {n : Normal} (hne : n.components ≠ [])
    : n.text.bytes = [slash] ∨ ∀ s ∈ (segments slash n.text.bytes).tail, s ≠ [] ∧ s ≠ [dot] := by
  by_cases habsolute : n.absolute
  · by_cases htexts : n.texts = []
    · refine .inl ?_
      rw [bytes_text_absolute habsolute, joined, htexts]
      rfl
    · refine .inr fun s hs => ne_of_mem_segments htexts ?_
      rw [bytes_text_absolute habsolute] at hs
      exact hs
  · refine .inr fun s hs => ne_of_mem_segments (texts_ne_nil habsolute hne) ?_
    rw [← bytes_text_relative habsolute]
    exact List.mem_of_mem_tail hs

theorem current_not_mem_components (n : Normal) : .current ∉ n.components := by
  have hbody : .current ∉ n.body := by
    intro h
    cases inner_of_mem_body h
  unfold components
  split
  · simpa using hbody
  · exact hbody

theorem not_current_text {n : Normal} : ¬[dot, slash] <+: n.text.bytes := by
  rintro ⟨cs, hcs⟩
  have hcomponents : Path.components n.text = .current :: (segments slash cs).filterMap component? := by
    apply components_current
    rw [← hcs]
    rfl
  rw [components_text] at hcomponents
  apply n.current_not_mem_components
  rw [hcomponents]
  exact List.mem_cons_self

end Normal

section Text

theorem slash_not_mem_utf8EncodeChar {c : Char} (h : c ≠ '/') : slash ∉ String.utf8EncodeChar c := by
  intro hmem
  by_cases hc : c.val.toNat ≤ 127
  · rw [RawText.utf8EncodeChar_eq_singleton hc] at hmem
    have hnat : (UInt8.ofNat c.val.toNat).toNat = 47 := congrArg UInt8.toNat (List.mem_singleton.1 hmem).symm
    rw [RawText.Reader.toNat_ofNat (by omega)] at hnat
    apply h
    rw [← c.ofNat_toNat]
    exact congrArg Char.ofNat hnat
  · exact absurd (RawText.le_of_mem_utf8EncodeChar (by omega) hmem) (by decide)

theorem segments_flatMap (cs : List Char)
    : segments slash (cs.flatMap String.utf8EncodeChar)
        =
      (segments '/' cs).map (·.flatMap String.utf8EncodeChar) := by
  induction cs with
  | nil => rfl
  | cons c cs ih =>
    rw [List.flatMap_cons, segments]
    split
    · next hc =>
      rw [hc, List.map_cons, ← ih]
      rfl
    · next hc =>
      cases hsegments : segments '/' cs with
      | nil => exact absurd hsegments (segments_ne_nil cs)
      | cons s rest =>
        rw [hsegments] at ih
        exact segments_append (slash_not_mem_utf8EncodeChar hc) ih

theorem isText_of_mem_segments {bs s : List UInt8} (h : RawText.IsText ⟨bs⟩) (hs : s ∈ segments slash bs)
    : RawText.IsText ⟨s⟩ := by
  obtain ⟨cs, rfl⟩ := RawText.isText_iff.1 h
  rw [segments_flatMap] at hs
  obtain ⟨t, -, rfl⟩ := List.mem_map.1 hs
  exact RawText.isText_iff.2 ⟨t, rfl⟩

theorem isText_of_mem_filterMap {segs : List (List UInt8)} {name : RawText}
    (hsegs : ∀ s ∈ segs, RawText.IsText ⟨s⟩) (h : .normal name ∈ segs.filterMap component?) : name.IsText := by
  obtain ⟨s, hs, hname⟩ := List.mem_filterMap.1 h
  have htext := hsegs s hs
  unfold component? at hname
  split at hname
  · cases hname
  split at hname
  · cases hname
  · cases hname
    exact htext

theorem isText_of_mem_components {path name : RawText} (h : path.IsText) (hname : .normal name ∈ components path)
    : name.IsText := by
  rcases head?_cases path with ⟨cs, hslash⟩ | hslash
  · rw [components_absolute hslash] at hname
    refine isText_of_mem_filterMap ?_ ((List.mem_cons.1 hname).resolve_left nofun)
    intro s hs
    have hsegment : s ∈ segments slash path.bytes := by
      rw [hslash, segments, if_pos rfl]
      exact List.mem_cons_of_mem _ hs
    exact isText_of_mem_segments h hsegment
  · have hsegments : ∀ s ∈ segments slash path.bytes, RawText.IsText ⟨s⟩ := fun s => isText_of_mem_segments h
    by_cases hfirst : (segments slash path.bytes).head? = some [dot]
    · obtain ⟨rest, hrest⟩ := List.head?_eq_some_iff.1 hfirst
      rw [components_current hrest] at hname
      rw [hrest] at hsegments
      exact isText_of_mem_filterMap (List.forall_mem_cons.1 hsegments).2 ((List.mem_cons.1 hname).resolve_left nofun)
    · rw [components_relative hslash hfirst] at hname
      exact isText_of_mem_filterMap hsegments hname

theorem mem_of_mem_cleanStep {stack : List Component} {c x : Component} (h : x ∈ cleanStep stack c)
    : x = c ∨ x ∈ stack := by
  unfold cleanStep at h
  split at h
  · exact .inr h
  · exact .inr h
  · exact .inr (List.mem_cons_of_mem _ h)
  · exact List.mem_cons.1 h

theorem mem_of_mem_clean {cs : List Component} {x : Component} (h : x ∈ clean cs) : x ∈ cs := by
  induction cs using List.reverseRecOn with
  | nil => exact h
  | append_singleton cs c ih =>
    rw [clean_concat, List.mem_reverse] at h
    rcases mem_of_mem_cleanStep h with rfl | hstack
    · exact List.mem_append_right _ List.mem_cons_self
    · exact List.mem_append_left _ (ih (List.mem_reverse.1 hstack))

theorem isText_slash : RawText.IsText ⟨[slash]⟩ := RawText.isText_ofString "/"

theorem isText_intercalate {parts : List (List UInt8)} (h : ∀ bs ∈ parts, RawText.IsText ⟨bs⟩)
    : RawText.IsText ⟨[slash].intercalate parts⟩ := by
  induction parts with
  | nil => exact RawText.isText_ofString ""
  | cons bs parts ih =>
    have ⟨hbs, hparts⟩ := List.forall_mem_cons.1 h
    cases parts with
    | nil =>
      rw [List.intercalate_singleton]
      exact hbs
    | cons bs' parts =>
      rw [List.intercalate_cons_cons]
      exact (hbs.append isText_slash).append (ih hparts)

theorem isText_render {cs : List Component} (h : ∀ name, .normal name ∈ cs → name.IsText) : (render cs).IsText := by
  have htexts : ∀ bs ∈ cs.map (·.text.bytes), RawText.IsText ⟨bs⟩ := by
    intro bs hbs
    obtain ⟨c, hc, rfl⟩ := List.mem_map.1 hbs
    cases c with
    | normal name => exact h name hc
    | _ => exact RawText.isText_ofString _
  unfold render
  split
  · exact isText_slash.append (isText_intercalate fun bs hbs => htexts bs (List.mem_cons_of_mem _ hbs))
  · exact isText_intercalate htexts

end Text

end Path
end ModuleLink
