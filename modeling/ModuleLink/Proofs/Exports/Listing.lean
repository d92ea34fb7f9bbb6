import ModuleLink.Proofs.Exports.Ownership

/-!
This module contains the proof that the lists of exports agree with the lookups of single ones. A lookup takes the first
descriptor along the redirects that lists the name, the list of all visible exports overwrites a map from the far end of
the redirects, and the list of the relevant ones drops from the list of the redirect what is listed before it.
-/

namespace ModuleLink
namespace Arena

variable {a : Arena} {d e : DescriptorId} {name : String} {r : RecordId}

def visibleNames (a : Arena) (d : DescriptorId) : Dict String RecordId :=
  (a.chain d).foldr (fun e names => a.visibleStep e (some names)) .empty

theorem visible_eq (a : Arena) (d : DescriptorId)
    : a.visible d = ((a.visibleNames d).entries.mergeSort fun x y => decide (x.1 ≤ y.1)).map Prod.snd := rfl

namespace Named

theorem get?_visibleStep (h : a.Named) (d : DescriptorId) (names : Dict String RecordId) (name : String)
    : (a.visibleStep d (some names)).get? name = (a.listed? d name).or (names.get? name) := by
  have hown : a.listed? d name = ((a.descriptor d).exports.entries.reverse.find? (·.1 == name)).map Prod.snd := by
    rw [← Dict.get?_ofList, Dict.ofList_entries (h.keys d)]
    rfl
  rw [hown]
  exact Dict.get?_foldl_insert _ names name

theorem get?_visibleNames (h : a.Named) (d : DescriptorId) (name : String)
    : (a.visibleNames d).get? name = a.find? d name := by
  -- What is overwritten last from the far end is what is found first from the near end.
  unfold visibleNames find?
  induction a.chain d with
  | nil => rfl
  | cons e es ih =>
    rw [List.foldr_cons, h.get?_visibleStep, ih, List.findSome?_cons]
    cases a.listed? e name with
    | none => rfl
    | some r => rfl

theorem nodup_locals (h : a.Named) (d : DescriptorId) : (a.locals d).Nodup := by
  have hkeys : (a.descriptor d).exports.entries.Pairwise fun x y => x.1 ≠ y.1 := by
    refine (List.pairwise_map.1 (h.keys d)).imp ?_
    intro x y hne
    simpa using hne
  refine List.pairwise_map.2 (hkeys.imp_of_mem ?_)
  -- A record has one name, so it is not listed under two.
  intro x y hx hy hne hsame
  have hname := h.names (Dict.get?_of_mem_entries (h.keys d) hx)
  rw [hsame, h.names (Dict.get?_of_mem_entries (h.keys d) hy)] at hname
  exact hne (Option.some.inj hname).symm

theorem nodup_orderedLocals (h : a.Named) (d : DescriptorId) : (a.orderedLocals d).Nodup :=
  ((List.mergeSort_perm _ _).map Prod.snd).nodup_iff.2 (h.nodup_locals d)

end Named

theorem distinctKeys_visibleNames (a : Arena) (d : DescriptorId) : (a.visibleNames d).DistinctKeys := by
  unfold visibleNames
  induction a.chain d with
  | nil => exact Dict.distinctKeys_empty
  | cons e es ih => exact ih.foldl_insert _

def sortedNames (a : Arena) (d : DescriptorId) : List String :=
  ((a.visibleNames d).entries.mergeSort fun x y => decide (x.1 ≤ y.1)).map Prod.fst

theorem pairwise_sortedNames (a : Arena) (d : DescriptorId) : (a.sortedNames d).Pairwise (· < ·) := by
  refine List.pairwise_map.2 (pairwise_mergeSort_of_nodup Prod.fst ?_)
  refine (a.distinctKeys_visibleNames d).imp ?_
  intro name name' hne
  simpa using hne

theorem find?_isSome_iff : (a.find? d name).isSome ↔ ∃ e ∈ a.chain d, (a.listed? e name).isSome := by
  unfold find?
  rw [List.findSome?_isSome_iff]

namespace Named

theorem mem_entries_visibleNames (h : a.Named) : (name, r) ∈ (a.visibleNames d).entries ↔ a.find? d name = some r := by
  rw [← h.get?_visibleNames]
  constructor
  · exact Dict.get?_of_mem_entries (a.distinctKeys_visibleNames d)
  · intro hr
    obtain ⟨name', hname, hmem⟩ := Dict.mem_entries_of_get? hr
    rwa [eq_of_beq hname] at hmem

theorem mem_sortedNames (h : a.Named) : name ∈ a.sortedNames d ↔ ∃ e ∈ a.chain d, (a.listed? e name).isSome := by
  rw [← find?_isSome_iff, Option.isSome_iff_exists, sortedNames, List.mem_map]
  constructor
  · rintro ⟨⟨name, r⟩, hmem, rfl⟩
    exact ⟨r, h.mem_entries_visibleNames.1 (List.mem_mergeSort.1 hmem)⟩
  · rintro ⟨r, hr⟩
    exact ⟨(name, r), List.mem_mergeSort.2 (h.mem_entries_visibleNames.2 hr), rfl⟩

theorem visible_eq_map (h : a.Named) (d : DescriptorId) : a.visible d = (a.sortedNames d).map (a.lookup d) := by
  rw [visible_eq, sortedNames, List.map_map]
  apply List.map_congr_left
  intro entry hentry
  have hfind := h.mem_entries_visibleNames.1 (List.mem_mergeSort.1 hentry)
  exact (congrArg (Option.getD · (a.other d)) hfind).symm

theorem mem_visible (h : a.Named) : r ∈ a.visible d ↔ ∃ name, a.find? d name = some r := by
  rw [visible_eq, List.mem_map]
  constructor
  · rintro ⟨⟨name, r⟩, hmem, rfl⟩
    exact ⟨name, h.mem_entries_visibleNames.1 (List.mem_mergeSort.1 hmem)⟩
  · rintro ⟨name, hr⟩
    exact ⟨(name, r), List.mem_mergeSort.2 (h.mem_entries_visibleNames.2 hr), rfl⟩

theorem name_lookup (h : a.Named) (hname : name ∈ a.sortedNames d)
    : a.find? d name = some (a.lookup d name) ∧ (a.record (a.lookup d name)).name = some name := by
  obtain ⟨r, hr⟩ := Option.isSome_iff_exists.1 (find?_isSome_iff.2 (h.mem_sortedNames.1 hname))
  have hlookup : a.lookup d name = r := congrArg (Option.getD · (a.other d)) hr
  rw [hlookup]
  exact ⟨hr, h.name_find? hr⟩

end Named

theorem isRelevant_iff
    : a.isRelevant r ↔ (a.record r).used ≠ .unused ∧ (a.record r).provided ≠ .notProvided := by
  simp [isRelevant, Usage.isUsed]

theorem mem_orderedLocals_iff (h : a.Named) : r ∈ a.orderedLocals d ↔ ∃ name, a.listed? d name = some r := by
  rw [mem_orderedLocals]
  constructor
  · intro hr
    obtain ⟨name, hlisted, -⟩ := h.listed_of_mem hr
    exact ⟨name, hlisted⟩
  · rintro ⟨name, hlisted⟩
    exact Dict.mem_values_of_get? hlisted

def Shadows (a : Arena) (d : DescriptorId) (r : RecordId) : Prop :=
  ∃ name, (a.record r).name = some name ∧ (a.listed? d name).isSome

theorem Named.shadows_of_listed? (h : a.Named) (hr : a.listed? d name = some r) : a.Shadows d r :=
  ⟨name, h.names hr, by rw [hr]; rfl⟩

theorem relevantExports_last (h : a.chain d = [d])
    : a.relevantExports d
        = (a.orderedLocals d).filter a.isRelevant ++ [(a.descriptor d).other].filter a.isRelevant :=
  descend_last a.relevantExportsStep h

theorem relevantExports_next (h : a.chain d = d :: a.chain e)
    : ∃ kept : RecordId → Bool, (∀ r, kept r ↔ ¬a.Shadows d r) ∧
        a.relevantExports d = (a.orderedLocals d).filter a.isRelevant ++ (a.relevantExports e).filter kept := by
  refine ⟨_, ?_, descend_next a.relevantExportsStep h⟩
  intro r
  unfold Shadows
  cases (a.record r).name with
  | none => simp
  | some name => simp

theorem Linked.lt_chainEnd_of_mem (h : a.Linked) (he : e ∈ a.chain d) (hlt : e.index < a.descriptors.size)
    : (a.chainEnd d).index < a.descriptors.size := by
  induction d using h.chain_induction with
  | last d hd hchain =>
    rw [hchain] at he
    rw [chainEnd_last hchain, ← List.mem_singleton.1 he]
    exact hlt
  | next d f hd hchain ih =>
    rw [chainEnd_next hchain]
    exact h.lt_of_mem_chain (h.redirect hd) (a.chainEnd_mem f)

namespace Sound

theorem mem_relevantExports (h : a.Sound) (d : DescriptorId) (r : RecordId)
    : r ∈ a.relevantExports d ↔ ((∃ name, a.find? d name = some r) ∨ r = a.other d) ∧ a.isRelevant r := by
  induction d using h.linked.chain_induction with
  | last d hd hchain =>
    simp only [relevantExports_last hchain, find?_last _ hchain, other, chainEnd_last hchain]
    rw [List.mem_append, List.mem_filter, List.mem_filter, mem_orderedLocals_iff h.named, List.mem_singleton,
      or_and_right]
  | next d e hd hchain ih =>
    obtain ⟨kept, hkept, hrelevant⟩ := relevantExports_next hchain
    have hother : a.other d = a.other e := by rw [other, other, chainEnd_next hchain]
    rw [hrelevant, List.mem_append, List.mem_filter, List.mem_filter, mem_orderedLocals_iff h.named, hkept, ih, hother]
    simp only [find?_next _ hchain, Option.or_eq_some_iff]
    constructor
    · rintro (⟨⟨name, hown⟩, hr⟩ | ⟨⟨⟨name, hinner⟩ | rfl, hr⟩, hshadow⟩)
      · exact ⟨.inl ⟨name, .inl hown⟩, hr⟩
      · refine ⟨.inl ⟨name, .inr ⟨?_, hinner⟩⟩, hr⟩
        cases hlisted : a.listed? d name with
        | none => rfl
        | some s => exact absurd ⟨name, h.named.name_find? hinner, by rw [hlisted]; rfl⟩ hshadow
      · exact ⟨.inr rfl, hr⟩
    · rintro ⟨⟨name, hown | ⟨hnone, hinner⟩⟩ | rfl, hr⟩
      · exact .inl ⟨⟨name, hown⟩, hr⟩
      · refine .inr ⟨⟨.inl ⟨name, hinner⟩, hr⟩, ?_⟩
        rintro ⟨name', hname, hsome⟩
        cases (h.named.name_find? hinner).symm.trans hname
        rw [hnone] at hsome
        cases hsome
      · refine .inr ⟨⟨.inr rfl, hr⟩, ?_⟩
        rintro ⟨name, hname, -⟩
        cases (h.name_other (h.linked.redirect hd)).symm.trans hname

theorem nodup_relevantExports (h : a.Sound) (d : DescriptorId) : (a.relevantExports d).Nodup := by
  have hown (d : DescriptorId) : ((a.orderedLocals d).filter a.isRelevant).Nodup :=
    (h.named.nodup_orderedLocals d).filter _
  induction d using h.linked.chain_induction with
  | last d hd hchain =>
    rw [relevantExports_last hchain]
    refine (hown d).append ((List.nodup_singleton _).filter _) ?_
    -- A listed record has a name, and a catch-all record has none.
    intro r hr hother
    obtain ⟨name, hlisted⟩ := (mem_orderedLocals_iff h.named).1 (List.mem_filter.1 hr).1
    have hnone := h.tidy.name (.other (lt_of_listed? hlisted))
    rw [← List.mem_singleton.1 (List.mem_filter.1 hother).1, h.named.names hlisted] at hnone
    cases hnone
  | next d e hd hchain ih =>
    obtain ⟨kept, hkept, hrelevant⟩ := relevantExports_next hchain
    rw [hrelevant]
    refine (hown d).append (ih.filter _) ?_
    intro r hr hinner
    obtain ⟨name, hlisted⟩ := (mem_orderedLocals_iff h.named).1 (List.mem_filter.1 hr).1
    exact (hkept r).1 (List.mem_filter.1 hinner).2 (h.named.shadows_of_listed? hlisted)

theorem not_visible_of_shadowed (h : a.Sound) (he : e ∈ a.chain d) (hr : a.listed? e name = some r)
    (hshadowed : a.lookup d name ≠ r) : r ∉ a.visible d ∧ r ≠ a.other d := by
  constructor
  · intro hvisible
    obtain ⟨name', hfind⟩ := h.named.mem_visible.1 hvisible
    cases (h.named.names hr).symm.trans (h.named.name_find? hfind)
    exact hshadowed (congrArg (Option.getD · (a.other d)) hfind)
  · rintro rfl
    have hend := h.linked.lt_chainEnd_of_mem he (lt_of_listed? hr)
    cases (h.tidy.name (.other hend)).symm.trans (h.named.names hr)

end Sound

/--
The visible exports are listed in increasing order of their names, and each is the one that is in force for its name.
The relevant ones are those of them, and of the catch-all record in force, that are neither unused nor absent. So a
shadowed record is in no list, even if the record that shadows it is not relevant.
-/
theorem visible_lookups (h : a.Reachable) (d : DescriptorId)
    : ∃ (ds : List DescriptorId) (names : List String),
        a.Redirects d ds ∧
        names.Pairwise (· < ·) ∧
        (∀ name, name ∈ names ↔ ∃ e ∈ ds, (a.listed? e name).isSome) ∧
        a.visible d = names.map (a.lookup d) ∧
        (a.visible d).map (fun r => (a.record r).name) = names.map some ∧
        (a.relevantExports d).Nodup ∧
        (∀ r, r ∈ a.relevantExports d ↔
          (r ∈ a.visible d ∨ r = a.other d) ∧
            (a.record r).used ≠ .unused ∧ (a.record r).provided ≠ .notProvided) ∧
        ∀ e ∈ ds, ∀ name r, a.listed? e name = some r → a.lookup d name ≠ r →
          r ∉ a.visible d ∧ r ∉ a.relevantExports d := by
  have hsound := h.sound
  have hmem (r : RecordId) : r ∈ a.relevantExports d ↔ (r ∈ a.visible d ∨ r = a.other d) ∧
      (a.record r).used ≠ .unused ∧ (a.record r).provided ≠ .notProvided := by
    rw [hsound.mem_relevantExports, hsound.named.mem_visible, isRelevant_iff]
  refine ⟨a.chain d, a.sortedNames d, hsound.linked.redirects_chain d, a.pairwise_sortedNames d,
    fun name => hsound.named.mem_sortedNames, hsound.named.visible_eq_map d, ?names,
    hsound.nodup_relevantExports d, hmem, ?shadowed⟩
  case names =>
    rw [hsound.named.visible_eq_map, List.map_map]
    apply List.map_congr_left
    intro name hname
    exact (hsound.named.name_lookup hname).2
  case shadowed =>
    intro e he name r hr hshadowed
    have ⟨hvisible, hother⟩ := hsound.not_visible_of_shadowed he hr hshadowed
    refine ⟨hvisible, fun hrelevant => ?_⟩
    exact ((hmem r).1 hrelevant).1.elim hvisible hother

end Arena

namespace Sample

/--
The descriptor `0` lists `a`, is redirected to `1`, which lists `a` and `b`, and that to `2`, which lists `b` and `c`.
The `a` of `0` is unused and the `c` of `2` does not exist.
-/
def shadowing : List ArenaOp := [
  .newDescriptor, .newDescriptor, .newDescriptor, .getOrCreate ⟨0⟩ "a", .getOrCreate ⟨1⟩ "b", .getOrCreate ⟨1⟩ "a",
  .getOrCreate ⟨2⟩ "c", .getOrCreate ⟨2⟩ "b", .setRedirect ⟨0⟩ (some ⟨1⟩), .setRedirect ⟨1⟩ (some ⟨2⟩),
  .edit ⟨6⟩ (.setUsed .unused), .edit ⟨9⟩ (.setProvided .notProvided)]

def shadowed : Arena := shadowing.foldl ArenaOp.apply {}

theorem shadowed_reachable : shadowed.Reachable := by
  simp only [shadowed, shadowing, List.foldl_cons, List.foldl_nil]
  iterate 12 refine .step _ ?_ ⟨by decide, by decide⟩
  exact .empty

end Sample

theorem Arena.visible_lookups_sample
    : Sample.shadowed.Reachable ∧
      Sample.shadowed.lookup ⟨0⟩ "a" = ⟨6⟩ ∧ Sample.shadowed.listed? ⟨1⟩ "a" = some ⟨8⟩ ∧
      ⟨8⟩ ∉ Sample.shadowed.visible ⟨0⟩ ∧ ⟨8⟩ ∉ Sample.shadowed.relevantExports ⟨0⟩ ∧
      ⟨6⟩ ∈ Sample.shadowed.visible ⟨0⟩ ∧ ⟨6⟩ ∉ Sample.shadowed.relevantExports ⟨0⟩ ∧
      ⟨7⟩ ∈ Sample.shadowed.relevantExports ⟨0⟩ ∧ ⟨9⟩ ∉ Sample.shadowed.relevantExports ⟨0⟩ ∧
      ⟨4⟩ ∈ Sample.shadowed.relevantExports ⟨0⟩ := by
  obtain ⟨ds, names, hds, -, hnames, hvisible, -, -, hrelevant, hshadowed⟩ :=
    visible_lookups Sample.shadowed_reachable ⟨0⟩
  have hredirects : Sample.shadowed.Redirects ⟨0⟩ [⟨0⟩, ⟨1⟩, ⟨2⟩] :=
    .next (by decide) (.next (by decide) (.last (by decide)))
  cases hds.unique hredirects
  have ha : Sample.shadowed.listed? ⟨1⟩ "a" = some ⟨8⟩ := by decide
  have hlookup : Sample.shadowed.lookup ⟨0⟩ "a" = ⟨6⟩ := by decide
  have ⟨hnotVisible, hnotRelevant⟩ := hshadowed ⟨1⟩ (by simp) "a" ⟨8⟩ ha (by rw [hlookup]; decide)
  have hmem (name : String) {r : RecordId} (hlookup : Sample.shadowed.lookup ⟨0⟩ name = r)
      (hlisted : (Sample.shadowed.listed? ⟨0⟩ name).isSome ∨ (Sample.shadowed.listed? ⟨1⟩ name).isSome)
      : r ∈ Sample.shadowed.visible ⟨0⟩ := by
    rw [hvisible, ← hlookup]
    refine List.mem_map_of_mem ((hnames name).2 ?_)
    rcases hlisted with hlisted | hlisted
    · exact ⟨⟨0⟩, by simp, hlisted⟩
    · exact ⟨⟨1⟩, by simp, hlisted⟩
  refine ⟨Sample.shadowed_reachable, hlookup, ha, hnotVisible, hnotRelevant, hmem "a" hlookup (by decide), ?_, ?_, ?_,
    ?_⟩
  · exact fun h => ((hrelevant _).1 h).2.1 (by decide)
  · exact (hrelevant _).2 ⟨.inl (hmem "b" (by decide) (by decide)), by decide, by decide⟩
  · exact fun h => ((hrelevant _).1 h).2.2 (by decide)
  · exact (hrelevant _).2 ⟨.inr (by decide), by decide, by decide⟩

end ModuleLink
