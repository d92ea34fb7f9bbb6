import ModuleLink.Proofs.Exports.Frame

/-!
This module contains the proof that the replay of a snapshot brings its provision about and changes nothing else. The
replay goes from a descriptor to those that its records own, which are separate from all others; it creates those that
are missing.
-/

namespace ModuleLink
namespace Arena

variable {a a' b : Arena} {d e : DescriptorId} {r : RecordId} {name : String}

structure Agrees (a : Arena) (d : DescriptorId) (s : ProvisionSnapshot) : Prop where
  other : a.otherFacts d = s.other
  own : ∀ name, a.ownFacts d name = s.facts name

def Shows (a : Arena) (d : DescriptorId) (s : ProvisionSnapshot) : Prop :=
  ∀ path s', s.at? path = some s' → ∃ e, a.ownedAt? d path = some e ∧ a.Agrees e s'

theorem Agrees.congr {s : ProvisionSnapshot} (h : a.Agrees d s) (hsame : a.SameFacts a' d) : a'.Agrees d s where
  other := hsame.other.trans h.other
  own name := (hsame.own name).trans (h.own name)

namespace Shows

variable {s : ProvisionSnapshot}

theorem intro (h : a.Agrees d s)
    (hinner : ∀ name inner, s.inner? name = some inner → ∃ e, a.ownedBy? d name = some e ∧ a.Shows e inner)
    : a.Shows d s := by
  intro path s' hs'
  cases path with
  | nil =>
    cases hs'
    exact ⟨d, rfl, h⟩
  | cons name path =>
    obtain ⟨inner, hname, hpath⟩ := ProvisionSnapshot.at?_cons.1 hs'
    obtain ⟨e, he, hshows⟩ := hinner name inner hname
    obtain ⟨f, hf, hagrees⟩ := hshows path s' hpath
    exact ⟨f, ownedAt?_cons.2 ⟨e, he, hf⟩, hagrees⟩

theorem agrees (h : a.Shows d s) : a.Agrees d s := by
  obtain ⟨e, he, hagrees⟩ := h [] s rfl
  cases he
  exact hagrees

theorem inner (h : a.Shows d s) {inner : ProvisionSnapshot} (hinner : s.inner? name = some inner)
    : ∃ e, a.ownedBy? d name = some e ∧ a.Shows e inner := by
  obtain ⟨e, he, -⟩ := h [name] inner (ProvisionSnapshot.at?_cons.2 ⟨inner, hinner, rfl⟩)
  obtain ⟨e, hname, -⟩ := ownedAt?_cons.1 he
  refine ⟨e, hname, ?_⟩
  intro path s' hs'
  obtain ⟨f, hf, hagrees⟩ := h (name :: path) s' (ProvisionSnapshot.at?_cons.2 ⟨inner, hinner, hs'⟩)
  obtain ⟨e', he', hpath⟩ := ownedAt?_cons.1 hf
  rw [hname] at he'
  cases he'
  exact ⟨f, hpath, hagrees⟩

theorem extend {touched : DescriptorId → Prop} (h : a.Shows d s) (hlinked : a.Linked)
    (hd : d.index < a.descriptors.size) (hextends : a.Extends a' touched)
    (hfree : ∀ path e, a.ownedAt? d path = some e → ¬ touched e) : a'.Shows d s := by
  intro path s' hs'
  obtain ⟨e, he, hagrees⟩ := h path s' hs'
  have hlt := hlinked.lt_of_ownedAt? hd he
  exact ⟨e, hextends.ownedAt? he, hagrees.congr ((hextends.same hlt (hfree path e he)).sameFacts hlt)⟩

end Shows

def Touches (a : Arena) (d : DescriptorId) (names : List String) (e : DescriptorId) : Prop :=
  e = d ∨ ∃ name ∈ names, ∃ path, a.ownedAt? d (name :: path) = some e

structure EntryReplayed (a a' : Arena) (d : DescriptorId) (name : String) (facts : ProvisionFacts)
    (inner? : Option ProvisionSnapshot) : Prop where
  frame : a.Extends a' (a.Touches d [name])
  created : ∀ e : DescriptorId, a.descriptors.size ≤ e.index → e.index < a'.descriptors.size →
    ∃ inner path, inner? = some inner ∧ (inner.at? path).isSome ∧ a'.ownedAt? d (name :: path) = some e
  other : a'.otherFacts d = a.otherFacts d
  own : ∀ n, a'.ownFacts d n = if n = name then facts else a.ownFacts d n
  inner : ∀ inner, inner? = some inner → ∃ e, a'.ownedBy? d name = some e ∧ a'.Shows e inner

structure EntriesReplayed (a a' : Arena) (d : DescriptorId)
    (es : List (String × ProvisionFacts × Option ProvisionSnapshot)) : Prop where
  frame : a.Extends a' (a.Touches d (es.map Prod.fst))
  created : ∀ e : DescriptorId, a.descriptors.size ≤ e.index → e.index < a'.descriptors.size →
    ∃ name facts inner path, (name, facts, some inner) ∈ es ∧ (inner.at? path).isSome ∧
      a'.ownedAt? d (name :: path) = some e
  other : a'.otherFacts d = a.otherFacts d
  own : ∀ n, a'.ownFacts d n = (((Dict.mk es).get? n).map Prod.fst).getD (a.ownFacts d n)
  inner : ∀ name facts inner, (name, facts, some inner) ∈ es → ∃ e, a'.ownedBy? d name = some e ∧ a'.Shows e inner

structure Replayed (a a' : Arena) (d : DescriptorId) (s : ProvisionSnapshot) : Prop where
  frame : a.Extends a' (a.Owns d)
  created : ∀ e : DescriptorId, a.descriptors.size ≤ e.index → e.index < a'.descriptors.size →
    ∃ path, (s.at? path).isSome ∧ a'.ownedAt? d path = some e
  shows : a'.Shows d s

namespace EntryReplayed

theorem leaf (h : a.Sound) (hd : d.index < a.descriptors.size) (name : String) (facts : ProvisionFacts)
    : a.EntryReplayed (a.assignLocal d name facts).1 d name facts none where
  frame := (Extends.refl a _).trans (.assignLocal h hd name facts) fun _ _ => .inl
  created := by
    intro e hle hlt
    rw [size_assignLocal] at hlt
    omega
  other := otherFacts_assignLocal h hd name facts
  own := ownFacts_assignLocal h hd name facts
  inner := nofun

theorem nested {facts : ProvisionFacts} {s : ProvisionSnapshot} (hleaf : a.EntryReplayed b d name facts none)
    (hb : b.Sound) (hr : b.listed? d name = some r)
    (hreplayed : (b.createNested r).1.Replayed a' (b.createNested r).2 s)
    : a.EntryReplayed a' d name facts (some s) := by
  have hcreated : (b.createNested r).1.Sound := hb.step (.createNested b r (hb.tidy.lt (.listed hr)))
  have hcreate := Extends.createNested hb hr
  have hframe := hleaf.frame.trans hcreate fun _ _ => .inl
  have hd := lt_of_listed? hr
  have hd' := Nat.lt_of_lt_of_le hd hcreate.descriptors
  have howned := ownedBy?_createNested hb.tidy hr
  -- The nested descriptor is newer than `d`, so that its replay does not touch `d`.
  have hsame : (b.createNested r).1.SameFacts a' d := by
    refine (hreplayed.frame.same hd' ?_).sameFacts hd'
    rintro ⟨path, hpath⟩
    exact absurd (hcreated.tidy.le_of_ownedAt? hpath) (Nat.not_le.2 (hcreated.tidy.lt_of_ownedBy? howned))
  have hfacts := (SameFacts.createNested hb.tidy hd r).trans hsame
  constructor
  · refine hframe.trans hreplayed.frame ?_
    rintro e he ⟨path, hpath⟩
    have hpath := ownedAt?_cons.2 ⟨_, howned, hpath⟩
    exact .inr ⟨name, List.mem_singleton_self name, path, hframe.ownedAt?_of_lt hcreated.tidy hpath he⟩
  · intro e hle hlt
    rcases Nat.lt_or_ge e.index (b.createNested r).1.descriptors.size with hold | hnew
    · -- The record itself came without a descriptor, so that this is the one that was created for it.
      have hle : b.descriptors.size ≤ e.index := by
        refine Nat.le_of_not_lt fun hlt => ?_
        obtain ⟨inner, path, hnone, -⟩ := hleaf.created e hle hlt
        cases hnone
      rw [eq_of_createNested hle hold]
      exact ⟨s, [], rfl, rfl, ownedAt?_cons.2 ⟨_, hreplayed.frame.owned howned, rfl⟩⟩
    · obtain ⟨path, hpath, he⟩ := hreplayed.created e hnew hlt
      exact ⟨s, path, rfl, hpath, ownedAt?_cons.2 ⟨_, hreplayed.frame.owned howned, he⟩⟩
  · rw [hfacts.other, hleaf.other]
  · intro n
    rw [hfacts.own, hleaf.own]
  · intro inner hinner
    cases hinner
    exact ⟨_, hreplayed.frame.owned howned, hreplayed.shows⟩

end EntryReplayed

namespace EntriesReplayed

theorem nil (a : Arena) (d : DescriptorId) : a.EntriesReplayed a d [] where
  frame := .refl a _
  created := by
    intro e hle hlt
    omega
  other := rfl
  own _ := rfl
  inner := nofun

theorem cons {facts : ProvisionFacts} {inner? : Option ProvisionSnapshot}
    {es : List (String × ProvisionFacts × Option ProvisionSnapshot)} (hd : d.index < a.descriptors.size)
    (hfirst : a.EntryReplayed b d name facts inner?) (hb : b.Sound) (hrest : b.EntriesReplayed a' d es)
    (hname : name ∉ es.map Prod.fst) : a.EntriesReplayed a' d ((name, facts, inner?) :: es) := by
  have hd' := Nat.lt_of_lt_of_le hd hfirst.frame.descriptors
  have hframe : a.Extends b (a.Touches d (name :: es.map Prod.fst)) := by
    refine (Extends.refl a _).trans hfirst.frame ?_
    rintro e - (rfl | ⟨n, hn, hpath⟩)
    · exact .inl rfl
    · exact .inr ⟨n, List.mem_cons.2 (.inl (List.mem_singleton.1 hn)), hpath⟩
  constructor
  · refine hframe.trans hrest.frame ?_
    rintro e he (rfl | ⟨n, hn, path, hpath⟩)
    · exact .inl rfl
    · exact .inr ⟨n, List.mem_cons_of_mem name hn, path, hframe.ownedAt?_of_lt hb.tidy hpath he⟩
  · intro e hle hlt
    rcases Nat.lt_or_ge e.index b.descriptors.size with hold | hnew
    · obtain ⟨inner, path, rfl, hpath, he⟩ := hfirst.created e hle hold
      exact ⟨name, facts, inner, path, List.mem_cons_self, hpath, hrest.frame.ownedAt? he⟩
    · obtain ⟨n, nfacts, inner, path, hmem, hpath, he⟩ := hrest.created e hnew hlt
      exact ⟨n, nfacts, inner, path, List.mem_cons_of_mem _ hmem, hpath, he⟩
  · rw [hrest.other, hfirst.other]
  · intro n
    have hcons : (Dict.mk ((name, facts, inner?) :: es)).get? n
        = if name == n then some (facts, inner?) else (Dict.mk es).get? n := rfl
    rw [hrest.own, hfirst.own, hcons]
    by_cases hn : n = name
    · subst hn
      have hnone : (Dict.mk es).get? n = none := by
        apply Dict.get?.go_eq_none
        intro x hx
        refine beq_eq_false_iff_ne.2 ?_
        rintro rfl
        exact hname (List.mem_map_of_mem hx)
      rw [hnone, if_pos rfl, if_pos BEq.rfl]
      rfl
    · rw [if_neg hn, if_neg (fun heq => hn (eq_of_beq heq).symm)]
  · intro n nfacts inner hmem
    rcases List.mem_cons.1 hmem with heq | hmem
    · cases heq
      obtain ⟨e, he, hshows⟩ := hfirst.inner inner rfl
      refine ⟨e, hrest.frame.owned he, hshows.extend hb.linked (hb.linked.lt_of_ownedBy? he) hrest.frame ?_⟩
      -- What is below `name` is neither `d` nor below another name.
      intro path f hpath
      have hpath := ownedAt?_cons.2 ⟨e, he, hpath⟩
      rintro (heq | ⟨n, hn, path', hpath'⟩)
      · rw [heq] at hpath
        have hroot : b.ownedAt? d [] = some d := rfl
        cases hb.tidy.ownedAt?_injective hpath hroot
      · cases hb.tidy.ownedAt?_injective hpath hpath'
        exact hname hn
    · exact hrest.inner n nfacts inner hmem

end EntriesReplayed

theorem Replayed.ofEntries {other : ProvisionFacts} {es : List (String × ProvisionFacts × Option ProvisionSnapshot)}
    (h : a.Sound) (hd : d.index < a.descriptors.size) (hdistinct : (ProvisionSnapshot.mk other es).Distinct)
    (hentries : (a.reset d other).EntriesReplayed a' d es) : a.Replayed a' d (.mk other es) := by
  have hreset := Extends.reset h hd other
  have hsound := h.reset d other
  have hinner {name : String} {inner : ProvisionSnapshot}
      : (ProvisionSnapshot.mk other es).inner? name = some inner ↔ ∃ facts, (name, facts, some inner) ∈ es :=
    ProvisionSnapshot.inner?_eq_some hdistinct.keys
  have hframe : a.Extends (a.reset d other) (a.Owns d) := by
    refine (Extends.refl a _).trans hreset ?_
    rintro e - rfl
    exact ⟨[], rfl⟩
  constructor
  · refine hframe.trans hentries.frame ?_
    rintro e he (rfl | ⟨n, -, path, hpath⟩)
    · exact ⟨[], rfl⟩
    · exact ⟨n :: path, hframe.ownedAt?_of_lt hsound.tidy hpath he⟩
  · intro e hle hlt
    rw [← size_reset a d other] at hle
    obtain ⟨name, facts, inner, path, hmem, hpath, he⟩ := hentries.created e hle hlt
    refine ⟨name :: path, ?_, he⟩
    rw [ProvisionSnapshot.at?, hinner.2 ⟨facts, hmem⟩]
    exact hpath
  · have hfacts := facts_reset h.tidy hd other
    apply Shows.intro
    · constructor
      · rw [hentries.other, hfacts.1]
        rfl
      · intro n
        rw [hentries.own, hfacts.2]
        rfl
    · intro name inner hname
      obtain ⟨facts, hmem⟩ := hinner.1 hname
      exact hentries.inner name facts inner hmem

mutual

theorem restore_replayed {a : Arena} {d : DescriptorId} (h : a.Sound) (hd : d.index < a.descriptors.size)
    : ∀ s : ProvisionSnapshot, s.Distinct → a.Replayed (a.restore d s) d s
  | .mk other es => by
    intro hdistinct
    rw [Arena.restore]
    have hd' : d.index < (a.reset d other).descriptors.size := by
      rw [size_reset]
      exact hd
    exact .ofEntries h hd hdistinct (restoreExports_replayed (h.reset d other) hd' other es hdistinct)

theorem restoreExports_replayed {a : Arena} {d : DescriptorId} (h : a.Sound) (hd : d.index < a.descriptors.size)
    (other : ProvisionFacts)
    : ∀ es : List (String × ProvisionFacts × Option ProvisionSnapshot), (ProvisionSnapshot.mk other es).Distinct →
      a.EntriesReplayed (a.restoreExports d es) d es
  | [] => by
    intro _
    rw [Arena.restoreExports]
    exact .nil a d
  | (name, facts, none) :: rest => by
    intro hdistinct
    obtain ⟨hname, -, hrest⟩ := hdistinct.of_cons
    rw [Arena.restoreExports]
    have hentry := EntryReplayed.leaf h hd name facts
    have hassigned := h.steps (StepsBy.assignLocal (fun _ _ => {}) a d name facts)
    have hd' := Nat.lt_of_lt_of_le hd hentry.frame.descriptors
    exact .cons hd hentry hassigned (restoreExports_replayed hassigned hd' other rest hrest) hname
  | (name, facts, some inner) :: rest => by
    intro hdistinct
    obtain ⟨hname, hinner, hrest⟩ := hdistinct.of_cons
    rw [Arena.restoreExports]
    have hassigned := h.steps (StepsBy.assignLocal (fun _ _ => {}) a d name facts)
    have hlisted := listed?_assignLocal hd name facts
    have hcreated := hassigned.step (.createNested _ _ (hassigned.tidy.lt (.listed hlisted)))
    have hlt := hcreated.linked.lt_of_ownedBy? (ownedBy?_createNested hassigned.tidy hlisted)
    have hreplayed := restore_replayed hcreated hlt inner (hinner inner rfl)
    have hrestored := hcreated.restore
      ((a.assignLocal d name facts).1.createNested (a.assignLocal d name facts).2).2 inner
    have hentry := (EntryReplayed.leaf h hd name facts).nested hassigned hlisted hreplayed
    have hd' := Nat.lt_of_lt_of_le hd hentry.frame.descriptors
    exact .cons hd hentry hrestored (restoreExports_replayed hrestored hd' other rest hrest) hname

end

theorem Shows.snapshot_eq (ha : a.Sound) (hb : b.Sound) (h : b.Shows e (a.snapshot d))
    (hpaths : ∀ path f, b.ownedAt? e path = some f → (a.ownedAt? d path).isSome) : b.snapshot e = a.snapshot d := by
  induction d using ha.owned_induction generalizing e with
  | step d ih =>
    have hagrees := h.agrees
    apply snapshot_congr hb ha
    · rw [hagrees.other, other_snapshot ha]
    · intro name
      rw [hagrees.own, facts_snapshot ha]
    · intro name
      cases hd' : a.ownedBy? d name with
      | none =>
        have hnone : b.ownedBy? e name = none := by
          refine Option.eq_none_iff_forall_ne_some.2 fun e' he' => ?_
          have hpath := hpaths [name] e' (ownedAt?_cons.2 ⟨e', he', rfl⟩)
          rw [ownedAt?, hd'] at hpath
          cases hpath
        rw [hnone]
        rfl
      | some d' =>
        have hinner : (a.snapshot d).inner? name = some (a.snapshot d') := by
          rw [inner?_snapshot ha, hd']
          rfl
        obtain ⟨e', he', hshows⟩ := h.inner hinner
        rw [he']
        refine congrArg some (ih name d' hd' hshows ?_)
        intro path f hf
        have hpath := hpaths (name :: path) f (ownedAt?_cons.2 ⟨e', he', hf⟩)
        rw [ownedAt?, hd'] at hpath
        exact hpath

/--
A snapshot that is replayed brings back the provision of every name, and of every name of the descriptors that the
records own. If these are all that there are, a new snapshot is the same. The usage of records, the redirect, and the
descriptors that are not owned stay as they are.
-/
theorem restore_replays (ha : a.Reachable) (hb : b.Reachable) (d : DescriptorId) (he : e.index < b.descriptors.size)
    : (∀ path d', a.ownedAt? d path = some d' →
        ∃ e', (b.restore e (a.snapshot d)).ownedAt? e path = some e' ∧
          ∀ name, (b.restore e (a.snapshot d)).ownFacts e' name = a.ownFacts d' name) ∧
      ((∀ path f, b.ownedAt? e path = some f → (a.ownedAt? d path).isSome) →
        (b.restore e (a.snapshot d)).snapshot e = a.snapshot d) ∧
      (∀ r, r.index < b.records.size → (b.record r).SameUse ((b.restore e (a.snapshot d)).record r)) ∧
      ((b.restore e (a.snapshot d)).descriptor e).redirect = (b.descriptor e).redirect ∧
      (∀ f, f.index < b.descriptors.size → ¬ b.Owns e f → b.SameAt (b.restore e (a.snapshot d)) f) := by
  have ha := ha.sound
  have hb := hb.sound
  have hreplayed := restore_replayed hb he (a.snapshot d) (distinct_snapshot ha d)
  have hrestored := hb.restore e (a.snapshot d)
  refine ⟨?_, ?_, ?_, ?_, ?_⟩
  · intro path d' hd'
    have hat : (a.snapshot d).at? path = some (a.snapshot d') := by
      rw [at?_snapshot ha, hd']
      rfl
    obtain ⟨e', he', hagrees⟩ := hreplayed.shows path _ hat
    refine ⟨e', he', ?_⟩
    intro name
    rw [hagrees.own, facts_snapshot ha]
  · intro hpaths
    refine hreplayed.shows.snapshot_eq ha hrestored ?_
    intro path f hf
    rcases Nat.lt_or_ge f.index b.descriptors.size with hold | hnew
    · exact hpaths path f (hreplayed.frame.ownedAt?_of_lt hrestored.tidy hf hold)
    · -- The descriptor was created, and a path of the snapshot leads to it; there is one such path only.
      have hlt := Nat.lt_of_lt_of_le he hreplayed.frame.descriptors
      obtain ⟨path', hat, hf'⟩ := hreplayed.created f hnew (hrestored.linked.lt_of_ownedAt? hlt hf)
      rw [hrestored.tidy.ownedAt?_injective hf hf']
      rw [at?_snapshot ha, Option.isSome_map] at hat
      exact hat
  · intro r hr
    exact hreplayed.frame.use hr
  · exact hreplayed.frame.redirect he
  · intro f hf hnot
    exact hreplayed.frame.same hf hnot

end Arena

namespace Sample

def saving : List ArenaOp := [
  .newDescriptor, .getOrCreate ⟨0⟩ "x", .edit ⟨2⟩ (.setProvided .provided), .createNested ⟨2⟩, .getOrCreate ⟨1⟩ "y",
  .edit ⟨5⟩ (.setProvided .provided), .edit ⟨5⟩ (.setTerminal true), .markHasProvideInfo ⟨0⟩]

def saved : Arena := saving.foldl ArenaOp.apply {}

def aging : List ArenaOp := [
  .newDescriptor, .newDescriptor, .getOrCreate ⟨1⟩ "w", .edit ⟨4⟩ (.setProvided .provided), .edit ⟨4⟩ (.setUsed .used),
  .getOrCreate ⟨1⟩ "x", .linkNested ⟨5⟩ ⟨0⟩, .setRedirect ⟨1⟩ (some ⟨0⟩)]

def stale : Arena := aging.foldl ArenaOp.apply {}

theorem saved_reachable : saved.Reachable := by
  simp only [saved, saving, List.foldl_cons, List.foldl_nil]
  iterate 8 refine .step _ ?_ ⟨by decide +kernel, by decide +kernel⟩
  exact .empty

theorem stale_reachable : stale.Reachable := by
  simp only [stale, aging, List.foldl_cons, List.foldl_nil]
  iterate 8 refine .step _ ?_ ⟨by decide +kernel, by decide +kernel⟩
  exact .empty

theorem ownedAt?_stale {path : List String} {f : DescriptorId} (h : stale.ownedAt? ⟨1⟩ path = some f)
    : path = [] ∧ f = ⟨1⟩ := by
  have hlocals : ∀ r ∈ stale.locals ⟨1⟩, (stale.record r).ownedNested = none := by decide +kernel
  cases path with
  | nil =>
    cases h
    exact ⟨rfl, rfl⟩
  | cons name path =>
    obtain ⟨e, he, -⟩ := Arena.ownedAt?_cons.1 h
    obtain ⟨r, hlisted, howned⟩ := Arena.ownedBy?_eq_some.1 he
    rw [hlocals r (Dict.mem_values_of_get? hlisted)] at howned
    cases howned

end Sample

theorem Arena.restore_replays_sample
    : Sample.saved.Reachable ∧ Sample.stale.Reachable ∧ 1 < Sample.stale.descriptors.size ∧
      Sample.stale.ownFacts ⟨1⟩ "w" ≠ Sample.saved.ownFacts ⟨0⟩ "w" ∧
      (Sample.stale.restore ⟨1⟩ (Sample.saved.snapshot ⟨0⟩)).ownFacts ⟨1⟩ "w" = Sample.saved.ownFacts ⟨0⟩ "w" ∧
      Sample.saved.ownedAt? ⟨0⟩ ["x"] = some ⟨1⟩ ∧ Sample.saved.ownFacts ⟨1⟩ "y" = ⟨.provided, some true, true⟩ ∧
      (∃ e', (Sample.stale.restore ⟨1⟩ (Sample.saved.snapshot ⟨0⟩)).ownedAt? ⟨1⟩ ["x"] = some e' ∧
        (Sample.stale.restore ⟨1⟩ (Sample.saved.snapshot ⟨0⟩)).ownFacts e' "y" = ⟨.provided, some true, true⟩) ∧
      (Sample.stale.restore ⟨1⟩ (Sample.saved.snapshot ⟨0⟩)).snapshot ⟨1⟩ = Sample.saved.snapshot ⟨0⟩ ∧
      (Sample.stale.record ⟨4⟩).SameUse ((Sample.stale.restore ⟨1⟩ (Sample.saved.snapshot ⟨0⟩)).record ⟨4⟩) ∧
      ((Sample.stale.restore ⟨1⟩ (Sample.saved.snapshot ⟨0⟩)).descriptor ⟨1⟩).redirect = some ⟨0⟩ ∧
      ¬ Sample.stale.Owns ⟨1⟩ ⟨0⟩ ∧
      Sample.stale.SameAt (Sample.stale.restore ⟨1⟩ (Sample.saved.snapshot ⟨0⟩)) ⟨0⟩ := by
  have hsize : 1 < Sample.stale.descriptors.size := by decide +kernel
  have ⟨hfacts, hsnapshot, huse, hredirect, hsame⟩ :=
    restore_replays Sample.saved_reachable Sample.stale_reachable ⟨0⟩ (e := ⟨1⟩) hsize
  have hx : Sample.saved.ownedAt? ⟨0⟩ ["x"] = some ⟨1⟩ := by decide +kernel
  have hy : Sample.saved.ownFacts ⟨1⟩ "y" = ⟨.provided, some true, true⟩ := by decide +kernel
  have hfree : ¬ Sample.stale.Owns ⟨1⟩ ⟨0⟩ := by
    rintro ⟨path, hpath⟩
    cases (Sample.ownedAt?_stale hpath).2
  refine ⟨Sample.saved_reachable, Sample.stale_reachable, hsize, by decide +kernel, ?_, hx, hy, ?_, ?_,
    huse ⟨4⟩ (by decide +kernel), hredirect.trans (by decide +kernel), hfree, hsame ⟨0⟩ (by decide +kernel) hfree⟩
  · obtain ⟨e', he', hw⟩ := hfacts [] ⟨0⟩ rfl
    cases he'
    exact hw "w"
  · obtain ⟨e', he', hown⟩ := hfacts ["x"] ⟨1⟩ hx
    exact ⟨e', he', (hown "y").trans hy⟩
  · apply hsnapshot
    intro path f hf
    rw [(Sample.ownedAt?_stale hf).1]
    rfl

end ModuleLink
