import ModuleLink.Proofs.Exports.Usage

/-!
This module contains the proof that the summary of the existing exports agrees with the questions about single ones.
The summary gives names if and only if every record that it looks at has a definite answer; the names are then those
of the records that say that their export exists.
-/

namespace ModuleLink
namespace Arena

variable {a : Arena} {d e : DescriptorId}

theorem scanProvided_cases (rs : List ExportRecord)
    : ((∀ r ∈ rs, r.provided.toOption.isSome) ∧
        scanProvided rs = .ok ((rs.filter (·.provided = .provided)).map (·.name.getD "")))
        ∨
      ((∃ r ∈ rs, r.provided.toOption = none) ∧
        (scanProvided rs = .error .unknown ∨ scanProvided rs = .error .everything)) := by
  induction rs with
  | nil => exact .inl ⟨List.forall_mem_nil _, rfl⟩
  | cons r rs ih =>
    rw [scanProvided, List.forall_mem_cons, List.exists_mem_cons_iff, List.filter_cons]
    cases r.provided with
    | undetermined => simp [Provision.toOption]
    | maybeProvided => simp [Provision.toOption]
    | notProvided => simpa [Provision.toOption] using ih
    | provided =>
      rcases ih with ⟨hall, hscan⟩ | ⟨hnone, hscan⟩
      · simpa [Provision.toOption, hscan, Except.map] using hall
      · rcases hscan with hscan | hscan <;> simpa [hscan, Except.map] using .inr hnone

theorem scanOtherProvided_cases (r : ExportRecord)
    : (r.provided = .notProvided ∧ scanOtherProvided r = .ok ())
        ∨
      (r.provided ≠ .notProvided ∧
        (scanOtherProvided r = .error .unknown ∨ scanOtherProvided r = .error .everything)) := by
  unfold scanOtherProvided
  cases r.provided <;> simp

def ownProvided (a : Arena) (d : DescriptorId) : List String :=
  (((a.orderedLocals d).map a.record).filter (·.provided = .provided)).map (·.name.getD "")

theorem scanProvided_locals (a : Arena) (d : DescriptorId)
    : ((∀ r ∈ a.locals d, (a.record r).provided.toOption.isSome) ∧
        scanProvided ((a.orderedLocals d).map a.record) = .ok (a.ownProvided d))
        ∨
      ((∃ r ∈ a.locals d, (a.record r).provided.toOption = none) ∧
        (scanProvided ((a.orderedLocals d).map a.record) = .error .unknown ∨
          scanProvided ((a.orderedLocals d).map a.record) = .error .everything)) := by
  rcases scanProvided_cases ((a.orderedLocals d).map a.record) with ⟨hall, hscan⟩ | ⟨⟨_, hmem, hnone⟩, hscan⟩
  · refine .inl ⟨?_, hscan⟩
    intro r hr
    exact hall _ (List.mem_map_of_mem (mem_orderedLocals.2 hr))
  · obtain ⟨r, hr, rfl⟩ := List.mem_map.1 hmem
    exact .inr ⟨⟨r, mem_orderedLocals.1 hr, hnone⟩, hscan⟩

theorem mem_ownProvided (h : a.Named) {name : String}
    : name ∈ a.ownProvided d ↔ ∃ r, a.listed? d name = some r ∧ (a.record r).provided = .provided := by
  simp only [ownProvided, List.mem_map, List.mem_filter, decide_eq_true_eq]
  constructor
  · rintro ⟨_, ⟨⟨r, hr, rfl⟩, hprovided⟩, rfl⟩
    -- The scan knows the record by its own name, which is the one that it is listed under.
    obtain ⟨name, hlisted, hname⟩ := h.listed_of_mem (mem_orderedLocals.1 hr)
    rw [hname]
    exact ⟨r, hlisted, hprovided⟩
  · rintro ⟨r, hlisted, hprovided⟩
    refine ⟨a.record r, ⟨⟨r, mem_orderedLocals.2 (Dict.mem_values_of_get? hlisted), rfl⟩, hprovided⟩, ?_⟩
    rw [h.names hlisted]
    rfl

theorem nodup_ownProvided (h : a.Named) (d : DescriptorId) : (a.ownProvided d).Nodup := by
  have hnames : ((a.orderedLocals d).map a.record).map (·.name.getD "")
      = ((a.descriptor d).exports.entries.mergeSort fun x y => decide (x.1 ≤ y.1)).map Prod.fst := by
    unfold orderedLocals
    rw [List.map_map, List.map_map]
    apply List.map_congr_left
    intro entry hentry
    have hlisted := Dict.get?_of_mem_entries (h.keys d) (List.mem_mergeSort.1 hentry)
    exact congrArg (Option.getD · "") (h.names hlisted)
  have hkeys : ((a.descriptor d).exports.entries.map Prod.fst).Nodup := by
    refine List.Pairwise.imp ?_ (h.keys d)
    intro k k' hne
    simpa using hne
  refine List.Nodup.sublist (List.filter_sublist.map _) ?_
  rw [hnames]
  exact ((List.mergeSort_perm _ _).map Prod.fst).nodup_iff.2 hkeys

/--
Along the redirects every record has a definite answer, and exports that are not listed do not exist.
-/
structure Determined (a : Arena) (d : DescriptorId) : Prop where
  listed : ∀ e ∈ a.chain d, ∀ r ∈ a.locals e, (a.record r).provided.toOption.isSome
  other : (a.record (a.other d)).provided = .notProvided

theorem not_determined (he : e ∈ a.chain d) (h : ∃ r ∈ a.locals e, (a.record r).provided.toOption = none)
    : ¬a.Determined d := by
  obtain ⟨r, hr, hnone⟩ := h
  intro hdetermined
  have hsome := hdetermined.listed e he r hr
  rw [hnone] at hsome
  cases hsome

structure Enumerates (a : Arena) (d : DescriptorId) (names : List String) : Prop where
  increasing : names.Pairwise (· < ·)
  mem : ∀ name, name ∈ names ↔
    ∃ e ∈ a.chain d, ∃ r, a.listed? e name = some r ∧ (a.record r).provided = .provided

inductive Overview (a : Arena) (d : DescriptorId) (answer : ProvidedExports) : Prop where
  | names {ns : List String} : a.Determined d → a.Enumerates d ns → answer = .names ns → Overview a d answer
  | vague : ¬a.Determined d → answer = .unknown ∨ answer = .everything → Overview a d answer

theorem Enumerates.mergeSort {names : List String} (hnodup : names.Nodup)
    (hmem : ∀ name, name ∈ names ↔
      ∃ e ∈ a.chain d, ∃ r, a.listed? e name = some r ∧ (a.record r).provided = .provided)
    : a.Enumerates d (names.mergeSort fun x y => decide (x ≤ y)) where
  increasing := pairwise_mergeSort_of_nodup id (by rwa [List.map_id])
  mem := by
    intro name
    rw [List.mem_mergeSort]
    exact hmem name

theorem overview_last (h : a.Named) (hchain : a.chain d = [d]) : a.Overview d (a.providedExportsStep d none) := by
  have hother : a.other d = (a.descriptor d).other := by
    rw [other, chainEnd_last hchain]
  unfold providedExportsStep providedNames
  rw [← hother]
  rcases scanOtherProvided_cases (a.record (a.other d)) with ⟨hmissing, hscanOther⟩ | ⟨hsome, hscanOther⟩
  · rcases a.scanProvided_locals d with ⟨hall, hscan⟩ | ⟨hnone, hscan⟩
    · refine .names ⟨?_, hmissing⟩ (.mergeSort (nodup_ownProvided h d) ?_) ?_
      · rw [hchain]
        exact List.forall_mem_singleton.2 hall
      · intro name
        rw [mem_ownProvided h, hchain]
        simp
      · rw [hscanOther, hscan]
        rfl
    · refine .vague (not_determined (by simp [hchain]) hnone) ?_
      rw [hscanOther]
      rcases hscan with hscan | hscan <;> simp [hscan, bind, Except.bind]
  · refine .vague (fun hdetermined => hsome hdetermined.other) ?_
    rcases hscanOther with hscanOther | hscanOther <;> simp [hscanOther, bind, Except.bind]

theorem overview_next (h : a.Named) (hchain : a.chain d = d :: a.chain e) {inner : ProvidedExports}
    (hinner : a.Overview e inner) : a.Overview d (a.providedExportsStep d (some inner)) := by
  have hother : a.other d = a.other e := by
    rw [other, other, chainEnd_next hchain]
  unfold providedExportsStep providedNames
  rcases a.scanProvided_locals d with ⟨hall, hscan⟩ | ⟨hnone, hscan⟩
  · rw [hscan]
    cases hinner with
    | names hdetermined henumerates hanswer =>
      subst hanswer
      refine .names ⟨?_, ?_⟩ (.mergeSort (nodup_addAllDistinct (nodup_ownProvided h d) _) ?_) rfl
      · rw [hchain]
        exact List.forall_mem_cons.2 ⟨hall, hdetermined.listed⟩
      · rw [hother]
        exact hdetermined.other
      · intro name
        rw [mem_addAllDistinct, mem_ownProvided h, henumerates.mem, hchain]
        simp
    | vague hvague hanswer =>
      refine .vague (fun hdetermined => hvague ⟨?_, ?_⟩) ?_
      · intro e' he'
        exact hdetermined.listed e' (by rw [hchain]; exact List.mem_cons_of_mem d he')
      · rw [← hother]
        exact hdetermined.other
      · rcases hanswer with rfl | rfl
        · exact .inl rfl
        · exact .inr rfl
  · refine .vague (not_determined (by simp [hchain]) hnone) ?_
    rcases hscan with hscan | hscan <;> simp [hscan, bind, Except.bind]

theorem overview_providedExports (h : a.Linked) (hnamed : a.Named) (d : DescriptorId)
    : a.Overview d (a.providedExports d) := by
  induction d using h.chain_induction with
  | last d _ hchain =>
    rw [providedExports, descend_last _ hchain]
    exact overview_last hnamed hchain
  | next d e _ hchain ih =>
    rw [providedExports, descend_next _ hchain]
    exact overview_next hnamed hchain ih

theorem Determined.isProvided? {names : List String} (h : a.Determined d) (henumerates : a.Enumerates d names)
    {name : String} (hname : name ∉ names) : a.isProvided? d [name] = some false := by
  have hmissing : (a.record (a.lookup d name)).provided = .notProvided := by
    unfold Arena.lookup
    cases hfind : a.find? d name with
    | none => exact h.other
    | some r =>
      obtain ⟨e, he, hr⟩ := List.exists_of_findSome?_eq_some hfind
      have hsome := h.listed e he r (Dict.mem_values_of_get? hr)
      have hprovided : (a.record r).provided ≠ .provided := by
        intro hprovided
        exact hname ((henumerates.mem name).2 ⟨e, he, r, hr, hprovided⟩)
      change (a.record r).provided = .notProvided
      generalize (a.record r).provided = p at hsome hprovided
      cases p <;> simp_all [Provision.toOption]
  simp [Arena.isProvided?, hmissing, Provision.toOption]

/--
The names of a summary of the existing exports are increasing, each is that of an export that exists, and an export with
another name does not exist. So an export that exists, or may exist, is not missing from the summary. A summary gives
names if and only if every record along the redirects has a definite answer.
-/
theorem providedExports_sound (h : a.Reachable) (d : DescriptorId)
    : (∀ ns, a.providedExports d = .names ns →
        ns.Pairwise (· < ·) ∧ (∀ name, name ∉ ns → a.isProvided? d [name] = some false) ∧
        ∀ name ∈ ns, ∃ ds, a.Redirects d ds ∧ ∃ e ∈ ds, ∃ r, a.listed? e name = some r ∧
          (a.record r).provided = .provided) ∧
      (∀ name, a.isProvided? d [name] = some true ∨ a.isProvided? d [name] = none →
        a.providedExports d = .unknown ∨ a.providedExports d = .everything ∨
        ∃ ns, a.providedExports d = .names ns ∧ name ∈ ns) ∧
      ((∃ ns, a.providedExports d = .names ns) ↔ a.Determined d) := by
  have hoverview := overview_providedExports h.linked h.named d
  generalize a.providedExports d = answer at hoverview
  cases hoverview with
  | vague hvague hanswer =>
    rcases hanswer with rfl | rfl
    · simp [hvague]
    · simp [hvague]
  | @names ns hdetermined henumerates hanswer =>
    subst hanswer
    refine ⟨?_, ?_, fun _ => hdetermined, fun _ => ⟨ns, rfl⟩⟩
    · intro ns hns
      cases hns
      refine ⟨henumerates.increasing, fun name => hdetermined.isProvided? henumerates, ?_⟩
      intro name hname
      exact ⟨_, h.linked.redirects_chain d, (henumerates.mem name).1 hname⟩
    · intro name hprovided
      refine .inr (.inr ⟨ns, rfl, Classical.byContradiction fun hname => ?_⟩)
      rw [hdetermined.isProvided? henumerates hname] at hprovided
      simp at hprovided

end Arena

namespace Sample

/--
The descriptor `0` lists `a` and is redirected to `1`, which lists `b` and `c`; of these, `a` and `b` exist.
-/
def provision : List ArenaOp := [
  .newDescriptor, .newDescriptor, .getOrCreate ⟨0⟩ "a", .setRedirect ⟨0⟩ (some ⟨1⟩), .getOrCreate ⟨0⟩ "b",
  .getOrCreate ⟨0⟩ "c", .edit ⟨4⟩ (.setProvided .provided), .edit ⟨5⟩ (.setProvided .provided),
  .markHasProvideInfo ⟨0⟩, .newDescriptor]

def existing : Arena := provision.foldl ArenaOp.apply {}

theorem existing_reachable : existing.Reachable := by
  simp only [existing, provision, List.foldl_cons, List.foldl_nil]
  iterate 10 refine .step _ ?_ ⟨by decide +kernel, by decide +kernel⟩
  exact .empty

theorem providedExportsStep_existing {d : DescriptorId} {inner : Option ProvidedExports} {names : List String}
    (hnames : existing.providedNames d inner = .ok names) (hsorted : names.Pairwise fun x y => decide (x ≤ y))
    : existing.providedExportsStep d inner = .names names := by
  unfold Arena.providedExportsStep
  rw [hnames]
  dsimp only
  rw [List.mergeSort_of_pairwise hsorted]

theorem providedExports_existing : existing.providedExports ⟨0⟩ = .names ["a", "b"] := by
  have hinner : existing.providedExports ⟨1⟩ = .names ["b"] := by
    rw [Arena.providedExports, Arena.descend_last _ (by decide +kernel)]
    apply providedExportsStep_existing
    · unfold Arena.providedNames
      rw [Arena.orderedLocals_of_sorted (by decide +kernel)]
      decide +kernel
    · decide +kernel
  rw [Arena.providedExports, Arena.descend_next (e := ⟨1⟩) _ (by decide +kernel), ← Arena.providedExports, hinner]
  apply providedExportsStep_existing
  · unfold Arena.providedNames
    rw [Arena.orderedLocals_of_sorted (by decide +kernel)]
    decide +kernel
  · decide +kernel

end Sample

theorem Arena.providedExports_sound_sample
    : Sample.existing.Reachable ∧
      Sample.existing.providedExports ⟨0⟩ = .names ["a", "b"] ∧
      ["a", "b"].Pairwise (· < ·) ∧ "c" ∉ ["a", "b"] ∧ Sample.existing.isProvided? ⟨0⟩ ["c"] = some false ∧
      (∃ ds, Sample.existing.Redirects ⟨0⟩ ds ∧ ∃ e ∈ ds, ∃ r, Sample.existing.listed? e "b" = some r ∧
        (Sample.existing.record r).provided = .provided) ∧
      Sample.existing.isProvided? ⟨2⟩ ["x"] = none ∧
      (Sample.existing.providedExports ⟨2⟩ = .unknown ∨ Sample.existing.providedExports ⟨2⟩ = .everything ∨
        ∃ ns, Sample.existing.providedExports ⟨2⟩ = .names ns ∧ "x" ∈ ns) := by
  have ⟨hnames, _, _⟩ := providedExports_sound Sample.existing_reachable ⟨0⟩
  have ⟨_, hkept, _⟩ := providedExports_sound Sample.existing_reachable ⟨2⟩
  have ⟨hincreasing, hmissing, hlisted⟩ := hnames _ Sample.providedExports_existing
  have hc : "c" ∉ ["a", "b"] := by decide
  have hx : Sample.existing.isProvided? ⟨2⟩ ["x"] = none := by decide +kernel
  refine ⟨Sample.existing_reachable, Sample.providedExports_existing, hincreasing, hc, hmissing "c" hc, ?_, hx, ?_⟩
  · have hb : "b" ∈ ["a", "b"] := by simp
    exact hlisted "b" hb
  · apply hkept "x" (.inr hx)

end ModuleLink
