import ModuleLink.Proofs.Merge.Complete

/-!
This module contains the proof that the entries of external modules tell exactly when the members import them, and
whether all of these imports are deferred. An entry is updated with every import that the walk comes across; what it
holds is determined by the connections behind these imports and not by their order.
-/

namespace ModuleLink

structure Connection.Alike (c c' : Connection) : Prop where
  activity : ∀ runtime, c'.activity runtime = c.activity runtime
  deferred : c'.deferred = c.deferred

theorem Connection.Alike.isTargetActive {c c' : Connection} (h : c.Alike c') (runtime : Option RuntimeSpec)
    : c'.isTargetActive runtime = c.isTargetActive runtime := by
  unfold Connection.isTargetActive
  rw [h.activity]

def Mirrored (among among' : Connection → Prop) : Prop := ∀ c, among c → ∃ c', among' c' ∧ c.Alike c'

namespace Gathered

variable {runtime : Option RuntimeSpec} {among among' : Connection → Prop} {v v' : Option RuntimeSpec} {d d' : Bool}

theorem deferred_of_mirrored (h : Gathered runtime among v d) (h' : Gathered runtime among' v' d')
    (hmirrored : Mirrored among among') (hd' : d') : d := by
  rw [h.deferral]
  intro c hc
  obtain ⟨c', hc', halike⟩ := hmirrored c hc
  rw [← halike.deferred]
  exact h'.deferral.1 hd' c' hc'

theorem exists_isSteady_of_mirrored (hmirrored : Mirrored among among') (h : ∃ c, among c ∧ c.IsSteady runtime)
    : ∃ c, among' c ∧ c.IsSteady runtime := by
  obtain ⟨c, hc, hsteady⟩ := h
  obtain ⟨c', hc', halike⟩ := hmirrored c hc
  refine ⟨c', hc', fun spec hspec name hname => ?_⟩
  rw [halike.isTargetActive]
  exact hsteady spec hspec name hname

theorem exists_isTargetActive_of_mirrored (hmirrored : Mirrored among among')
    (h : ∃ c, among c ∧ c.isTargetActive runtime) : ∃ c, among' c ∧ c.isTargetActive runtime := by
  obtain ⟨c, hc, hactive⟩ := h
  obtain ⟨c', hc', halike⟩ := hmirrored c hc
  refine ⟨c', hc', ?_⟩
  rw [halike.isTargetActive]
  exact hactive

theorem unique (h : Gathered runtime among v d) (h' : Gathered runtime among' v' d')
    (hmirrored : Mirrored among among') (hmirrored' : Mirrored among' among) : v' = v ∧ d' = d := by
  constructor
  · cases v with
    | none =>
      rw [h'.always]
      exact exists_isSteady_of_mirrored hmirrored (h.always.1 rfl)
    | some s =>
      cases v' with
      | none => exact (h.always.2 (exists_isSteady_of_mirrored hmirrored' (h'.always.1 rfl))).symm
      | some s' =>
        obtain ⟨spec, hspec, hs⟩ := h.names s rfl
        obtain ⟨spec', hspec', hs'⟩ := h'.names s' rfl
        rw [hspec] at hspec'
        cases hspec'
        congr 1
        apply RuntimeSpec.eq_of_mem_iff
        intro r
        rw [hs, hs']
        refine and_congr_right fun _ => ⟨?_, ?_⟩
        · exact exists_isTargetActive_of_mirrored hmirrored'
        · exact exists_isTargetActive_of_mirrored hmirrored
  · rw [Bool.eq_iff_iff]
    exact ⟨h.deferred_of_mirrored h' hmirrored, h'.deferred_of_mirrored h hmirrored'⟩

end Gathered

namespace Walk

variable {g : Graph} {runtime : Option RuntimeSpec} {members : List Member} {root id : ModuleId}
  {opened : List ModuleId} {w w' : Walk} {i : Import} {seen new : Connection → Prop}

structure Records (members : List Member) (runtime : Option RuntimeSpec) (seen : Connection → Prop)
    (es : List MergeEntry) : Prop where
  external : ∀ x, .external x ∈ es → ¬IsMember members x.module
  listed : ∀ c, seen c → ¬IsMember members c.target → MergeEntry.Listed es c.target
  gathered : ∀ x, .external x ∈ es →
    Gathered runtime (fun c => seen c ∧ c.target == x.module) x.condition x.deferred

namespace Records

variable {es : List MergeEntry}

theorem empty : Records members runtime (fun _ => False) [] := ⟨nofun, nofun, nofun⟩

theorem congr (h : Records members runtime seen es) (hsame : ∀ c, seen c ↔ new c)
    : Records members runtime new es := by
  have heq : seen = new := funext fun c => propext (hsame c)
  subst heq
  exact h

theorem concatenated (h : Records members runtime seen es) (m : Member)
    : Records members runtime seen (es ++ [.concatenated m]) where
  external := fun x hx => h.external x ((List.mem_append.1 hx).resolve_right (by simp))
  listed := fun c hc htarget => (h.listed c hc htarget).append _
  gathered := fun x hx => h.gathered x ((List.mem_append.1 hx).resolve_right (by simp))

theorem gathered_of_ne (h : Records members runtime seen es) {x : External} (hx : .external x ∈ es)
    (hnew : ∀ c, new c → (c.target == x.module) = false)
    : Gathered runtime (fun c => (seen c ∨ new c) ∧ c.target == x.module) x.condition x.deferred := by
  refine (h.gathered x hx).congr fun c => and_congr_left fun htarget => ?_
  constructor
  · exact .inl
  · rintro (hc | hc)
    · exact hc
    · rw [hnew c hc] at htarget
      cases htarget

theorem toMembers (h : Records members runtime seen es) (hnew : ∀ c, new c → IsMember members c.target)
    : Records members runtime (fun c => seen c ∨ new c) es where
  external := h.external
  listed := by
    rintro c (hc | hc) htarget
    · exact h.listed c hc htarget
    · exact absurd (hnew c hc) htarget
  gathered := by
    intro x hx
    apply h.gathered_of_ne hx
    intro c hc
    -- An external entry is never that of a member.
    refine Bool.eq_false_iff.2 fun htarget => ?_
    exact h.external x hx ((hnew c hc).congr htarget)

theorem gathered_merge (h : Records members runtime seen es) (hnew : ∀ c, new c → c.target == i.target)
    (hgathered : Gathered runtime new i.condition i.deferred) {x : External}
    (hx : .external x ∈ es.map (mergeImport i))
    : Gathered runtime (fun c => (seen c ∨ new c) ∧ c.target == x.module) x.condition x.deferred := by
  obtain ⟨e, he, heq⟩ := List.mem_map.1 hx
  obtain ⟨y, rfl, _⟩ := mergeImport_eq_external heq
  unfold mergeImport at heq
  split at heq
  next hy =>
    -- The new connections lead to the module of this entry, which takes in what they tell.
    cases heq
    refine ((h.gathered y he).union hgathered).congr fun c => ?_
    constructor
    · rintro (⟨hc, hcy⟩ | hc)
      · exact ⟨.inl hc, hcy⟩
      · exact ⟨.inr hc, BEq.trans (hnew c hc) (BEq.symm hy)⟩
    · rintro ⟨hc | hc, hcy⟩
      · exact .inl ⟨hc, hcy⟩
      · exact .inr hc
  next hy =>
    cases heq
    apply h.gathered_of_ne he
    intro c hc
    refine Bool.eq_false_iff.2 fun hcx => hy ?_
    exact BEq.trans (BEq.symm hcx) (hnew c hc)

theorem gathered_push (h : Records members runtime seen es) (htarget : ¬IsMember members i.target)
    (hnew : ∀ c, new c → c.target == i.target) (hgathered : Gathered runtime new i.condition i.deferred)
    (hunlisted : ∀ e ∈ es, (e.module == i.target) = false) {x : External}
    (hx : .external x ∈ es ++ [.external ⟨i.target, i.condition, i.deferred⟩])
    : Gathered runtime (fun c => (seen c ∨ new c) ∧ c.target == x.module) x.condition x.deferred := by
  rcases List.mem_append.1 hx with hx | hx
  · apply h.gathered_of_ne hx
    intro c hc
    refine Bool.eq_false_iff.2 fun hcx => ?_
    have hlisted := BEq.trans (BEq.symm hcx) (hnew c hc)
    exact Bool.eq_false_iff.1 (hunlisted _ hx) hlisted
  · cases List.mem_singleton.1 hx
    refine hgathered.congr fun c => ?_
    constructor
    · exact fun hc => ⟨.inr hc, hnew c hc⟩
    · rintro ⟨hc | hc, hci⟩
      · -- A connection to the module that was seen before would have left an entry.
        obtain ⟨e, he, hec⟩ := h.listed c hc fun hmember => htarget (hmember.congr hci)
        exact absurd (BEq.trans hec hci) (Bool.eq_false_iff.1 (hunlisted e he))
      · exact hc

theorem addExternal (h : Records members runtime seen w.entries) (hw : w.Indexed)
    (htarget : ¬IsMember members i.target) (hnew : ∀ c, new c → c.target == i.target)
    (hgathered : Gathered runtime new i.condition i.deferred)
    : Records members runtime (fun c => seen c ∨ new c) (w.addExternal i).entries := by
  have hadds := addsExternal hw i
  refine ⟨?_, ?_, ?_⟩
  · intro x hx
    rcases hadds.external hx with heq | ⟨y, hy, heq⟩
    · rw [heq]
      exact htarget
    · rw [← heq]
      exact h.external y hy
  · rintro c (hc | hc) hmember
    · exact hadds.listed (h.listed c hc hmember)
    · obtain ⟨e, he, hid⟩ := hadds.target
      exact ⟨e, he, BEq.trans hid (BEq.symm (hnew c hc))⟩
  · intro x hx
    rcases addExternal_cases hw i with ⟨-, hmerged⟩ | ⟨hunlisted, hpushed⟩
    · rw [hmerged] at hx
      exact h.gathered_merge hnew hgathered hx
    · rw [hpushed] at hx
      exact h.gathered_push htarget hnew hgathered hunlisted hx

end Records

def FollowedFrom (g : Graph) (runtime : Option RuntimeSpec) (ids : List ModuleId) (c : Connection) : Prop :=
  ∃ a ∈ ids, g.Follows runtime a c

theorem followedFrom_append {ids ids' : List ModuleId} {c : Connection}
    : FollowedFrom g runtime (ids ++ ids') c ↔ FollowedFrom g runtime ids c ∨ FollowedFrom g runtime ids' c := by
  simp only [FollowedFrom, List.mem_append, or_and_right, exists_or]

theorem followedFrom_singleton {c : Connection} : FollowedFrom g runtime [id] c ↔ g.Follows runtime id c := by
  simp [FollowedFrom]

def FollowedTo (g : Graph) (runtime : Option RuntimeSpec) (id : ModuleId) (imports : List Import) (c : Connection)
    : Prop :=
  g.Follows runtime id c ∧ ∃ i ∈ imports, c.target == i.target

theorem followedTo_imports {imports : List Import} (h : g.imports runtime id = .ok imports) (c : Connection)
    : FollowedTo g runtime id imports c ↔ g.Follows runtime id c := by
  refine ⟨fun hc => hc.1, fun hc => ⟨hc, ?_⟩⟩
  obtain ⟨i, hi, htarget⟩ := (Graph.importsOf_imports h).target c hc
  exact ⟨i, hi, BEq.symm htarget⟩

/--
From `w` to `w'` the walk has seen the connections in `new` and those of all members that it entered.
-/
def Sees (g : Graph) (runtime : Option RuntimeSpec) (members : List Member) (new : Connection → Prop) (w w' : Walk)
    : Prop :=
  ∃ ids, w'.entered = ids ++ w.entered ∧ ∀ seen, Records members runtime seen w.entries →
    Records members runtime (fun c => seen c ∨ new c ∨ FollowedFrom g runtime ids c) w'.entries

namespace Sees

variable {new' : Connection → Prop}

theorem stay (hentered : w'.entered = w.entered) (h : ∀ seen, Records members runtime seen w.entries →
    Records members runtime (fun c => seen c ∨ new c) w'.entries) : Sees g runtime members new w w' := by
  refine ⟨[], hentered, fun seen hseen => (h seen hseen).congr fun c => ?_⟩
  simp [FollowedFrom]

theorem trans {w'' : Walk} (h : Sees g runtime members new w w') (h' : Sees g runtime members new' w' w'')
    : Sees g runtime members (fun c => new c ∨ new' c) w w'' := by
  obtain ⟨ids, hentered, hrecords⟩ := h
  obtain ⟨ids', hentered', hrecords'⟩ := h'
  refine ⟨ids' ++ ids, ?_, fun seen hseen => (hrecords' _ (hrecords seen hseen)).congr fun c => ?_⟩
  · rw [hentered', hentered, List.append_assoc]
  · rw [followedFrom_append]
    simp only [or_assoc, or_left_comm, or_comm]

theorem congr (h : Sees g runtime members new w w') (hsame : ∀ c, new c ↔ new' c)
    : Sees g runtime members new' w w' := by
  have heq : new = new' := funext fun c => propext (hsame c)
  subst heq
  exact h

end Sees

theorem fold_sees {fuel : Nat} {imports is : List Import}
    (hstep : ∀ {w w' : Walk} {i : Import}, Traced g runtime members root (id :: opened) w →
      w.pending.size ≤ fuel → i ∈ imports → enter g runtime fuel w i = .ok w' →
      Sees g runtime members (FollowedTo g runtime id [i]) w w')
    (hw : Traced g runtime members root (id :: opened) w) (hsize : w.pending.size ≤ fuel)
    (himports : g.imports runtime id = .ok imports) (his : ∀ i ∈ is, i ∈ imports)
    (hfold : is.foldlM (enter g runtime fuel) w = .ok w')
    : Sees g runtime members (FollowedTo g runtime id is) w w' := by
  induction is generalizing w with
  | nil =>
    cases hfold
    refine .stay rfl fun seen hseen => hseen.congr fun c => ?_
    simp [FollowedTo]
  | cons i is ih =>
    rw [List.foldlM_cons, bind_eq_ok] at hfold
    obtain ⟨w₁, henter, hfold⟩ := hfold
    have hi := his i List.mem_cons_self
    have himport := (Graph.importsOf_imports himports).connection i hi
    have ⟨⟨hw₁, hsize₁, _⟩, _⟩ := enter_traced fuel hw hsize himport henter
    have hrest := ih hw₁ hsize₁ (fun i hi => his i (List.mem_cons_of_mem _ hi)) hfold
    refine ((hstep hw hsize hi henter).trans hrest).congr fun c => ?_
    simp only [FollowedTo, List.mem_cons, List.not_mem_nil, or_false, exists_eq_left, exists_eq_or_imp, ← and_or_left]

theorem enter_sees (fuel : Nat) {top : ModuleId} {imports : List Import}
    (hw : Traced g runtime members root (top :: opened) w) (hfuel : w.pending.size ≤ fuel)
    (himports : g.imports runtime top = .ok imports) (hi : i ∈ imports) (h : enter g runtime fuel w i = .ok w')
    : Sees g runtime members (FollowedTo g runtime top [i]) w w' := by
  induction fuel using Nat.strongRecOn generalizing top opened w w' imports i with
  | _ fuel ih =>
    have htarget : ∀ c, FollowedTo g runtime top [i] c → c.target == i.target := by
      rintro c ⟨_, i', hi', hc⟩
      cases List.mem_singleton.1 hi'
      exact hc
    rcases enter_cases hfuel h with ⟨hentered, rfl⟩ | ⟨hentered, hpending, rfl⟩ |
      ⟨hentered, n, m, imports', w'', rfl, hm, hcondition, himports', hfold, rfl⟩
    · -- The member was entered before.
      have hmember : IsMember members i.target := (hw.known _).2 (.inr hentered)
      refine .stay rfl fun seen hseen => hseen.toMembers ?_
      exact fun c hc => hmember.congr (BEq.symm (htarget c hc))
    · -- The target is external, and its entry takes in the connections behind the import.
      have hexternal : ¬IsMember members i.target := by
        rw [hw.known, hpending, hentered]
        simp
      have hgathered := (Graph.gathered_import himports hi).congr fun c =>
        show _ ↔ FollowedTo g runtime top [i] c by simp [FollowedTo]
      refine .stay (entered_addExternal w i) fun seen hseen => ?_
      exact hseen.addExternal hw.indexed hexternal htarget hgathered
    · -- The member is entered now, and the walk sees all of its connections.
      have hmember : IsMember members i.target := (hw.known _).2 (.inl (Option.isSome_of_eq_some hm))
      have himport := (Graph.importsOf_imports himports).connection i hi
      have hsize : (w.pending.erase i.target).size ≤ n := by
        have := Dict.size_erase hm
        omega
      obtain ⟨ids, hids, hrecords⟩ := fold_sees
        (fun hw hsize hi => ih n (Nat.lt_succ_self n) hw hsize himports' hi)
        (hw.openImport himport hm hcondition) hsize himports' (fun _ => id) hfold
      refine ⟨ids ++ [i.target], ?_, fun seen hseen => ?_⟩
      · rw [List.append_assoc]
        exact hids
      · have hnew : ∀ c, FollowedTo g runtime top [i] c → IsMember members c.target :=
          fun c hc => hmember.congr (BEq.symm (htarget c hc))
        refine (((hrecords seen hseen).toMembers hnew).concatenated m).congr fun c => ?_
        rw [followedTo_imports himports', followedFrom_append, followedFrom_singleton]
        simp only [or_assoc, or_comm]

end Walk

namespace MergeSet

variable {g : Graph} {root : ModuleId} {members : List Member} {runtime : Option RuntimeSpec} {s : MergeSet}

theorem records_ofGraph (h : ofGraph g root members runtime = .ok s)
    : Walk.Records members runtime (fun c => ∃ a, IsMember members a ∧ g.Follows runtime a c) s.entries := by
  rcases ofGraph_run g root members runtime with ⟨e, he, _⟩ | ⟨m, imports, fuel, w, hm, himports, hw, hrun⟩
  · rw [he] at h
    cases h
  · rw [hrun, bind_eq_ok] at h
    obtain ⟨w', hfold, h⟩ := h
    split at h
    next hempty =>
      cases h
      have ⟨⟨hw', _, _⟩, _⟩ := Walk.fold_traced (Walk.enter_traced fuel) hw.toTraced hw.size himports hfold
      obtain ⟨ids, hids, hrecords⟩ := Walk.fold_sees
        (fun hw hsize hi => Walk.enter_sees fuel hw hsize himports hi) hw.toTraced hw.size himports (fun _ => id) hfold
      have hstart : Walk.Records members runtime (fun _ => False) w.entries := by
        rw [hw.noEntries]
        exact .empty
      refine ((hrecords _ hstart).concatenated m).congr fun c => ?_
      rw [Walk.followedTo_imports himports, ← Walk.followedFrom_singleton, false_or, or_comm,
        ← Walk.followedFrom_append, ← hw.onlyRoot, ← hids]
      -- No member is pending, so that those which were entered are all members.
      constructor
      · rintro ⟨a, ha, hc⟩
        exact ⟨a, (hw'.known a).2 (.inr (List.contains_iff_exists_mem_beq.2 ⟨a, ha, BEq.rfl⟩)), hc⟩
      · rintro ⟨a, ha, hc⟩
        obtain ⟨b, hb, hab⟩ := List.contains_iff_exists_mem_beq.1 (hw'.entered_of_isEmpty hempty ha)
        exact ⟨b, hb, hc.congr hab⟩
    · cases h

end MergeSet

/--
The entry of an external module tells in which runtimes the members import it, and whether all defer it.
-/
structure External.Exact (x : External) (g : Graph) (members : List Member) (spec : RuntimeSpec) : Prop where
  needed : ∀ r ∈ spec.names,
    ((x.condition = none ∨ ∃ s, x.condition = some s ∧ r ∈ s.names)
      ↔ ∃ c, g.ImportsOver members (some (.single r)) x.module c)
  within : ∀ s, x.condition = some s → ∀ r ∈ s.names, r ∈ spec.names
  deferral : x.deferred ↔ ∀ c, g.ImportsOver members (some spec) x.module c → c.deferred

theorem Gathered.exact {x : External} {g : Graph} {members : List Member} {spec : RuntimeSpec}
    (h : Gathered (some spec) (g.ImportsOver members (some spec) x.module) x.condition x.deferred)
    : x.Exact g members spec where
  needed := by
    intro r hr
    constructor
    · rintro (hnone | ⟨s, hs, hrs⟩)
      · obtain ⟨c, ⟨a, ha, hc, htarget⟩, hsteady⟩ := h.always.1 hnone
        exact ⟨c, a, ha, { hc with active := hsteady spec rfl r hr }, htarget⟩
      · obtain ⟨spec', hspec', hnames⟩ := h.names s hs
        obtain ⟨_, c, ⟨a, ha, hc, htarget⟩, hactive⟩ := (hnames r).1 hrs
        exact ⟨c, a, ha, { hc with active := hactive }, htarget⟩
    · rintro ⟨c, a, ha, hc, htarget⟩
      cases hcondition : x.condition with
      | none => exact .inl rfl
      | some s =>
        obtain ⟨spec', hspec', hnames⟩ := h.names s hcondition
        cases hspec'
        refine .inr ⟨s, rfl, (hnames r).2 ⟨hr, c, ⟨a, ha, hc.mono (by simp [hr]), htarget⟩, hc.active⟩⟩
  within := by
    intro s hs r hrs
    obtain ⟨spec', hspec', hnames⟩ := h.names s hs
    cases hspec'
    exact ((hnames r).1 hrs).1
  deferral := h.deferral

namespace MergeSet

variable {g : Graph} {root : ModuleId} {members : List Member} {spec : RuntimeSpec} {s : MergeSet} {x : External}

theorem gathered_external {runtime : Option RuntimeSpec} (h : ofGraph g root members runtime = .ok s)
    (hx : .external x ∈ s.entries)
    : Gathered runtime (g.ImportsOver members runtime x.module) x.condition x.deferred := by
  refine ((records_ofGraph h).gathered x hx).congr fun c => ?_
  constructor
  · rintro ⟨⟨a, ha, hc⟩, htarget⟩
    exact ⟨a, ha, hc, htarget⟩
  · rintro ⟨a, ha, hc, htarget⟩
    exact ⟨⟨a, ha, hc⟩, htarget⟩

/--
The entries of external modules are exact. They do not depend on the order of members and connections: where the
connections over which members import a module are alike, its entries are.
-/
theorem ofGraph_external_exact (h : ofGraph g root members (some spec) = .ok s) (hx : .external x ∈ s.entries)
    : x.Exact g members spec
        ∧
      ∀ g' root' members' s' x', ofGraph g' root' members' (some spec) = .ok s' → .external x' ∈ s'.entries →
        Mirrored (g.ImportsOver members (some spec) x.module) (g'.ImportsOver members' (some spec) x'.module) →
        Mirrored (g'.ImportsOver members' (some spec) x'.module) (g.ImportsOver members (some spec) x.module) →
        x'.condition = x.condition ∧ x'.deferred = x.deferred := by
  have hgathered := gathered_external h hx
  refine ⟨hgathered.exact, ?_⟩
  intro g' root' members' s' x' h' hx'
  exact hgathered.unique (gathered_external h' hx')

end MergeSet

namespace Sample

def early : Graph :=
  importing (importing (importing (.ofModules [{ id := frame }, { id := panel }, { id := icon }])
    frame icon inMain) frame panel .always) panel icon inWorker

def late : Graph :=
  importing (importing (importing (.ofModules [{ id := panel }, { id := icon }, { id := frame }])
    panel icon inWorker) frame panel .always) frame icon inMain

def iconEntry : External := { module := icon, condition := some runtimes }

def paired : MergeSet :=
  assembled [.external iconEntry, .concatenated { module := panel }, .concatenated { module := frame }]

theorem ofGraph_early : MergeSet.ofGraph early frame pair (some runtimes) = .ok paired := by decide +kernel

theorem ofGraph_late : MergeSet.ofGraph late frame pair (some runtimes) = .ok paired := by decide +kernel

def link (n : Nat) (a b : ModuleId) (condition : Condition) : Connection :=
  .resolve ⟨n⟩ (some a) ⟨n⟩ { request := b.text, condition } b

theorem importsOver_icon {g : Graph} {n n' : Nat} (cs : List Connection)
    (hframe : g.outgoing frame = .ok cs) (hlink : link n frame icon inMain ∈ cs)
    (hcs : ∀ c ∈ cs, c.target == icon → c = link n frame icon inMain)
    (hpanel : g.outgoing panel = .ok [link n' panel icon inWorker]) (c : Connection)
    : g.ImportsOver pair (some runtimes) icon c
        ↔
      c = link n frame icon inMain ∨ c = link n' panel icon inWorker := by
  constructor
  · rintro ⟨a, ⟨m, hm, hma⟩, hc, htarget⟩
    obtain ⟨cs', hcs', hmem⟩ := (hc.congr (BEq.symm hma)).outgoing
    simp only [pair, List.mem_cons, List.not_mem_nil, or_false] at hm
    rcases hm with rfl | rfl
    · rw [hframe] at hcs'
      cases hcs'
      exact .inl (hcs c hmem htarget)
    · rw [hpanel] at hcs'
      cases hcs'
      exact .inr (List.mem_singleton.1 hmem)
  · rintro (rfl | rfl)
    · refine ⟨frame, ⟨{ module := frame }, by simp [pair], BEq.rfl⟩, ⟨⟨cs, hframe, hlink⟩, rfl, ?_, ?_⟩, BEq.rfl⟩
      · exact BEq.rfl (a := frame)
      · change (inMain.evaluate (some runtimes) == .active) = true
        decide +kernel
    · refine ⟨panel, ⟨{ module := panel }, by simp [pair], BEq.rfl⟩,
        ⟨⟨_, hpanel, List.mem_singleton_self _⟩, rfl, ?_, ?_⟩, BEq.rfl⟩
      · exact BEq.rfl (a := panel)
      · change (inWorker.evaluate (some runtimes) == .active) = true
        decide +kernel

theorem importsOver_early (c : Connection)
    : early.ImportsOver pair (some runtimes) icon c
        ↔
      c = link 0 frame icon inMain ∨ c = link 2 panel icon inWorker := by
  refine importsOver_icon [link 0 frame icon inMain, link 1 frame panel .always] rfl (by simp) ?_ rfl c
  intro c hc htarget
  simp only [List.mem_cons, List.not_mem_nil, or_false] at hc
  rcases hc with rfl | rfl
  · rfl
  · exact absurd htarget (by decide)

theorem importsOver_late (c : Connection)
    : late.ImportsOver pair (some runtimes) icon c
        ↔
      c = link 2 frame icon inMain ∨ c = link 0 panel icon inWorker := by
  refine importsOver_icon [link 1 frame panel .always, link 2 frame icon inMain] rfl (by simp) ?_ rfl c
  intro c hc htarget
  simp only [List.mem_cons, List.not_mem_nil, or_false] at hc
  rcases hc with rfl | rfl
  · exact absurd htarget (by decide)
  · rfl

theorem alike_link (n n' : Nat) (a b : ModuleId) (condition : Condition)
    : (link n a b condition).Alike (link n' a b condition) := ⟨fun _ => rfl, rfl⟩

end Sample

theorem MergeSet.ofGraph_external_exact_sample
    : ofGraph Sample.early Sample.frame Sample.pair (some Sample.runtimes) = .ok Sample.paired ∧
      Sample.iconEntry.Exact Sample.early Sample.pair Sample.runtimes ∧
      ofGraph Sample.late Sample.frame Sample.pair (some Sample.runtimes) = .ok Sample.paired ∧
      ∀ s x, ofGraph Sample.late Sample.frame Sample.pair (some Sample.runtimes) = .ok s →
        .external x ∈ s.entries → x.module = Sample.icon →
        x.condition = Sample.iconEntry.condition ∧ x.deferred = Sample.iconEntry.deferred := by
  have ⟨hexact, hsame⟩ := ofGraph_external_exact Sample.ofGraph_early (x := Sample.iconEntry) List.mem_cons_self
  refine ⟨Sample.ofGraph_early, hexact, Sample.ofGraph_late, ?_⟩
  intro s x hs hx hmodule
  apply hsame Sample.late Sample.frame Sample.pair s x hs hx
  · rw [hmodule]
    intro c hc
    rcases (Sample.importsOver_early c).1 hc with rfl | rfl
    · exact ⟨_, (Sample.importsOver_late _).2 (.inl rfl), Sample.alike_link ..⟩
    · exact ⟨_, (Sample.importsOver_late _).2 (.inr rfl), Sample.alike_link ..⟩
  · rw [hmodule]
    intro c hc
    rcases (Sample.importsOver_late c).1 hc with rfl | rfl
    · exact ⟨_, (Sample.importsOver_early _).2 (.inl rfl), Sample.alike_link ..⟩
    · exact ⟨_, (Sample.importsOver_early _).2 (.inr rfl), Sample.alike_link ..⟩

end ModuleLink
