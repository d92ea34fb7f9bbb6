import ModuleLink.Merge.Walk
import ModuleLink.Proofs.Basic

/-!
This module contains the proof that every merge set has one entry per module, which its index finds, however it was
made: from given entries or by a walk through a graph.
-/

namespace ModuleLink

theorem ModuleId.beq_iff {a b : ModuleId} : (a == b) = true ↔ a.components = b.components :=
  beq_iff_eq (α := List Component)

instance : EquivBEq ModuleId where
  rfl := ModuleId.beq_iff.2 rfl
  symm h := ModuleId.beq_iff.2 (ModuleId.beq_iff.1 h).symm
  trans h h' := ModuleId.beq_iff.2 ((ModuleId.beq_iff.1 h).trans (ModuleId.beq_iff.1 h'))

namespace MergeEntry

def Distinct (es : List MergeEntry) : Prop := es.Pairwise fun e e' => (e.module == e'.module) = false

end MergeEntry

namespace EntryTable

variable {t : EntryTable} {id : ModuleId}

def Indexed (t : EntryTable) : Prop :=
  ∀ id k, t.index.get? id = some k ↔ ∃ e, t.entries[k]? = some e ∧ e.module == id

theorem get?_congr {a b : ModuleId} (h : a == b) (t : EntryTable) : t.get? a = t.get? b := by
  unfold get?
  rw [Dict.get?_congr h]

theorem contains_congr {a b : ModuleId} (h : a == b) (t : EntryTable) : t.contains a = t.contains b := by
  unfold contains Dict.contains
  rw [Dict.get?_congr h]

theorem contains_of_get? {e : MergeEntry} (h : t.get? id = some e) : t.contains id = true := by
  obtain ⟨k, hk, -⟩ := Option.bind_eq_some_iff.1 h
  exact Option.isSome_of_eq_some hk

theorem indexed_empty : ({} : EntryTable).Indexed := by
  intro id k
  simp

namespace Indexed

theorem push (h : t.Indexed) {e : MergeEntry} (hnew : ∀ e' ∈ t.entries, (e'.module == e.module) = false)
    : (t.push e).Indexed := by
  intro id k
  unfold EntryTable.push
  dsimp only
  rw [Dict.get?_insert]
  split
  · next hid =>
    constructor
    · rintro ⟨⟩
      exact ⟨e, List.getElem?_concat_length, hid⟩
    · rintro ⟨e', hk, hid'⟩
      rw [List.getElem?_append] at hk
      split at hk
      · have hold := hnew e' (List.mem_of_getElem? hk)
        rw [BEq.trans hid' (BEq.symm hid)] at hold
        cases hold
      · next hk' =>
        have hlast := (List.getElem?_eq_some_iff.1 hk).1
        rw [List.length_singleton] at hlast
        rw [Nat.le_antisymm (Nat.le_of_sub_eq_zero (Nat.lt_one_iff.1 hlast)) (Nat.not_lt.1 hk')]
  · next hid =>
    rw [h id k, List.getElem?_append]
    split
    · rfl
    · next hk' =>
      constructor
      · rintro ⟨e', hk, -⟩
        exact absurd (List.getElem?_eq_some_iff.1 hk).1 hk'
      · rintro ⟨e', hk, hid'⟩
        rw [List.mem_singleton.1 (List.mem_of_getElem? hk)] at hid'
        exact absurd hid' hid

theorem map (h : t.Indexed) {f : MergeEntry → MergeEntry} (hf : ∀ e, (f e).module = e.module)
    : ({ t with entries := t.entries.map f } : EntryTable).Indexed := by
  intro id k
  rw [h id k, List.getElem?_map]
  constructor
  · rintro ⟨e, hk, hid⟩
    exact ⟨f e, by rw [hk]; rfl, hf e ▸ hid⟩
  · rintro ⟨_, hk, hid⟩
    obtain ⟨e, he, rfl⟩ := Option.map_eq_some_iff.1 hk
    exact ⟨e, he, hf e ▸ hid⟩

theorem modify_eq_map (h : t.Indexed) {n : Nat} (hn : t.index.get? id = some n) (f : MergeEntry → MergeEntry)
    : t.entries.modify n f = t.entries.map fun e => if e.module == id then f e else e := by
  refine List.ext_getElem? fun k => ?_
  rw [List.getElem?_modify, List.getElem?_map]
  cases hk : t.entries[k]? with
  | none => rfl
  | some e =>
    have hplace : e.module == id ↔ n = k := by
      constructor
      · intro hid
        exact Option.some.inj (hn.symm.trans ((h id k).2 ⟨e, hk, hid⟩))
      · rintro rfl
        obtain ⟨e', hk', hid⟩ := (h id n).1 hn
        cases hk.symm.trans hk'
        exact hid
    exact congrArg some (if_congr hplace.symm rfl rfl)

theorem get?_eq_some_iff (h : t.Indexed) {e : MergeEntry}
    : t.get? id = some e ↔ ∃ k : Nat, t.entries[k]? = some e ∧ e.module == id := by
  unfold get?
  rw [Option.bind_eq_some_iff]
  refine exists_congr fun k => ?_
  rw [h id k, and_comm]
  refine and_congr_right fun hk => ⟨?_, fun hid => ⟨e, hk, hid⟩⟩
  rintro ⟨e', hk', hid⟩
  cases hk.symm.trans hk'
  exact hid

theorem mem_of_get? (h : t.Indexed) {e : MergeEntry} (he : t.get? id = some e) : e ∈ t.entries ∧ e.module == id := by
  obtain ⟨k, hk, hid⟩ := h.get?_eq_some_iff.1 he
  exact ⟨List.mem_of_getElem? hk, hid⟩

theorem get?_of_mem (h : t.Indexed) {e : MergeEntry} (he : e ∈ t.entries) (hid : e.module == id)
    : t.get? id = some e := by
  obtain ⟨k, hk⟩ := List.mem_iff_getElem?.1 he
  exact h.get?_eq_some_iff.2 ⟨k, hk, hid⟩

theorem exists_of_contains (h : t.Indexed) (hid : t.contains id = true) : ∃ e, t.get? id = some e := by
  obtain ⟨k, hk⟩ := Option.isSome_iff_exists.1 hid
  obtain ⟨e, he, -⟩ := (h id k).1 hk
  refine ⟨e, ?_⟩
  unfold get?
  rw [hk, Option.bind_some, he]

theorem not_beq_of_index (h : t.Indexed) (hid : t.index.get? id = none)
    : ∀ e ∈ t.entries, (e.module == id) = false := by
  intro e he
  refine Bool.eq_false_iff.2 fun heq => ?_
  obtain ⟨k, hk⟩ := List.mem_iff_getElem?.1 he
  cases hid.symm.trans ((h id k).2 ⟨e, hk, heq⟩)

theorem distinct (h : t.Indexed) : MergeEntry.Distinct t.entries := by
  refine List.pairwise_iff_getElem.2 fun i j hi hj hij => Bool.eq_false_iff.2 fun heq => ?_
  have hfirst := (h t.entries[j].module i).2 ⟨_, List.getElem?_eq_getElem hi, heq⟩
  have hsecond := (h t.entries[j].module j).2 ⟨_, List.getElem?_eq_getElem hj, BEq.rfl⟩
  cases hfirst.symm.trans hsecond
  exact Nat.lt_irrefl _ hij

end Indexed

theorem indexed_ofFirst (entries : List MergeEntry) : (ofFirst entries).Indexed := by
  refine List.foldlRecOn entries _ indexed_empty ?_
  intro t ht e _
  split
  · exact ht
  · next hnew =>
    apply ht.push
    exact ht.not_beq_of_index (Option.not_isSome_iff_eq_none.1 hnew)

end EntryTable

namespace Walk

/--
What holds throughout a walk in which the members in `opened` were entered and are not listed yet: there is no entry for
them nor for a pending member.
-/
structure Inv (opened : List ModuleId) (w : Walk) : Prop where
  keys : w.pending.DistinctKeys
  member : ∀ id m, w.pending.get? id = some m → m.module == id
  indexed : w.Indexed
  pending : ∀ e ∈ w.entries, w.pending.get? e.module = none
  entered : ∀ id ∈ opened, w.entered.contains id
  opened : ∀ id ∈ opened, w.pending.get? id = none ∧ ∀ e ∈ w.entries, (e.module == id) = false

variable {opened : List ModuleId} {w : Walk}

theorem Inv.push (hw : w.Inv opened) {e : MergeEntry} (hpending : w.pending.get? e.module = none)
    (hnew : ∀ e' ∈ w.entries, (e'.module == e.module) = false)
    (hopened : ∀ id ∈ opened, (e.module == id) = false) : (w.push e).Inv opened where
  keys := hw.keys
  member := hw.member
  indexed := hw.indexed.push hnew
  pending := by
    intro e' he'
    rcases List.mem_append.1 he' with he' | he'
    · exact hw.pending e' he'
    · rw [List.mem_singleton.1 he']
      exact hpending
  entered := hw.entered
  opened := by
    intro id hid
    refine ⟨(hw.opened id hid).1, ?_⟩
    intro e' he'
    rcases List.mem_append.1 he' with he' | he'
    · exact (hw.opened id hid).2 e' he'
    · rw [List.mem_singleton.1 he']
      exact hopened id hid

def mergeImport (i : Import) (e : MergeEntry) : MergeEntry :=
  if e.module == i.target then mergeExternal i e else e

@[simp]
theorem mergeImport_module (i : Import) (e : MergeEntry) : (mergeImport i e).module = e.module := by
  unfold mergeImport
  split
  · cases e <;> rfl
  · rfl

theorem addExternal_cases (hw : w.Indexed) (i : Import)
    : (∃ e ∈ w.entries, e.module == i.target) ∧
        w.addExternal i = { w with entries := w.entries.map (mergeImport i) }
        ∨
      (∀ e ∈ w.entries, (e.module == i.target) = false) ∧
        w.addExternal i = w.push (.external ⟨i.target, i.condition, i.deferred⟩) := by
  unfold Walk.addExternal
  cases hn : w.index.get? i.target with
  | none => exact .inr ⟨hw.not_beq_of_index hn, rfl⟩
  | some n =>
    obtain ⟨e, hk, hid⟩ := (hw _ n).1 hn
    refine .inl ⟨⟨e, List.mem_of_getElem? hk, hid⟩, ?_⟩
    dsimp only
    rw [hw.modify_eq_map hn]
    rfl

theorem Inv.mergeImport (hw : w.Inv opened) (i : Import)
    : Inv opened { w with entries := w.entries.map (mergeImport i) } where
  keys := hw.keys
  member := hw.member
  indexed := hw.indexed.map (mergeImport_module i)
  pending := by simpa using hw.pending
  entered := hw.entered
  opened := by simpa using hw.opened

theorem not_beq_of_entered (hw : w.Inv opened) {target : ModuleId} (h : w.entered.contains target = false)
    : ∀ id ∈ opened, (target == id) = false := by
  intro id hid
  refine Bool.eq_false_iff.2 fun heq => ?_
  rw [contains_congr heq, hw.entered id hid] at h
  cases h

theorem Inv.addExternal (hw : w.Inv opened) {i : Import} (hentered : w.entered.contains i.target = false)
    (hpending : w.pending.get? i.target = none) : (w.addExternal i).Inv opened := by
  rcases addExternal_cases hw.indexed i with ⟨-, hmerged⟩ | ⟨hnew, hpushed⟩
  · rw [hmerged]
    exact hw.mergeImport i
  · rw [hpushed]
    exact hw.push hpending hnew (not_beq_of_entered hw hentered)

theorem Inv.open (hw : w.Inv opened) {id : ModuleId} {m : Member} (hm : w.pending.get? id = some m)
    : Inv (id :: opened) { w with pending := w.pending.erase id, entered := id :: w.entered } where
  keys := hw.keys.erase id
  member := by
    intro id' m' h
    rw [Dict.get?_erase hw.keys] at h
    split at h
    · cases h
    · exact hw.member id' m' h
  indexed := hw.indexed
  pending := by
    intro e he
    rw [Dict.get?_erase hw.keys, hw.pending e he]
    simp
  entered := by
    intro id' hid'
    rcases List.mem_cons.1 hid' with rfl | hid'
    · simp
    · have := hw.entered id' hid'
      simp_all
  opened := by
    intro id' hid'
    rw [Dict.get?_erase hw.keys]
    rcases List.mem_cons.1 hid' with rfl | hid'
    · refine ⟨by simp, ?_⟩
      intro e he
      refine Bool.eq_false_iff.2 fun heq => ?_
      have := hw.pending e he
      rw [Dict.get?_congr heq, hm] at this
      cases this
    · refine ⟨?_, (hw.opened id' hid').2⟩
      rw [(hw.opened id' hid').1]
      simp

theorem Inv.close {id : ModuleId} (hw : w.Inv (id :: opened)) {m : Member} (hm : m.module == id)
    (hid : ∀ id' ∈ opened, (id == id') = false) : (w.push (.concatenated m)).Inv opened := by
  have ⟨hpending, hnew⟩ := hw.opened id List.mem_cons_self
  have hw' : w.Inv opened :=
    { hw with
      entered := fun id' hid' => hw.entered id' (List.mem_cons_of_mem _ hid')
      opened := fun id' hid' => hw.opened id' (List.mem_cons_of_mem _ hid') }
  apply hw'.push
  · rw [← hpending]
    exact Dict.get?_congr hm _
  · intro e he
    rw [← hnew e he]
    exact BEq.congr_right hm
  · intro id' hid'
    rw [← hid id' hid']
    exact BEq.congr_left hm

theorem enter_inv (g : Graph) (runtime : Option RuntimeSpec) (fuel : Nat) {w' : Walk} {i : Import}
    (hw : w.Inv opened) (h : enter g runtime fuel w i = .ok w') : w'.Inv opened := by
  induction fuel generalizing opened w w' i with
  | zero =>
    unfold enter at h
    split at h
    · cases h
      exact hw
    next hentered =>
      split at h
      next hpending =>
        cases h
        exact hw.addExternal (by simpa using hentered) hpending
      · cases h
        exact hw
      next hfuel => cases hfuel
  | succ n ih =>
    unfold enter at h
    split at h
    · cases h
      exact hw
    next hentered =>
      have hentered : w.entered.contains i.target = false := by simpa using hentered
      split at h
      next hpending =>
        cases h
        exact hw.addExternal hentered hpending
      next hfuel => cases hfuel
      next member n' hmember hfuel =>
        cases hfuel
        split at h
        · cases h
        · rw [bind_eq_ok] at h
          obtain ⟨imports, _, h⟩ := h
          rw [bind_eq_ok] at h
          obtain ⟨w'', hfold, h⟩ := h
          cases h
          have hw'' : w''.Inv (i.target :: opened) :=
            foldlM_ok_induction (Inv (i.target :: opened)) (fun _ _ _ _ hb hok => ih hb hok)
              (hw.open hmember) hfold
          exact hw''.close (hw.member _ _ hmember) (not_beq_of_entered hw hentered)

end Walk

theorem get?_ofMembers {members : List Member} {id : ModuleId} {m : Member}
    (h : (Dict.ofList (members.map fun m => (m.module, m))).get? id = some m) : m.module == id := by
  unfold Dict.ofList at h
  rw [List.foldl_map] at h
  revert id m
  refine List.foldlRecOn members _
    (motive := fun d : Dict ModuleId Member => ∀ {id m}, d.get? id = some m → m.module == id) ?_ ?_
  · intro id m h
    cases h
  · intro d hd m' _ id m h
    rw [Dict.get?_insert] at h
    split at h
    next heq =>
      cases h
      exact heq
    · exact hd h

namespace MergeSet

inductive Built (s : MergeSet) : Prop where
  | ofEntries (root : ModuleId) (runtime : Option RuntimeSpec) (entries : List MergeEntry)
      (h : MergeSet.ofEntries root runtime entries = .ok s)
  | ofGraph (g : Graph) (root : ModuleId) (members : List Member) (runtime : Option RuntimeSpec)
      (h : MergeSet.ofGraph g root members runtime = .ok s)

theorem indexed_ofEntries {root : ModuleId} {runtime : Option RuntimeSpec} {entries : List MergeEntry}
    {s : MergeSet} (h : ofEntries root runtime entries = .ok s) : s.Indexed := by
  unfold ofEntries at h
  dsimp only at h
  split at h
  · cases h
    exact EntryTable.indexed_ofFirst entries
  · cases h

theorem indexed_ofGraph {g : Graph} {root : ModuleId} {members : List Member}
    {runtime : Option RuntimeSpec} {s : MergeSet} (h : ofGraph g root members runtime = .ok s) : s.Indexed := by
  unfold ofGraph at h
  dsimp only at h
  split at h
  · cases h
  next rootMember hroot =>
    rw [bind_eq_ok] at h
    obtain ⟨imports, _, h⟩ := h
    rw [bind_eq_ok] at h
    obtain ⟨w, hfold, h⟩ := h
    split at h
    · cases h
      have hkeys := Dict.distinctKeys_ofList (members.map fun m => (m.module, m))
      have hstart : Walk.Inv [] { pending := Dict.ofList (members.map fun m => (m.module, m)), entered := [] } :=
        { keys := hkeys
          member := fun _ _ => get?_ofMembers
          indexed := EntryTable.indexed_empty
          pending := by simp
          entered := by simp
          opened := by simp }
      have hw : w.Inv [root] :=
        foldlM_ok_induction (Walk.Inv [root]) (fun _ _ _ _ hb hok => Walk.enter_inv g runtime _ hb hok)
          (hstart.open hroot) hfold
      exact (hw.close (get?_ofMembers hroot) (by simp)).indexed
    · cases h

theorem Built.indexed {s : MergeSet} (hs : s.Built) : s.Indexed := by
  cases hs with
  | ofEntries root runtime entries h => exact indexed_ofEntries h
  | ofGraph g root members runtime h => exact indexed_ofGraph h

variable {s : MergeSet}

theorem mem_members {m : Member} : m ∈ s.members ↔ .concatenated m ∈ s.entries := by
  unfold members
  rw [List.mem_filterMap]
  constructor
  · rintro ⟨e, he, hm⟩
    cases e with
    | concatenated m' =>
      cases hm
      exact he
    | external x => cases hm
  · intro he
    exact ⟨_, he, rfl⟩

theorem Built.get?_member (hs : s.Built) {m : Member} (hm : m ∈ s.members) {id : ModuleId}
    (hid : m.module == id) : s.get? id = some (.concatenated m) :=
  hs.indexed.get?_of_mem (mem_members.1 hm) hid

end MergeSet
end ModuleLink
