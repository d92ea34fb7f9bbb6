import Mathlib.Data.List.Sort
import ModuleLink.Proofs.Exports.Ownership

/-!
This module contains what a snapshot of the provision of a descriptor says: the facts of every name, whether a record
lists it or not, and the snapshots of the descriptors that the listed records own.
-/

namespace ModuleLink

namespace Dict

variable {α : Type u} {β : Type v} [BEq α] [LawfulBEq α]

theorem DistinctKeys.get?_eq_some_iff {d : Dict α β} (h : d.DistinctKeys) {k : α} {v : β}
    : d.get? k = some v ↔ (k, v) ∈ d.entries := by
  constructor
  · intro hv
    obtain ⟨k', hk', hmem⟩ := mem_entries_of_get? hv
    rw [eq_of_beq hk'] at hmem
    exact hmem
  · exact get?_of_mem_entries h

theorem distinctKeys_of_increasing {d : Dict String β} (h : d.entries.Pairwise fun x y => x.1 < y.1)
    : d.DistinctKeys := by
  refine List.pairwise_map.2 (h.imp ?_)
  intro x y hlt
  simpa using String.ne_of_lt hlt

theorem ext_of_increasing {d d' : Dict String β} (h : d.entries.Pairwise fun x y => x.1 < y.1)
    (h' : d'.entries.Pairwise fun x y => x.1 < y.1) (hsame : ∀ k, d.get? k = d'.get? k) : d = d' := by
  have : Std.Irrefl fun x y : String × β => x.1 < y.1 := ⟨fun x => String.lt_irrefl x.1⟩
  have : Std.Antisymm fun x y : String × β => x.1 < y.1 :=
    ⟨fun x y hlt hgt => absurd (String.lt_trans hlt hgt) (String.lt_irrefl x.1)⟩
  refine congrArg Dict.mk (List.Pairwise.eq_of_mem_iff h h' ?_)
  rintro ⟨k, v⟩
  rw [← (distinctKeys_of_increasing h).get?_eq_some_iff, hsame, (distinctKeys_of_increasing h').get?_eq_some_iff]

end Dict

namespace ProvisionSnapshot

def other : ProvisionSnapshot → ProvisionFacts
  | .mk other _ => other

def exports : ProvisionSnapshot → Dict String (ProvisionFacts × Option ProvisionSnapshot)
  | .mk _ exports => ⟨exports⟩

/--
What the snapshot says of a name: the catch-all record speaks for the names that it does not mention.
-/
def facts (s : ProvisionSnapshot) (name : String) : ProvisionFacts := ((s.exports.get? name).map Prod.fst).getD s.other

def inner? (s : ProvisionSnapshot) (name : String) : Option ProvisionSnapshot := (s.exports.get? name).bind Prod.snd

def at? (s : ProvisionSnapshot) : List String → Option ProvisionSnapshot
  | [] => some s
  | name :: path => (s.inner? name).bind (at? · path)

inductive Distinct : ProvisionSnapshot → Prop where
  | mk {s : ProvisionSnapshot} : s.exports.DistinctKeys →
      (∀ name facts inner, (name, facts, some inner) ∈ s.exports.entries → Distinct inner) → Distinct s

theorem ext {s s' : ProvisionSnapshot} (hother : s.other = s'.other) (hexports : s.exports = s'.exports) : s = s' := by
  cases s
  cases s'
  cases hother
  cases hexports
  rfl

theorem at?_cons {s s' : ProvisionSnapshot} {name : String} {path : List String}
    : s.at? (name :: path) = some s' ↔ ∃ inner, s.inner? name = some inner ∧ inner.at? path = some s' :=
  Option.bind_eq_some_iff

theorem inner?_eq_some {s inner : ProvisionSnapshot} (h : s.exports.DistinctKeys) {name : String}
    : s.inner? name = some inner ↔ ∃ facts, (name, facts, some inner) ∈ s.exports.entries := by
  rw [inner?, Option.bind_eq_some_iff]
  constructor
  · rintro ⟨⟨facts, inner?⟩, hget, hinner⟩
    cases hinner
    exact ⟨facts, h.get?_eq_some_iff.1 hget⟩
  · rintro ⟨facts, hmem⟩
    exact ⟨(facts, some inner), h.get?_eq_some_iff.2 hmem, rfl⟩

namespace Distinct

theorem keys {s : ProvisionSnapshot} (h : s.Distinct) : s.exports.DistinctKeys := by
  cases h
  assumption

theorem of_cons {other facts : ProvisionFacts} {name : String} {inner? : Option ProvisionSnapshot}
    {es : List (String × ProvisionFacts × Option ProvisionSnapshot)}
    (h : (ProvisionSnapshot.mk other ((name, facts, inner?) :: es)).Distinct)
    : name ∉ es.map Prod.fst ∧ (∀ inner, inner? = some inner → inner.Distinct) ∧
      (ProvisionSnapshot.mk other es).Distinct := by
  cases h with
  | mk hkeys hinner =>
    have ⟨hfirst, hrest⟩ := List.pairwise_cons.1 hkeys
    refine ⟨?_, ?_, ?_⟩
    · intro hmem
      simpa using hfirst name hmem
    · rintro inner rfl
      exact hinner name facts inner List.mem_cons_self
    · refine .mk hrest ?_
      intro n nfacts inner hmem
      exact hinner n nfacts inner (List.mem_cons_of_mem _ hmem)

end Distinct

end ProvisionSnapshot

namespace Arena

variable {a : Arena} {d e : DescriptorId} {name : String}

def otherFacts (a : Arena) (d : DescriptorId) : ProvisionFacts := (a.record (a.descriptor d).other).provisionFacts

def ownFacts (a : Arena) (d : DescriptorId) (name : String) : ProvisionFacts :=
  (a.record (a.ownRecord d name)).provisionFacts

theorem ownFacts_of_listed? {r : RecordId} (h : a.listed? d name = some r)
    : a.ownFacts d name = (a.record r).provisionFacts := by
  rw [ownFacts, ownRecord, h]
  rfl

theorem ownFacts_of_not_listed (h : a.listed? d name = none) : a.ownFacts d name = a.otherFacts d := by
  rw [ownFacts, ownRecord, h]
  rfl

theorem snapshot.go_of_le (hd : a.descriptors.size ≤ d.index) (n : Nat)
    : snapshot.go a n d = .mk (a.otherFacts d) [] := by
  cases n with
  | zero => rfl
  | succ n =>
    have hlocals : a.orderedLocals d = [] := by
      rw [orderedLocals, descriptor, Array.getElem?_eq_none hd]
      exact congrArg (List.map Prod.snd) List.mergeSort_nil
    unfold snapshot.go
    rw [hlocals]
    rfl

theorem snapshot.go_congr (h : a.Sound) {n m : Nat} (hn : a.descriptors.size ≤ n + d.index)
    (hm : a.descriptors.size ≤ m + d.index) : snapshot.go a n d = snapshot.go a m d := by
  -- Descriptors are newer than those that own them, so that as many levels are enough as there are newer ones.
  induction n generalizing d m with
  | zero =>
    rw [go_of_le (by omega), go_of_le (by omega)]
  | succ n ih =>
    cases m with
    | zero => rw [go_of_le (by omega), go_of_le (by omega)]
    | succ m =>
      unfold snapshot.go
      dsimp only
      congr 1
      apply List.filterMap_congr
      intro r hr
      have hnested : (a.record r).ownedNested.map (snapshot.go a n)
          = (a.record r).ownedNested.map (snapshot.go a m) := by
        cases howned : (a.record r).ownedNested with
        | none => rfl
        | some e =>
          obtain ⟨name, hlisted, -⟩ := h.named.listed_of_mem (mem_orderedLocals.1 hr)
          have hlt := h.tidy.newer hlisted howned
          exact congrArg some (ih (by omega) (by omega))
      rw [hnested]

/--
What a snapshot keeps of a record: nothing, if it does not differ from the catch-all record.
-/
def snapshotRecord? (a : Arena) (d : DescriptorId) (r : RecordId) :
    Option (String × ProvisionFacts × Option ProvisionSnapshot) :=
  let facts := (a.record r).provisionFacts
  let nested := (a.record r).ownedNested.map a.snapshot
  if facts = a.otherFacts d ∧ nested.isNone then none else some ((a.record r).name.getD "", facts, nested)

theorem snapshot_eq (h : a.Sound) (d : DescriptorId)
    : a.snapshot d = .mk (a.otherFacts d) ((a.orderedLocals d).filterMap (a.snapshotRecord? d)) := by
  rw [snapshot, snapshot.go_congr h (m := a.descriptors.size + 1) (by omega) (by omega)]
  rfl

theorem other_snapshot (h : a.Sound) (d : DescriptorId) : (a.snapshot d).other = a.otherFacts d := by
  rw [snapshot_eq h]
  rfl

theorem snapshotRecord?_eq_some {r : RecordId} {x : ProvisionFacts × Option ProvisionSnapshot} {n : String}
    (hname : (a.record r).name = some name)
    : a.snapshotRecord? d r = some (n, x)
        ↔
      n = name ∧ x = ((a.record r).provisionFacts, (a.record r).ownedNested.map a.snapshot) ∧
        ¬ ((a.record r).provisionFacts = a.otherFacts d ∧ (a.record r).ownedNested = none) := by
  unfold snapshotRecord?
  rw [hname]
  simp only [Option.isNone_map, Option.isNone_iff_eq_none, Option.getD_some]
  split
  next hsame => simp [hsame]
  next hdiffers =>
    simp only [Option.some.injEq, Prod.mk.injEq, hdiffers, not_false_eq_true, and_true]
    rw [eq_comm, eq_comm (b := x)]

theorem mem_snapshot (h : a.Sound) {x : ProvisionFacts × Option ProvisionSnapshot}
    : (name, x) ∈ (a.snapshot d).exports.entries
        ↔
      ∃ r, a.listed? d name = some r ∧ a.snapshotRecord? d r = some (name, x) := by
  rw [snapshot_eq h]
  refine List.mem_filterMap.trans ⟨?_, ?_⟩
  · rintro ⟨r, hr, hrecord⟩
    obtain ⟨n, hlisted, hname⟩ := h.named.listed_of_mem (mem_orderedLocals.1 hr)
    obtain ⟨rfl, -⟩ := (snapshotRecord?_eq_some hname).1 hrecord
    exact ⟨r, hlisted, hrecord⟩
  · rintro ⟨r, hlisted, hrecord⟩
    exact ⟨r, mem_orderedLocals.2 (Dict.mem_values_of_get? hlisted), hrecord⟩

theorem pairwise_snapshot (h : a.Sound) (d : DescriptorId)
    : (a.snapshot d).exports.entries.Pairwise fun x y => x.1 < y.1 := by
  have hkeys : ((a.descriptor d).exports.entries.map Prod.fst).Nodup :=
    (h.named.keys d).imp fun hne => by simpa using hne
  have hname {x : String × RecordId}
      (hx : x ∈ (a.descriptor d).exports.entries.mergeSort fun x y => decide (x.1 ≤ y.1))
      {y : String × ProvisionFacts × Option ProvisionSnapshot} (hy : a.snapshotRecord? d x.2 = some y) : y.1 = x.1 := by
    have hlisted := Dict.get?_of_mem_entries (h.named.keys d) (List.mem_mergeSort.1 hx)
    exact ((snapshotRecord?_eq_some (h.named.names hlisted)).1 hy).1
  rw [snapshot_eq h]
  refine List.pairwise_filterMap.2 (List.pairwise_map.2 ?_)
  refine (pairwise_mergeSort_of_nodup Prod.fst hkeys).imp_of_mem ?_
  intro x x' hx hx' hlt y hy y' hy'
  rw [hname hx hy, hname hx' hy']
  exact hlt

theorem get?_snapshot (h : a.Sound) (d : DescriptorId) (name : String)
    : (a.snapshot d).exports.get? name
        =
      if a.ownFacts d name = a.otherFacts d ∧ a.ownedBy? d name = none then none
      else some (a.ownFacts d name, (a.ownedBy? d name).map a.snapshot) := by
  apply Option.ext
  intro x
  rw [(Dict.distinctKeys_of_increasing (pairwise_snapshot h d)).get?_eq_some_iff, mem_snapshot h]
  cases hlisted : a.listed? d name with
  | none => simp [ownFacts_of_not_listed hlisted, ownedBy?, hlisted]
  | some r =>
    rw [ownFacts_of_listed? hlisted, ownedBy?, hlisted]
    simp only [Option.some.injEq, exists_eq_left', Option.bind_some, snapshotRecord?_eq_some (h.named.names hlisted),
      true_and]
    split
    next hsame => simp [hsame]
    next hdiffers => rw [and_iff_left hdiffers, Option.some.injEq, eq_comm]

theorem facts_snapshot (h : a.Sound) (d : DescriptorId) (name : String)
    : (a.snapshot d).facts name = a.ownFacts d name := by
  rw [ProvisionSnapshot.facts, get?_snapshot h, other_snapshot h]
  split
  next hsame => exact hsame.1.symm
  · rfl

theorem inner?_snapshot (h : a.Sound) (d : DescriptorId) (name : String)
    : (a.snapshot d).inner? name = (a.ownedBy? d name).map a.snapshot := by
  rw [ProvisionSnapshot.inner?, get?_snapshot h]
  split
  next hsame =>
    rw [hsame.2]
    rfl
  · rfl

theorem at?_snapshot (h : a.Sound) (d : DescriptorId) (path : List String)
    : (a.snapshot d).at? path = (a.ownedAt? d path).map a.snapshot := by
  induction path generalizing d with
  | nil => rfl
  | cons name path ih =>
    rw [ProvisionSnapshot.at?, inner?_snapshot h, ownedAt?]
    cases a.ownedBy? d name with
    | none => rfl
    | some e => exact ih e

theorem distinct_snapshot (h : a.Sound) (d : DescriptorId) : (a.snapshot d).Distinct := by
  induction d using h.owned_induction with
  | step d ih =>
    have hkeys := Dict.distinctKeys_of_increasing (pairwise_snapshot h d)
    refine .mk hkeys ?_
    intro name facts inner hmem
    have hinner := (ProvisionSnapshot.inner?_eq_some hkeys).2 ⟨facts, hmem⟩
    rw [inner?_snapshot h, Option.map_eq_some_iff] at hinner
    obtain ⟨e, he, rfl⟩ := hinner
    exact ih name e he

theorem snapshot_congr {b : Arena} (h : a.Sound) (h' : b.Sound) (hother : a.otherFacts d = b.otherFacts e)
    (hfacts : ∀ name, a.ownFacts d name = b.ownFacts e name)
    (hinner : ∀ name, (a.ownedBy? d name).map a.snapshot = (b.ownedBy? e name).map b.snapshot)
    : a.snapshot d = b.snapshot e := by
  have hexports : (a.snapshot d).exports = (b.snapshot e).exports := by
    apply Dict.ext_of_increasing (pairwise_snapshot h d) (pairwise_snapshot h' e)
    intro name
    have hnone : a.ownedBy? d name = none ↔ b.ownedBy? e name = none := by
      rw [← Option.map_eq_none_iff, hinner, Option.map_eq_none_iff]
    rw [get?_snapshot h, get?_snapshot h', hother, hfacts, hinner]
    simp only [hnone]
  apply ProvisionSnapshot.ext
  · rw [other_snapshot h, other_snapshot h', hother]
  · exact hexports

end Arena
end ModuleLink
