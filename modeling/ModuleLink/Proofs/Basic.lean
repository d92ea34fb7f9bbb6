import Mathlib.Data.List.Nodup
import ModuleLink.Data.Dict
import ModuleLink.Data.Distinct

/-!
This module contains facts about the data that all other proofs share: fallible steps one after the other,
lists of numbered things, lists without repetitions, and finite maps, where keys are only compared with `==`, which
need not be equality.
-/

namespace ModuleLink

theorem bind_eq_ok {ε : Type u} {α β : Type v} {x : Except ε α} {f : α → Except ε β} {b : β}
    : x >>= f = .ok b ↔ ∃ a, x = .ok a ∧ f a = .ok b := by
  cases x with
  | error e => simp [bind, Except.bind]
  | ok a => simp [bind, Except.bind]

theorem bind_eq_error {ε : Type u} {α β : Type v} {x : Except ε α} {f : α → Except ε β} {e : ε}
    : x >>= f = .error e ↔ x = .error e ∨ ∃ a, x = .ok a ∧ f a = .error e := by
  cases x with
  | error e' => simp [bind, Except.bind]
  | ok a => simp [bind, Except.bind]

theorem foldlM_ok_induction {ε : Type u} {α : Type w} {β : Type v} {f : β → α → Except ε β}
    (motive : β → Prop) {as : List α}
    (hstep : ∀ b b', ∀ a ∈ as, motive b → f b a = .ok b' → motive b')
    : ∀ {b b' : β}, motive b → as.foldlM f b = .ok b' → motive b' := by
  induction as with
  | nil =>
    intro b b' hb h
    cases h
    exact hb
  | cons a as ih =>
    intro b b' hb h
    rw [List.foldlM_cons, bind_eq_ok] at h
    obtain ⟨c, hc, hrest⟩ := h
    refine ih ?_ (hstep b c a List.mem_cons_self hb hc) hrest
    intro b b' a ha
    apply hstep
    exact List.mem_cons_of_mem _ ha

theorem foldlM_ok_forall {ε : Type u} {α : Type w} {β : Type v} {κ : Type x} {f : β → α → Except ε β}
    (key : α → κ) (motive : β → Prop) (done : κ → β → Prop) {as : List α}
    (hstep : ∀ b b', ∀ a ∈ as, motive b → f b a = .ok b' →
      motive b' ∧ done (key a) b' ∧ ∀ k, done k b → done k b')
    {b b' : β} (hb : motive b) (h : as.foldlM f b = .ok b')
    : motive b' ∧ (∀ a ∈ as, done (key a) b') ∧ ∀ k, done k b → done k b' := by
  induction as generalizing b with
  | nil =>
    cases h
    exact ⟨hb, nofun, fun _ => id⟩
  | cons a as ih =>
    rw [List.foldlM_cons, bind_eq_ok] at h
    obtain ⟨c, hc, hrest⟩ := h
    have ⟨hc, hdone, hkept⟩ := hstep b c a List.mem_cons_self hb hc
    have ⟨hb', hall, hkept'⟩ := ih (fun b b' a ha => hstep b b' a (List.mem_cons_of_mem _ ha)) hc hrest
    exact ⟨hb', List.forall_mem_cons.2 ⟨hkept' _ hdone, hall⟩, fun k hk => hkept' k (hkept k hk)⟩

theorem foldlM_eq_error {ε : Type u} {α : Type w} {β : Type v} {f : β → α → Except ε β} (motive : β → Prop)
    {as : List α} (hstep : ∀ b b', ∀ a ∈ as, motive b → f b a = .ok b' → motive b') {b : β} {e : ε} (hb : motive b)
    (h : as.foldlM f b = .error e) : ∃ b', ∃ a ∈ as, motive b' ∧ f b' a = .error e := by
  induction as generalizing b with
  | nil => cases h
  | cons a as ih =>
    rw [List.foldlM_cons, bind_eq_error] at h
    rcases h with ha | ⟨c, hc, hrest⟩
    · exact ⟨b, a, List.mem_cons_self, hb, ha⟩
    · have hkept := hstep b c a List.mem_cons_self hb hc
      obtain ⟨b', a', ha', hb', he⟩ := ih (fun b b' a ha => hstep b b' a (List.mem_cons_of_mem _ ha)) hkept hrest
      exact ⟨b', a', List.mem_cons_of_mem a ha', hb', he⟩

theorem foldl_prefix_induction {α : Type u} {β : Type v} {f : β → α → β} (motive : List α → β → Prop)
    (hstep : ∀ as b a, motive as b → motive (as ++ [a]) (f b a)) {b : β} (hb : motive [] b) (as : List α)
    : motive as (as.foldl f b) := by
  suffices ∀ before b, motive before b → motive (before ++ as) (as.foldl f b) from this [] b hb
  induction as with
  | nil =>
    intro before b hb
    rw [List.append_nil]
    exact hb
  | cons a as ih =>
    intro before b hb
    rw [List.foldl_cons, List.append_cons]
    exact ih (before ++ [a]) (f b a) (hstep before b a hb)

theorem length_le_of_nodup {α : Type u} {index : α → Nat} (hindex : Function.Injective index) {as : List α}
    {n : Nat} (hnodup : as.Nodup) (hlt : ∀ a ∈ as, index a < n) : as.length ≤ n := by
  have hsubset : as.map index ⊆ List.range n := by
    intro i hi
    obtain ⟨a, ha, rfl⟩ := List.mem_map.1 hi
    exact List.mem_range.2 (hlt a ha)
  have hlength := (hnodup.map hindex).length_le_of_subset hsubset
  rw [List.length_map, List.length_range] at hlength
  exact hlength

theorem mapM_eq_some {α : Type u} {β : Type v} {g : α → Option β} {as : List α} {bs : List β} (h : as.mapM g = some bs)
    : (∀ a ∈ as, ∃ b ∈ bs, g a = some b) ∧ ∀ b ∈ bs, ∃ a ∈ as, g a = some b := by
  induction as generalizing bs with
  | nil =>
    cases h
    exact ⟨List.forall_mem_nil _, List.forall_mem_nil _⟩
  | cons a as ih =>
    rw [List.mapM_cons, Option.bind_eq_bind, Option.bind_eq_some_iff] at h
    obtain ⟨b, hb, h⟩ := h
    rw [Option.bind_eq_bind, Option.bind_eq_some_iff] at h
    obtain ⟨bs, hbs, h⟩ := h
    cases h
    have ⟨hall, hback⟩ := ih hbs
    constructor
    · rw [List.forall_mem_cons]
      refine ⟨⟨b, List.mem_cons_self, hb⟩, ?_⟩
      intro a ha
      obtain ⟨b', hb', heq⟩ := hall a ha
      exact ⟨b', List.mem_cons_of_mem b hb', heq⟩
    · rw [List.forall_mem_cons]
      refine ⟨⟨a, List.mem_cons_self, hb⟩, ?_⟩
      intro b hb
      obtain ⟨a', ha', heq⟩ := hback b hb
      exact ⟨a', List.mem_cons_of_mem a ha', heq⟩

theorem mapM_isSome {α : Type u} {β : Type v} {g : α → Option β} {as : List α} (h : ∀ a ∈ as, (g a).isSome)
    : (as.mapM g).isSome := by
  induction as with
  | nil => rfl
  | cons a as ih =>
    have ⟨ha, has⟩ := List.forall_mem_cons.1 h
    obtain ⟨b, hb⟩ := Option.isSome_iff_exists.1 ha
    obtain ⟨bs, hbs⟩ := Option.isSome_iff_exists.1 (ih has)
    rw [List.mapM_cons, hb, hbs]
    rfl

theorem not_rel_of_acc {α : Type u} {R : α → α → Prop} {x : α} (h : Acc R x) : ¬R x x := by
  induction h with
  | intro x _ ih =>
    intro hx
    exact ih x hx hx

theorem mem_addDistinct [DecidableEq α] {as : List α} {a b : α}
    : b ∈ addDistinct as a ↔ b ∈ as ∨ b = a := by
  unfold addDistinct
  split
  · next h =>
    constructor
    · exact .inl
    · rintro (hb | rfl)
      · exact hb
      · exact List.contains_iff_mem.1 h
  · rw [List.mem_append, List.mem_singleton]

theorem nodup_addDistinct [DecidableEq α] {as : List α} (h : as.Nodup) (a : α) : (addDistinct as a).Nodup := by
  unfold addDistinct
  split
  · exact h
  · next hnew =>
    rw [List.contains_iff_mem] at hnew
    exact List.nodup_append.2 ⟨h, by simp, by rintro b hb c hc rfl; exact hnew (List.mem_singleton.1 hc ▸ hb)⟩

theorem mem_addAllDistinct [DecidableEq α] {as bs : List α} {b : α}
    : b ∈ addAllDistinct as bs ↔ b ∈ as ∨ b ∈ bs := by
  unfold addAllDistinct
  induction bs generalizing as with
  | nil => simp
  | cons c bs ih => rw [List.foldl_cons, ih, mem_addDistinct, List.mem_cons, or_assoc]

theorem nodup_addAllDistinct [DecidableEq α] {as : List α} (h : as.Nodup) (bs : List α)
    : (addAllDistinct as bs).Nodup := by
  unfold addAllDistinct
  induction bs generalizing as with
  | nil => exact h
  | cons c bs ih => exact ih (nodup_addDistinct h c)

theorem distinct_of_nodup [DecidableEq α] {as : List α} (h : as.Nodup) : distinct as = as := by
  unfold distinct addAllDistinct
  refine foldl_prefix_induction (fun before result => before.Nodup → result = before) ?_ (fun _ => rfl) as h
  intro before result a ih hnodup
  have ⟨hbefore, _, hnew⟩ := List.nodup_append.1 hnodup
  have ha : ¬ before.contains a = true := by
    rw [List.contains_iff_mem]
    exact fun hmem => hnew a hmem a (List.mem_singleton_self a) rfl
  rw [ih hbefore, addDistinct, if_neg ha]

theorem pairwise_mergeSort_of_nodup {α : Type u} (name : α → String) {as : List α} (h : (as.map name).Nodup)
    : (as.mergeSort fun a b => decide (name a ≤ name b)).Pairwise fun a b => name a < name b := by
  have hsorted : (as.mergeSort fun a b => decide (name a ≤ name b)).Pairwise fun a b => decide (name a ≤ name b) := by
    apply List.pairwise_mergeSort
    · intro a b c hab hbc
      simp only [decide_eq_true_eq] at *
      exact String.le_trans hab hbc
    · intro a b
      simpa using String.le_total (name a) (name b)
  have hdistinct : (as.mergeSort fun a b => decide (name a ≤ name b)).Pairwise fun a b => name a ≠ name b := by
    have hperm := (List.mergeSort_perm as fun a b => decide (name a ≤ name b)).map name
    exact List.pairwise_map.1 (hperm.nodup_iff.2 h)
  refine (hsorted.and hdistinct).imp ?_
  rintro a b ⟨hle, hne⟩
  refine Classical.byContradiction fun hlt => hne ?_
  exact String.le_antisymm (of_decide_eq_true hle) (String.not_lt.1 hlt)

theorem mergeSort_concat {α : Type u} (name : α → String) {as : List α} {a : α} (h : ((as ++ [a]).map name).Nodup)
    : ∃ before after, (as.mergeSort fun a b => decide (name a ≤ name b)) = before ++ after ∧
        ((as ++ [a]).mergeSort fun a b => decide (name a ≤ name b)) = before ++ a :: after := by
  have hmem : a ∈ (as ++ [a]).mergeSort fun a b => decide (name a ≤ name b) := by
    rw [List.mem_mergeSort]
    exact List.mem_append_right as (List.mem_singleton_self a)
  obtain ⟨before, after, heq⟩ := List.append_of_mem hmem
  refine ⟨before, after, ?_, heq⟩
  have hperm : (as.mergeSort fun a b => decide (name a ≤ name b)).Perm (before ++ after) := by
    have hall := (List.mergeSort_perm (as ++ [a]) fun a b => decide (name a ≤ name b)).trans
      (List.perm_append_singleton a as)
    rw [heq] at hall
    exact (List.mergeSort_perm as _).trans (List.perm_middle.symm.trans hall).cons_inv.symm
  have hsorted := pairwise_mergeSort_of_nodup name h
  rw [heq] at hsorted
  rw [List.map_append, List.nodup_append] at h
  refine hperm.eq_of_pairwise ?_ (pairwise_mergeSort_of_nodup name h.1) (hsorted.sublist ?_)
  · intro b c _ _ hbc hcb
    exact absurd hcb (String.lt_asymm hbc)
  · exact (List.Sublist.refl before).append (List.sublist_cons_self a after)

theorem contains_congr [BEq α] [PartialEquivBEq α] {a b : α} (h : a == b) (as : List α)
    : as.contains a = as.contains b := by
  induction as with
  | nil => rfl
  | cons c cs ih => rw [List.contains_cons, List.contains_cons, ih, BEq.congr_left h]

theorem prod_beq [BEq α] [BEq β] (a a' : α) (b b' : β)
    : ((a, b) == (a', b')) = (a == a' && b == b') := rfl

instance equivBEqProd [BEq α] [BEq β] [EquivBEq α] [EquivBEq β] : EquivBEq (α × β) where
  rfl := by
    intro a
    rw [prod_beq, BEq.rfl, BEq.rfl]
    rfl
  symm := by
    intro a b h
    rw [prod_beq, Bool.and_eq_true] at *
    exact ⟨BEq.symm h.1, BEq.symm h.2⟩
  trans := by
    intro a b c h h'
    rw [prod_beq, Bool.and_eq_true] at *
    exact ⟨BEq.trans h.1 h'.1, BEq.trans h.2 h'.2⟩

namespace Dict

variable {α : Type u} {β : Type v} [BEq α]

@[simp]
theorem get?_empty (k : α) : (empty : Dict α β).get? k = none := rfl

theorem get?.go_congr [PartialEquivBEq α] {k k' : α} (h : k == k') (es : List (α × β))
    : get?.go k es = get?.go k' es := by
  induction es with
  | nil => rfl
  | cons e es ih =>
    unfold get?.go
    rw [BEq.congr_right h, ih]

theorem get?_congr [PartialEquivBEq α] {k k' : α} (h : k == k') (d : Dict α β)
    : d.get? k = d.get? k' := by
  unfold get?
  apply get?.go_congr h

theorem insert.go_get? [PartialEquivBEq α] (k k' : α) (v : β) (es : List (α × β))
    : get?.go k' (insert.go k v es) = if k == k' then some v else get?.go k' es := by
  induction es with
  | nil => rfl
  | cons e es ih =>
    unfold insert.go
    split
    next heq =>
      simp only [get?.go]
      rw [BEq.congr_left heq]
      split
      · rfl
      · rfl
    next hne =>
      simp only [get?.go, ih]
      by_cases hk : k == k'
      · rw [BEq.congr_right (BEq.symm hk)]
        simp [hk, hne]
      · simp [hk]

theorem get?_insert [PartialEquivBEq α] (d : Dict α β) (k k' : α) (v : β)
    : (d.insert k v).get? k' = if k == k' then some v else d.get? k' := by
  unfold get? insert
  apply insert.go_get?

theorem modify.go_get? [PartialEquivBEq α] (k k' : α) (f : β → β) (es : List (α × β))
    : get?.go k' (modify.go k f es)
        =
      if k == k' then (get?.go k' es).map f else get?.go k' es := by
  induction es with
  | nil => simp [modify.go, get?.go]
  | cons e es ih =>
    unfold modify.go
    split
    next heq =>
      simp only [get?.go]
      rw [BEq.congr_left heq]
      split
      · rfl
      · rfl
    next hne =>
      simp only [get?.go, ih]
      by_cases hk : k == k'
      · rw [BEq.congr_right (BEq.symm hk)]
        simp [hk, hne]
      · simp [hk]

theorem get?_modify [PartialEquivBEq α] (d : Dict α β) (k k' : α) (f : β → β)
    : (d.modify k f).get? k' = if k == k' then (d.get? k').map f else d.get? k' := by
  unfold get? modify
  apply modify.go_get?

theorem mem_values_of_get? {d : Dict α β} {k : α} {v : β} (h : d.get? k = some v) : v ∈ d.values := by
  obtain ⟨es⟩ := d
  change get?.go k es = some v at h
  change v ∈ es.map Prod.snd
  induction es with
  | nil => simp [get?.go] at h
  | cons e es ih =>
    unfold get?.go at h
    split at h
    · simp_all
    · exact List.mem_cons_of_mem _ (ih h)

theorem insert.go_subset (k : α) (v : β) (es : List (α × β))
    : ∀ x ∈ (insert.go k v es).map Prod.snd, x = v ∨ x ∈ es.map Prod.snd := by
  induction es with
  | nil => simp [insert.go]
  | cons e es ih =>
    intro x hx
    unfold insert.go at hx
    split at hx
    · rcases List.mem_cons.1 hx with rfl | hx
      · exact Or.inl rfl
      · exact Or.inr (List.mem_cons_of_mem _ hx)
    · rcases List.mem_cons.1 hx with rfl | hx
      · exact Or.inr List.mem_cons_self
      · cases ih x hx with
        | inl heq => exact Or.inl heq
        | inr hold => exact Or.inr (List.mem_cons_of_mem _ hold)

theorem mem_values_insert {d : Dict α β} {k : α} {v x : β} (h : x ∈ (d.insert k v).values)
    : x = v ∨ x ∈ d.values :=
  insert.go_subset k v d.entries x h

/--
A new value keeps the values without repetition; it may take the place of an old one.
-/
theorem nodup_values_insert {d : Dict α β} {k : α} {v : β} (hd : d.values.Nodup) (hv : v ∉ d.values)
    : (d.insert k v).values.Nodup := by
  obtain ⟨es⟩ := d
  change (es.map Prod.snd).Nodup at hd
  change v ∉ es.map Prod.snd at hv
  change ((insert.go k v es).map Prod.snd).Nodup
  induction es with
  | nil => simp [insert.go]
  | cons e es ih =>
    simp only [List.map_cons, List.nodup_cons, List.mem_cons, not_or] at hd hv
    unfold insert.go
    split
    · exact List.nodup_cons.2 ⟨hv.2, hd.2⟩
    · refine List.nodup_cons.2 ⟨?_, ih hd.2 hv.2⟩
      intro hmem
      cases insert.go_subset k v es _ hmem with
      | inl heq => exact hv.1 heq.symm
      | inr hold => exact hd.1 hold

def DistinctKeys (d : Dict α β) : Prop := d.keys.Pairwise fun k k' => (k == k') = false

theorem distinctKeys_empty : (empty : Dict α β).DistinctKeys := List.Pairwise.nil

theorem insert.go_keys (k : α) (v : β) (es : List (α × β))
    : (insert.go k v es).map Prod.fst = es.map Prod.fst
        ∨
      (insert.go k v es).map Prod.fst = es.map Prod.fst ++ [k] ∧ ∀ e ∈ es, (e.1 == k) = false := by
  induction es with
  | nil => exact Or.inr ⟨rfl, by simp⟩
  | cons e es ih =>
    unfold insert.go
    split
    · exact Or.inl rfl
    next hne =>
      cases ih with
      | inl hsame => exact Or.inl (by simp [hsame])
      | inr hnew =>
        refine Or.inr ⟨by simp [hnew.1], ?_⟩
        intro x hx
        rcases List.mem_cons.1 hx with rfl | hx
        · simpa using hne
        · exact hnew.2 x hx

theorem DistinctKeys.insert {d : Dict α β} (h : d.DistinctKeys) (k : α) (v : β)
    : (d.insert k v).DistinctKeys := by
  unfold DistinctKeys keys Dict.insert at *
  cases insert.go_keys k v d.entries with
  | inl hsame => rw [hsame]; exact h
  | inr hnew =>
    rw [hnew.1, List.pairwise_append]
    refine ⟨h, by simp, ?_⟩
    intro a ha b hb
    obtain ⟨e, he, rfl⟩ := List.mem_map.1 ha
    rw [List.mem_singleton.1 hb]
    exact hnew.2 e he

theorem DistinctKeys.foldl_insert {d : Dict α β} (h : d.DistinctKeys) (pairs : List (α × β))
    : (pairs.foldl (fun d p => d.insert p.1 p.2) d).DistinctKeys := by
  induction pairs generalizing d with
  | nil => exact h
  | cons p pairs ih => exact ih (h.insert p.1 p.2)

theorem distinctKeys_ofList (pairs : List (α × β)) : (ofList pairs).DistinctKeys :=
  distinctKeys_empty.foldl_insert pairs

theorem forall_entries_insert {P : α → Prop} {Q : β → Prop} {d : Dict α β} (h : ∀ e ∈ d.entries, P e.1 ∧ Q e.2)
    {k : α} {v : β} (hk : P k) (hv : Q v) : ∀ e ∈ (d.insert k v).entries, P e.1 ∧ Q e.2 := by
  intro e he
  have hold {x : α} (hx : x ∈ d.entries.map Prod.fst) : P x := by
    obtain ⟨e, he, rfl⟩ := List.mem_map.1 hx
    exact (h e he).1
  refine ⟨?_, ?_⟩
  · have hkey : e.1 ∈ (insert.go k v d.entries).map Prod.fst := List.mem_map_of_mem he
    rcases insert.go_keys k v d.entries with hsame | ⟨hnew, -⟩
    · rw [hsame] at hkey
      exact hold hkey
    · rw [hnew, List.mem_append, List.mem_singleton] at hkey
      rcases hkey with hkey | heq
      · exact hold hkey
      · rw [heq]
        exact hk
  · rcases mem_values_insert (List.mem_map_of_mem (f := Prod.snd) he) with heq | hvalue
    · rw [heq]
      exact hv
    · obtain ⟨e', he', heq⟩ := List.mem_map.1 hvalue
      rw [← heq]
      exact (h e' he').2

theorem forall_entries_ofList {P : α → Prop} {Q : β → Prop} {pairs : List (α × β)} (h : ∀ p ∈ pairs, P p.1 ∧ Q p.2)
    : ∀ e ∈ (ofList pairs).entries, P e.1 ∧ Q e.2 := by
  refine List.foldlRecOn pairs _ (motive := fun d : Dict α β => ∀ e ∈ d.entries, P e.1 ∧ Q e.2) nofun ?_
  intro d hd p hp
  exact forall_entries_insert hd (h p hp).1 (h p hp).2

theorem modify.go_keys (k : α) (f : β → β) (es : List (α × β)) : (modify.go k f es).map Prod.fst = es.map Prod.fst := by
  induction es with
  | nil => rfl
  | cons e es ih =>
    unfold modify.go
    split
    · rfl
    · rw [List.map_cons, List.map_cons, ih]

theorem DistinctKeys.modify {d : Dict α β} (h : d.DistinctKeys) (k : α) (f : β → β) : (d.modify k f).DistinctKeys := by
  unfold DistinctKeys keys Dict.modify
  rw [modify.go_keys]
  exact h

theorem DistinctKeys.mapValues {γ : Type w} {d : Dict α β} (h : d.DistinctKeys) (f : α → β → γ)
    : (d.mapValues f).DistinctKeys := by
  unfold DistinctKeys keys Dict.mapValues
  rw [List.map_map]
  exact h

theorem get?.go_map {γ : Type w} {f : α → β → γ} {f' : β → γ} {k : α} (hf : ∀ k' v, k' == k → f k' v = f' v)
    (es : List (α × β)) : get?.go k (es.map fun e => (e.1, f e.1 e.2)) = (get?.go k es).map f' := by
  induction es with
  | nil => rfl
  | cons e es ih =>
    simp only [List.map_cons, get?.go]
    split
    · next hk => exact congrArg some (hf e.1 e.2 hk)
    · apply ih

theorem get?_mapValues_of_key {γ : Type w} (d : Dict α β) {f : α → β → γ} {f' : β → γ} {k : α}
    (hf : ∀ k' v, k' == k → f k' v = f' v) : (d.mapValues f).get? k = (d.get? k).map f' :=
  get?.go_map hf d.entries

theorem get?_mapValues {γ : Type w} (d : Dict α β) (f : β → γ) (k : α)
    : (d.mapValues fun _ v => f v).get? k = (d.get? k).map f := d.get?_mapValues_of_key fun _ _ _ => rfl

theorem insert.go_of_new {k : α} {v : β} {es : List (α × β)} (h : ∀ e ∈ es, (e.1 == k) = false)
    : insert.go k v es = es ++ [(k, v)] := by
  induction es with
  | nil => rfl
  | cons e es ih =>
    have ⟨hfirst, hrest⟩ := List.forall_mem_cons.1 h
    rw [insert.go, hfirst, List.cons_append, ← ih hrest]
    rfl

theorem entries_insert_of_new {d : Dict α β} {k : α} (h : d.get? k = none) (v : β)
    : (d.insert k v).entries = d.entries ++ [(k, v)] := by
  obtain ⟨es⟩ := d
  change get?.go k es = none at h
  change insert.go k v es = es ++ [(k, v)]
  induction es with
  | nil => rfl
  | cons e es ih =>
    unfold get?.go at h
    unfold insert.go
    split at h
    · cases h
    next hne =>
      rw [if_neg hne, ih h]
      rfl

theorem ofList_entries {d : Dict α β} (h : d.DistinctKeys) : ofList d.entries = d := by
  suffices ∀ before result : List (α × β),
      d = ⟨before ++ result⟩ → result.foldl (fun d p => d.insert p.1 p.2) ⟨before⟩ = d from this [] d.entries rfl
  intro before result hd
  induction result generalizing before with
  | nil => rw [hd, List.append_nil]; rfl
  | cons e es ih =>
    have hnew : ∀ x ∈ before, (x.1 == e.1) = false := by
      intro x hx
      subst hd
      unfold DistinctKeys keys at h
      rw [List.map_append, List.pairwise_append] at h
      exact h.2.2 x.1 (List.mem_map_of_mem hx) e.1 (List.mem_map_of_mem List.mem_cons_self)
    rw [List.foldl_cons, Dict.insert, insert.go_of_new hnew]
    apply ih
    rw [hd, List.append_assoc]
    rfl

theorem erase.go_sublist (k : α) (es : List (α × β)) : (erase.go k es).Sublist es := by
  induction es with
  | nil => exact List.Sublist.slnil
  | cons e es ih =>
    unfold erase.go
    split
    · exact List.sublist_cons_self _ _
    · exact ih.cons_cons _

theorem DistinctKeys.erase {d : Dict α β} (h : d.DistinctKeys) (k : α) : (d.erase k).DistinctKeys :=
  List.Pairwise.sublist ((erase.go_sublist k d.entries).map Prod.fst) h

theorem get?.go_eq_none {k : α} {es : List (α × β)} (h : ∀ e ∈ es, (e.1 == k) = false)
    : get?.go k es = none := by
  induction es with
  | nil => rfl
  | cons e es ih =>
    unfold get?.go
    rw [h e List.mem_cons_self]
    exact ih fun x hx => h x (List.mem_cons_of_mem _ hx)

theorem erase.go_get? [PartialEquivBEq α] (k k' : α) {es : List (α × β)}
    (h : (es.map Prod.fst).Pairwise fun k k' => (k == k') = false)
    : get?.go k' (erase.go k es) = if k == k' then none else get?.go k' es := by
  induction es with
  | nil => simp [erase.go, get?.go]
  | cons e es ih =>
    have ⟨hfirst, hrest⟩ := List.pairwise_cons.1 h
    unfold erase.go
    split
    next heq =>
      by_cases hk : k == k'
      · rw [if_pos hk]
        apply get?.go_eq_none
        intro x hx
        rw [← BEq.congr_right hk, ← BEq.congr_right heq, BEq.comm]
        exact hfirst _ (List.mem_map_of_mem hx)
      · simp only [get?.go]
        rw [BEq.congr_left heq]
        simp [hk]
    next hne =>
      simp only [get?.go, ih hrest]
      by_cases hk : k == k'
      · rw [BEq.congr_right (BEq.symm hk)]
        simp [hk, hne]
      · simp [hk]

/--
Only one entry is removed, so that nothing is left only where all keys are different.
-/
theorem get?_erase [PartialEquivBEq α] {d : Dict α β} (h : d.DistinctKeys) (k k' : α)
    : (d.erase k).get? k' = if k == k' then none else d.get? k' := by
  unfold get? erase
  apply erase.go_get? k k' h

theorem mem_entries_of_get? {d : Dict α β} {k : α} {v : β} (h : d.get? k = some v)
    : ∃ k', k' == k ∧ (k', v) ∈ d.entries := by
  obtain ⟨es⟩ := d
  change get?.go k es = some v at h
  induction es with
  | nil => cases h
  | cons e es ih =>
    unfold get?.go at h
    split at h
    next hk =>
      cases h
      exact ⟨e.1, hk, List.mem_cons_self⟩
    · obtain ⟨k', hk', hmem⟩ := ih h
      exact ⟨k', hk', List.mem_cons_of_mem e hmem⟩

theorem get?_of_mem_entries [EquivBEq α] {d : Dict α β} (h : d.DistinctKeys) {k : α} {v : β}
    (hmem : (k, v) ∈ d.entries) : d.get? k = some v := by
  obtain ⟨es⟩ := d
  change (es.map Prod.fst).Pairwise _ at h
  change get?.go k es = some v
  induction es with
  | nil => cases hmem
  | cons e es ih =>
    have ⟨hfirst, hrest⟩ := List.pairwise_cons.1 h
    unfold get?.go
    rcases List.mem_cons.1 hmem with rfl | hmem
    · rw [if_pos BEq.rfl]
    · have hne : (e.1 == k) = false := hfirst k (List.mem_map_of_mem hmem)
      rw [hne]
      exact ih hmem hrest

theorem modify.go_eq_map [PartialEquivBEq α] (k : α) (f : β → β) {es : List (α × β)}
    (h : (es.map Prod.fst).Pairwise fun k k' => (k == k') = false)
    : modify.go k f es = es.map fun e => (e.1, if e.1 == k then f e.2 else e.2) := by
  induction es with
  | nil => rfl
  | cons e es ih =>
    have ⟨hfirst, hrest⟩ := List.pairwise_cons.1 h
    unfold modify.go
    split
    next hk =>
      -- The keys of the other entries are different from that of the first.
      have hothers : es.map (fun e => (e.1, if e.1 == k then f e.2 else e.2)) = es := by
        refine (List.map_congr_left ?_).trans (List.map_id es)
        intro e' he'
        have hne : (e'.1 == k) = false := by
          refine Bool.eq_false_iff.2 fun hk' => ?_
          have hdistinct := hfirst e'.1 (List.mem_map_of_mem he')
          rw [BEq.trans hk (BEq.symm hk')] at hdistinct
          cases hdistinct
        rw [hne]
        rfl
      rw [List.map_cons, hothers, if_pos hk]
    next hk => rw [List.map_cons, if_neg hk, ih hrest]

theorem modify_eq_mapValues [PartialEquivBEq α] {d : Dict α β} (h : d.DistinctKeys) (k : α) (f : β → β)
    : d.modify k f = d.mapValues fun k' v => if k' == k then f v else v :=
  congrArg Dict.mk (modify.go_eq_map k f h)

omit [BEq α] in
theorem mapValues_mapValues {γ : Type w} {δ : Type x} (d : Dict α β) (f : α → β → γ) (f' : α → γ → δ)
    : (d.mapValues f).mapValues f' = d.mapValues fun k v => f' k (f k v) := by
  unfold mapValues
  rw [List.map_map]
  rfl

theorem mapValues_congr {γ : Type w} [EquivBEq α] {d : Dict α β} (h : d.DistinctKeys) {f f' : α → β → γ}
    (hf : ∀ k v, d.get? k = some v → f k v = f' k v) : d.mapValues f = d.mapValues f' := by
  refine congrArg Dict.mk (List.map_congr_left ?_)
  intro e he
  exact congrArg (Prod.mk e.1) (hf e.1 e.2 (get?_of_mem_entries h he))

theorem DistinctKeys.perm [PartialEquivBEq α] {d d' : Dict α β} (h : d.DistinctKeys) (hperm : d'.entries.Perm d.entries)
    : d'.DistinctKeys := by
  refine (List.Perm.pairwise_iff ?_ (hperm.map Prod.fst)).2 h
  intro k k' hne
  rw [BEq.comm]
  exact hne

theorem get?_perm [EquivBEq α] {d d' : Dict α β} (h : d.DistinctKeys) (hperm : d'.entries.Perm d.entries) (k : α)
    : d'.get? k = d.get? k := by
  cases hk : d.get? k with
  | some v =>
    obtain ⟨k', hk', hmem⟩ := mem_entries_of_get? hk
    rw [← get?_congr hk']
    exact get?_of_mem_entries (h.perm hperm) (hperm.mem_iff.2 hmem)
  | none =>
    cases hk' : d'.get? k with
    | none => rfl
    | some v =>
      obtain ⟨k', hk', hmem⟩ := mem_entries_of_get? hk'
      rw [← get?_congr hk', get?_of_mem_entries h (hperm.mem_iff.1 hmem)] at hk
      cases hk

theorem mem_keys_of_get? {d : Dict α β} {k : α} {v : β} (h : d.get? k = some v) : ∃ k' ∈ d.keys, k' == k := by
  obtain ⟨k', hk', hmem⟩ := mem_entries_of_get? h
  exact ⟨k', List.mem_map_of_mem hmem, hk'⟩

theorem get?_of_mem_keys [EquivBEq α] {d : Dict α β} (h : d.DistinctKeys) {k : α} (hk : k ∈ d.keys)
    : ∃ v, d.get? k = some v := by
  obtain ⟨⟨k, v⟩, hmem, rfl⟩ := List.mem_map.1 hk
  exact ⟨v, get?_of_mem_entries h hmem⟩

theorem size_erase {d : Dict α β} {k : α} {v : β} (h : d.get? k = some v) : (d.erase k).size + 1 = d.size := by
  obtain ⟨es⟩ := d
  change get?.go k es = some v at h
  change (erase.go k es).length + 1 = es.length
  induction es with
  | nil => cases h
  | cons e es ih =>
    unfold get?.go at h
    unfold erase.go
    split at h
    next hk => rw [if_pos hk, List.length_cons]
    next hk =>
      rw [if_neg hk, List.length_cons, List.length_cons, ih h]

theorem get?_foldl_insert [PartialEquivBEq α] (pairs : List (α × β)) (d : Dict α β) (k : α)
    : (pairs.foldl (fun d p => d.insert p.1 p.2) d).get? k
        = ((pairs.reverse.find? (·.1 == k)).map Prod.snd).or (d.get? k) := by
  induction pairs generalizing d with
  | nil => rfl
  | cons p pairs ih =>
    rw [List.foldl_cons, ih, get?_insert, List.reverse_cons, List.find?_append, Option.map_or]
    rw [Option.or_assoc]
    congr 1
    cases hk : p.1 == k <;> simp [hk]

theorem get?_ofList [PartialEquivBEq α] (pairs : List (α × β)) (k : α)
    : (ofList pairs).get? k = (pairs.reverse.find? (·.1 == k)).map Prod.snd := by
  have hfold := get?_foldl_insert pairs empty k
  rwa [get?_empty, Option.or_none] at hfold

end Dict
end ModuleLink
