import Mathlib.Data.List.Sort
import ModuleLink.Proofs.Exports.Ownership

/-!
This module contains the proof of which side-effects records have a say in the summary of the consumed exports. If
nothing is consumed, the record of the descriptor itself is to decide, but a summary that is not known is passed on:
a redirect where nothing is consumed, and which is not known to be kept for side effects or not, settles the matter for
all descriptors that are redirected to it.
-/

namespace ModuleLink
namespace Arena

variable {a b : Arena} {d e : DescriptorId}

structure SameBeside (a b : Arena) (d : DescriptorId) : Prop where
  descriptors : b.descriptors = a.descriptors
  records : ∀ r, b.record r = a.record r ∨
    ∃ e ≠ d, e.index < a.descriptors.size ∧ r = (a.descriptor e).sideEffects ∧
      ∃ u, b.record r = { a.record r with used := u }

def sideUsage (a : Arena) (d : DescriptorId) : Usage := (a.record (a.descriptor d).sideEffects).used

def emptyAnswer (a : Arena) (d : DescriptorId) : UsedExports :=
  match a.sideUsage d with
  | .noInfo => .unknown
  | .unused => .never
  | .unknown | .propertiesUsed | .used => .names []

def Quiet (a : Arena) (d : DescriptorId) : Prop := ∀ r ∈ a.scope d, (a.record r).used = .unused

/--
Whether they are consumed is known of all exports along the redirects; what is not listed is not consumed.
-/
structure Known (a : Arena) (d : DescriptorId) : Prop where
  listed : ∀ e ∈ a.chain d, ∀ r ∈ a.locals e, (a.record r).used ≠ .noInfo ∧ (a.record r).used ≠ .unknown
  other : (a.record (a.other d)).used = .unused

/--
Nothing is consumed from some redirect on, and that it is kept for side effects is not known of this redirect.
-/
def Leaks (a : Arena) (d : DescriptorId) : Prop :=
  ∃ e ∈ (a.chain d).tail, a.Quiet e ∧ a.sideUsage e = .noInfo

instance decidableQuiet (a : Arena) (d : DescriptorId) : Decidable (a.Quiet d) :=
  inferInstanceAs (Decidable (∀ r ∈ a.scope d, (a.record r).used = .unused))

instance decidableLeaks (a : Arena) (d : DescriptorId) : Decidable (a.Leaks d) :=
  inferInstanceAs (Decidable (∃ e ∈ (a.chain d).tail, a.Quiet e ∧ a.sideUsage e = .noInfo))

theorem emptyAnswer_eq_unknown : a.emptyAnswer d = .unknown ↔ a.sideUsage d = .noInfo := by
  unfold emptyAnswer
  cases a.sideUsage d <;> simp

section Chain

theorem quiet_last (h : a.chain d = [d])
    : a.Quiet d
        ↔
      (∀ r ∈ a.locals d, (a.record r).used = .unused) ∧ (a.record (a.descriptor d).other).used = .unused := by
  rw [Quiet, scope_last h, List.forall_mem_append, List.forall_mem_singleton]

theorem quiet_next (h : a.chain d = d :: a.chain e)
    : a.Quiet d ↔ (∀ r ∈ a.locals d, (a.record r).used = .unused) ∧ a.Quiet e := by
  rw [Quiet, scope_next h, List.forall_mem_append]
  rfl

theorem known_last (h : a.chain d = [d])
    : a.Known d
        ↔
      (∀ r ∈ a.locals d, (a.record r).used ≠ .noInfo ∧ (a.record r).used ≠ .unknown) ∧
        (a.record (a.descriptor d).other).used = .unused := by
  have hother : a.other d = (a.descriptor d).other := by
    rw [other, chainEnd_last h]
  constructor
  · rintro ⟨hlisted, hunused⟩
    rw [h, List.forall_mem_singleton] at hlisted
    rw [hother] at hunused
    exact ⟨hlisted, hunused⟩
  · rintro ⟨hlisted, hunused⟩
    constructor
    · rwa [h, List.forall_mem_singleton]
    · rwa [hother]

theorem known_next (h : a.chain d = d :: a.chain e)
    : a.Known d
        ↔
      (∀ r ∈ a.locals d, (a.record r).used ≠ .noInfo ∧ (a.record r).used ≠ .unknown) ∧ a.Known e := by
  have hother : a.other d = a.other e := by
    rw [other, other, chainEnd_next h]
  constructor
  · rintro ⟨hlisted, hunused⟩
    rw [h, List.forall_mem_cons] at hlisted
    rw [hother] at hunused
    exact ⟨hlisted.1, hlisted.2, hunused⟩
  · rintro ⟨hlisted, hknown⟩
    constructor
    · rw [h, List.forall_mem_cons]
      exact ⟨hlisted, hknown.listed⟩
    · rw [hother]
      exact hknown.other

theorem not_leaks_last (h : a.chain d = [d]) : ¬ a.Leaks d := by
  rintro ⟨e, he, -⟩
  rw [h] at he
  cases he

theorem leaks_next (h : a.chain d = d :: a.chain e)
    : a.Leaks d ↔ (a.Quiet e ∧ a.sideUsage e = .noInfo) ∨ a.Leaks e := by
  obtain ⟨ds, hds⟩ := a.chain_eq_cons e
  rw [Leaks, Leaks, h, List.tail_cons, hds, List.tail_cons, List.exists_mem_cons_iff]

end Chain

section Scan

variable {rs : List ExportRecord}

theorem scanUsed_eq_nil : scanUsed rs = .ok [] ↔ ∀ r ∈ rs, r.used = .unused := by
  induction rs with
  | nil => simp [scanUsed]
  | cons r rs ih =>
    rw [List.forall_mem_cons, ← ih]
    constructor
    · intro hscan
      rcases scanUsed_cons_eq_ok hscan with hrest | ⟨-, ns, -, hnames⟩
      · exact hrest
      · cases hnames
    · rintro ⟨hunused, hscan⟩
      simp [scanUsed, hunused, hscan]

theorem exists_scanUsed : (∃ names, scanUsed rs = .ok names) ↔ ∀ r ∈ rs, r.used ≠ .noInfo ∧ r.used ≠ .unknown := by
  constructor
  · rintro ⟨names, hscan⟩
    induction rs generalizing names with
    | nil => exact List.forall_mem_nil _
    | cons r rs ih =>
      rw [List.forall_mem_cons]
      rcases scanUsed_cons_eq_ok hscan with ⟨hunused, hrs⟩ | ⟨hused | hused, ns, hrs, -⟩
      · exact ⟨by simp [hunused], ih _ hrs⟩
      · exact ⟨by simp [hused], ih _ hrs⟩
      · exact ⟨by simp [hused], ih _ hrs⟩
  · intro hknown
    cases hscan : scanUsed rs with
    | ok names => exact ⟨names, rfl⟩
    | error answer =>
      obtain ⟨r, hr, ⟨-, hused⟩ | ⟨-, hused⟩⟩ := scanUsed_eq_error hscan
      · exact absurd hused (hknown r hr).1
      · exact absurd hused (hknown r hr).2

theorem scanOtherUsed_of_unused {r : ExportRecord} (h : r.used = .unused) : scanOtherUsed r = .ok () := by
  rw [scanOtherUsed, h]

end Scan

/--
The names of the consumed exports that `d` itself lists, unless one of these settles the answer.
-/
def ownNames (a : Arena) (d : DescriptorId) : Except UsedExports (List String) :=
  scanUsed ((a.orderedLocals d).map a.record)

theorem ownNames_eq_nil : a.ownNames d = .ok [] ↔ ∀ r ∈ a.locals d, (a.record r).used = .unused := by
  simp only [ownNames, scanUsed_eq_nil, List.forall_mem_map, mem_orderedLocals]

theorem exists_ownNames
    : (∃ ns, a.ownNames d = .ok ns)
        ↔
      ∀ r ∈ a.locals d, (a.record r).used ≠ .noInfo ∧ (a.record r).used ≠ .unknown := by
  simp only [ownNames, exists_scanUsed, List.forall_mem_map, mem_orderedLocals]

/--
The names of the exports that are consumed along the redirects, unless a record settles the answer. Unlike in the
summary, the redirects have nothing to say but what their exports are.
-/
def consumedNamesStep (a : Arena) (d : DescriptorId) :
    Option (Except UsedExports (List String)) → Except UsedExports (List String)
  | none => a.usedNames d none
  | some inner => do
    let own ← a.ownNames d
    return own ++ (← inner)

def consumedNames (a : Arena) (d : DescriptorId) : Except UsedExports (List String) := a.descend a.consumedNamesStep d

def answer (a : Arena) (d : DescriptorId) : List String → UsedExports
  | [] => a.emptyAnswer d
  | n :: ns => .names (increasing (n :: ns))

section Step

variable {own ns ms : List String} {s inner : UsedExports} {x : Option UsedExports}

theorem usedNames_none_of_unused (h : (a.record (a.descriptor d).other).used = .unused)
    : a.usedNames d none = a.ownNames d := by
  rw [usedNames, scanOtherUsed_of_unused h, ← ownNames]
  cases a.ownNames d with
  | error s => rfl
  | ok own => rfl

theorem usedNames_none_eq_ok
    : a.usedNames d none = .ok ns ↔ a.ownNames d = .ok ns ∧ (a.record (a.descriptor d).other).used = .unused := by
  constructor
  · intro hd
    have hother : (a.record (a.descriptor d).other).used = .unused := by
      cases hscan : scanOtherUsed (a.record (a.descriptor d).other) with
      | ok _ => exact scanOtherUsed_eq_ok hscan
      | error s =>
        rw [usedNames, hscan] at hd
        cases hd
    rw [usedNames_none_of_unused hother] at hd
    exact ⟨hd, hother⟩
  · rintro ⟨hown, hother⟩
    rwa [usedNames_none_of_unused hother]

theorem settles_of_ownNames (h : a.ownNames d = .error s) : s = .unknown ∨ s = .everything := by
  obtain ⟨r, -, hstop⟩ := scanUsed_eq_error h
  exact hstop.imp (·.1) (·.1)

theorem settles_of_usedNames_none (h : a.usedNames d none = .error s) : s = .unknown ∨ s = .everything := by
  cases hscan : scanOtherUsed (a.record (a.descriptor d).other) with
  | error s' =>
    rw [usedNames, hscan] at h
    cases h
    exact (scanOtherUsed_eq_error hscan).imp (·.1) (·.1)
  | ok _ =>
    rw [usedNames_none_of_unused (scanOtherUsed_eq_ok hscan)] at h
    exact settles_of_ownNames h

theorem usedNames_of_error (h : a.ownNames d = .error s) : a.usedNames d (some inner) = .error s := by
  rw [ownNames] at h
  rw [usedNames, h]
  rfl

theorem usedNames_of_settles (h : a.ownNames d = .ok own) (hs : s = .unknown ∨ s = .everything)
    : a.usedNames d (some s) = .error s := by
  rw [ownNames] at h
  rcases hs with rfl | rfl
  · rw [usedNames, h]
    rfl
  · rw [usedNames, h]
    rfl

theorem usedExportsStep_of_error (h : a.usedNames d x = .error s) : a.usedExportsStep d x = s := by
  rw [usedExportsStep, h]

theorem usedExportsStep_of_ok (h : a.usedNames d x = .ok ns) : a.usedExportsStep d x = a.answer d ns := by
  rw [usedExportsStep, h]
  cases ns with
  | nil => rfl
  | cons n ns => rfl

theorem answer_congr (h : ∀ n, n ∈ ns ↔ n ∈ ms) : a.answer d ns = a.answer d ms := by
  cases ns with
  | nil =>
    cases ms with
    | nil => rfl
    | cons m ms => exact absurd ((h m).2 List.mem_cons_self) List.not_mem_nil
  | cons n ns =>
    cases ms with
    | nil => exact absurd ((h n).1 List.mem_cons_self) List.not_mem_nil
    | cons m ms =>
      refine congrArg UsedExports.names ((pairwise_increasing _).eq_of_mem_iff (pairwise_increasing _) fun name => ?_)
      rw [mem_increasing, mem_increasing, h]

theorem answer_eq_unknown : a.answer d ns = .unknown ↔ ns = [] ∧ a.sideUsage d = .noInfo := by
  cases ns with
  | nil => simp [answer, emptyAnswer_eq_unknown]
  | cons n ns => simp [answer]

theorem usedNames_answer (h : a.ownNames d = .ok own) (hanswer : a.answer e ns ≠ .unknown)
    : ∃ ms, a.usedNames d (some (a.answer e ns)) = .ok ms ∧ ∀ n, n ∈ ms ↔ n ∈ own ++ ns := by
  rw [ownNames] at h
  cases ns with
  | nil =>
    refine ⟨own, ?_, fun n => by rw [List.append_nil]⟩
    rw [usedNames, h, answer, emptyAnswer]
    rw [answer, emptyAnswer] at hanswer
    cases hside : a.sideUsage e with
    | noInfo =>
      rw [hside] at hanswer
      exact absurd rfl hanswer
    | unused => rfl
    | unknown => exact congrArg Except.ok (List.append_nil own)
    | propertiesUsed => exact congrArg Except.ok (List.append_nil own)
    | used => exact congrArg Except.ok (List.append_nil own)
  | cons n ns =>
    refine ⟨own ++ increasing (n :: ns), ?_, fun m => ?_⟩
    · rw [usedNames, h]
      rfl
    · rw [List.mem_append, List.mem_append, mem_increasing]

end Step

section ConsumedNames

variable {own ns : List String} {s : UsedExports}

theorem consumedNames_last (h : a.chain d = [d]) : a.consumedNames d = a.usedNames d none := by
  rw [consumedNames, descend_last _ h]
  rfl

theorem consumedNames_of_error (h : a.chain d = d :: a.chain e) (hown : a.ownNames d = .error s)
    : a.consumedNames d = .error s := by
  rw [consumedNames, descend_next _ h, consumedNamesStep, hown]
  rfl

theorem consumedNames_of_inner (h : a.chain d = d :: a.chain e) (hown : a.ownNames d = .ok own)
    (hinner : a.consumedNames e = .error s) : a.consumedNames d = .error s := by
  rw [consumedNames, descend_next _ h, ← consumedNames, hinner, consumedNamesStep, hown]
  rfl

theorem consumedNames_append (h : a.chain d = d :: a.chain e) (hown : a.ownNames d = .ok own)
    (hinner : a.consumedNames e = .ok ns) : a.consumedNames d = .ok (own ++ ns) := by
  rw [consumedNames, descend_next _ h, ← consumedNames, hinner, consumedNamesStep, hown]
  rfl

theorem consumedNames_next_eq_ok (h : a.chain d = d :: a.chain e)
    : a.consumedNames d = .ok ns
        ↔
      ∃ own inner, a.ownNames d = .ok own ∧ a.consumedNames e = .ok inner ∧ ns = own ++ inner := by
  constructor
  · intro hd
    cases hown : a.ownNames d with
    | error s => cases hd.symm.trans (consumedNames_of_error h hown)
    | ok own =>
      cases hinner : a.consumedNames e with
      | error s => cases hd.symm.trans (consumedNames_of_inner h hown hinner)
      | ok inner =>
        cases hd.symm.trans (consumedNames_append h hown hinner)
        exact ⟨own, inner, rfl, rfl, rfl⟩
  · rintro ⟨own, inner, hown, hinner, rfl⟩
    exact consumedNames_append h hown hinner

theorem Linked.consumedNames_eq_nil (h : a.Linked) (d : DescriptorId) : a.consumedNames d = .ok [] ↔ a.Quiet d := by
  induction d using h.chain_induction with
  | last d _ hchain => rw [quiet_last hchain, consumedNames_last hchain, usedNames_none_eq_ok, ownNames_eq_nil]
  | next d e _ hchain ih =>
    rw [quiet_next hchain, ← ih, ← ownNames_eq_nil, consumedNames_next_eq_ok hchain]
    constructor
    · rintro ⟨own, inner, hown, hinner, hnil⟩
      obtain ⟨rfl, rfl⟩ := List.append_eq_nil_iff.1 hnil.symm
      exact ⟨hown, hinner⟩
    · rintro ⟨hown, hinner⟩
      exact ⟨[], [], hown, hinner, rfl⟩

theorem Linked.exists_consumedNames (h : a.Linked) (d : DescriptorId)
    : (∃ ns, a.consumedNames d = .ok ns) ↔ a.Known d := by
  induction d using h.chain_induction with
  | last d _ hchain =>
    rw [known_last hchain, ← exists_ownNames, consumedNames_last hchain]
    simp only [usedNames_none_eq_ok, exists_and_right]
  | next d e _ hchain ih =>
    rw [known_next hchain, ← ih, ← exists_ownNames]
    constructor
    · rintro ⟨ns, hd⟩
      obtain ⟨own, inner, hown, hinner, -⟩ := (consumedNames_next_eq_ok hchain).1 hd
      exact ⟨⟨own, hown⟩, inner, hinner⟩
    · rintro ⟨⟨own, hown⟩, inner, hinner⟩
      exact ⟨own ++ inner, consumedNames_append hchain hown hinner⟩

/--
What a summary is made of: the exports, the side-effects record of `d` and whether a redirect leaks.
-/
structure Accounts (a : Arena) (d : DescriptorId) : Prop where
  settled : ∀ {s}, a.consumedNames d = .error s → a.usedExports d = s ∧ (s = .unknown ∨ s = .everything)
  leaks : ∀ {ns}, a.consumedNames d = .ok ns → a.Leaks d → a.usedExports d = .unknown
  answer : ∀ {ns}, a.consumedNames d = .ok ns → ¬ a.Leaks d → a.usedExports d = a.answer d ns

theorem accounts_last (hchain : a.chain d = [d]) : a.Accounts d := by
  have hused : a.usedExports d = a.usedExportsStep d none := descend_last _ hchain
  constructor
  · intro s hd
    rw [consumedNames_last hchain] at hd
    exact ⟨hused.trans (usedExportsStep_of_error hd), settles_of_usedNames_none hd⟩
  · intro ns _ hleaks
    exact absurd hleaks (not_leaks_last hchain)
  · intro ns hd _
    rw [consumedNames_last hchain] at hd
    exact hused.trans (usedExportsStep_of_ok hd)

theorem Accounts.next (h : a.Accounts e) (hlinked : a.Linked) (hchain : a.chain d = d :: a.chain e)
    : a.Accounts d := by
  have hused : a.usedExports d = a.usedExportsStep d (some (a.usedExports e)) := descend_next _ hchain
  constructor
  · intro s hd
    cases hown : a.ownNames d with
    | error s' =>
      cases hd.symm.trans (consumedNames_of_error hchain hown)
      exact ⟨hused.trans (usedExportsStep_of_error (usedNames_of_error hown)), settles_of_ownNames hown⟩
    | ok own =>
      cases hinner : a.consumedNames e with
      | ok ns => cases hd.symm.trans (consumedNames_append hchain hown hinner)
      | error s' =>
        cases hd.symm.trans (consumedNames_of_inner hchain hown hinner)
        have ⟨he, hs⟩ := h.settled hinner
        rw [hused, he]
        exact ⟨usedExportsStep_of_error (usedNames_of_settles hown hs), hs⟩
  · intro ns hd hleaks
    obtain ⟨own, inner, hown, hinner, rfl⟩ := (consumedNames_next_eq_ok hchain).1 hd
    -- Either a redirect of `e` leaks, or `e` itself does.
    have he : a.usedExports e = .unknown := by
      by_cases hleaks' : a.Leaks e
      · exact h.leaks hinner hleaks'
      · have ⟨hquiet, hside⟩ := ((leaks_next hchain).1 hleaks).resolve_right hleaks'
        cases hinner.symm.trans ((hlinked.consumedNames_eq_nil e).2 hquiet)
        rw [h.answer hinner hleaks', answer_eq_unknown]
        exact ⟨rfl, hside⟩
    rw [hused, he]
    exact usedExportsStep_of_error (usedNames_of_settles hown (.inl rfl))
  · intro ns hd hleaks
    obtain ⟨own, inner, hown, hinner, rfl⟩ := (consumedNames_next_eq_ok hchain).1 hd
    rw [leaks_next hchain, not_or] at hleaks
    have hanswer : a.answer e inner ≠ .unknown := by
      intro hunknown
      obtain ⟨rfl, hside⟩ := answer_eq_unknown.1 hunknown
      exact hleaks.1 ⟨(hlinked.consumedNames_eq_nil e).1 hinner, hside⟩
    obtain ⟨ms, hms, hmem⟩ := usedNames_answer hown hanswer
    rw [hused, h.answer hinner hleaks.2, usedExportsStep_of_ok hms]
    exact answer_congr hmem

theorem Linked.accounts (h : a.Linked) (d : DescriptorId) : a.Accounts d := by
  induction d using h.chain_induction with
  | last d _ hchain => exact accounts_last hchain
  | next d e _ hchain ih => exact ih.next h hchain

end ConsumedNames

namespace SameBeside

theorem descriptor_eq (h : a.SameBeside b d) (e : DescriptorId) : b.descriptor e = a.descriptor e := by
  rw [descriptor, h.descriptors]
  rfl

theorem record_eq (h : a.SameBeside b d) (htidy : a.Tidy) {s : Slot} {r : RecordId} (hr : a.Holds s r)
    (hs : ∀ e ≠ d, s ≠ .sideEffects e) : b.record r = a.record r := by
  rcases h.records r with hsame | ⟨e, hne, he, rfl, -⟩
  · exact hsame
  · exact absurd (htidy.once hr (.sideEffects he)) (hs e hne)

theorem sideUsage_eq (h : a.SameBeside b d) (htidy : a.Tidy) (hd : d.index < a.descriptors.size)
    : b.sideUsage d = a.sideUsage d := by
  have hsame : b.record (a.descriptor d).sideEffects = a.record (a.descriptor d).sideEffects := by
    apply h.record_eq htidy (.sideEffects hd)
    intro e hne hslot
    cases hslot
    exact hne rfl
  rw [sideUsage, h.descriptor_eq, hsame]
  rfl

theorem answer_eq (h : a.SameBeside b d) (htidy : a.Tidy) (hd : d.index < a.descriptors.size) (ns : List String)
    : b.answer d ns = a.answer d ns := by
  cases ns with
  | nil => rw [answer, answer, emptyAnswer, emptyAnswer, h.sideUsage_eq htidy hd]
  | cons n ns => rfl

theorem ownNames_eq (h : a.SameBeside b d) (hsound : a.Sound) (e : DescriptorId) : b.ownNames e = a.ownNames e := by
  have horder : b.orderedLocals e = a.orderedLocals e := by
    rw [orderedLocals, h.descriptor_eq]
    rfl
  rw [ownNames, ownNames, horder]
  refine congrArg scanUsed (List.map_congr_left fun r hr => ?_)
  obtain ⟨name, hlisted, -⟩ := hsound.named.listed_of_mem (mem_orderedLocals.1 hr)
  apply h.record_eq hsound.tidy (.listed hlisted)
  intro f _ hslot
  cases hslot

theorem consumedNames_eq (h : a.SameBeside b d) (hsound : a.Sound) {e : DescriptorId}
    (he : e.index < a.descriptors.size) : b.consumedNames e = a.consumedNames e := by
  have hchains (e : DescriptorId) : b.chain e = a.chain e :=
    hsound.linked.chain_congr (fun e => by rw [h.descriptor_eq]) e
  induction e using hsound.linked.chain_induction with
  | last e _ hchain =>
    have hother : b.record (a.descriptor e).other = a.record (a.descriptor e).other := by
      apply h.record_eq hsound.tidy (.other he)
      intro f _ hslot
      cases hslot
    have hchain' := (hchains e).trans hchain
    have hown := h.ownNames_eq hsound e
    rw [ownNames, ownNames] at hown
    rw [consumedNames_last hchain, consumedNames_last hchain', usedNames, usedNames, hown, h.descriptor_eq, hother]
  | next e f hredirect hchain ih =>
    have hchain' : b.chain e = e :: b.chain f := by
      rw [hchains, hchains, hchain]
    rw [consumedNames, consumedNames, descend_next _ hchain, descend_next _ hchain', ← consumedNames, ← consumedNames,
      ih (hsound.linked.redirect hredirect), consumedNamesStep, consumedNamesStep, h.ownNames_eq hsound]

theorem markUsedForSideEffects (he : e.index < a.descriptors.size) (hne : e ≠ d)
    : a.SameBeside (a.markUsedForSideEffects e).1 d where
  descriptors := rfl
  records := by
    intro r
    by_cases hr : r = (a.descriptor e).sideEffects
    · rcases record_modifyRecord a (a.descriptor e).sideEffects (fun x => (x.setUsedUpTo .unused .used).1) r
        with hsame | hnew
      · exact .inl hsame
      · refine .inr ⟨e, hne, he, hr, ?_⟩
        unfold ExportRecord.setUsedUpTo ExportRecord.setUsedIf at hnew
        split at hnew
        · exact ⟨_, hnew⟩
        · exact ⟨_, hnew⟩
    · exact .inl (record_modifyRecord_of_ne _ hr)

end SameBeside

theorem Linked.usedExports_of_quiet (h : a.Linked) (hquiet : a.Quiet d)
    : (a.Leaks d → a.usedExports d = .unknown) ∧ (¬ a.Leaks d → a.usedExports d = a.emptyAnswer d) := by
  have hnames := (h.consumedNames_eq_nil d).2 hquiet
  exact ⟨(h.accounts d).leaks hnames, (h.accounts d).answer hnames⟩

/--
The side-effects records of other descriptors have no say in a summary but through a leak: it makes a difference if and
only if the summary would tell something. If nothing is consumed along the redirects and none leaks, the side-effects
record of the descriptor itself decides; if one leaks, nothing is known.
-/
theorem usedExports_sideEffects (ha : a.Reachable) (hb : b.Reachable) (hd : d.index < a.descriptors.size)
    (h : a.SameBeside b d)
    : (a.usedExports d = b.usedExports d
        ↔
      (a.Known d → (a.Quiet d → a.sideUsage d ≠ .noInfo) → (a.Leaks d ↔ b.Leaks d)))
        ∧
      (a.Quiet d → ¬ a.Leaks d → a.usedExports d = a.emptyAnswer d)
        ∧
      (a.Quiet d → a.Leaks d → a.usedExports d = .unknown) := by
  have hquiet (hq : a.Quiet d) := ha.linked.usedExports_of_quiet hq
  refine ⟨?_, fun hq => (hquiet hq).2, fun hq => (hquiet hq).1⟩
  rw [← ha.linked.exists_consumedNames, ← ha.linked.consumedNames_eq_nil]
  have haccounts := ha.linked.accounts d
  have haccounts' := hb.linked.accounts d
  have hnames := h.consumedNames_eq ha.sound hd
  cases hresult : a.consumedNames d with
  | error s =>
    rw [hresult] at hnames
    rw [(haccounts.settled hresult).1, (haccounts'.settled hnames).1]
    exact iff_of_true rfl fun ⟨ns, hns⟩ => nomatch hns
  | ok ns =>
    rw [hresult] at hnames
    have hanswer : b.answer d ns = a.answer d ns := h.answer_eq ha.sound.tidy hd ns
    have hunknown : a.answer d ns = .unknown ↔ ns = [] ∧ a.sideUsage d = .noInfo := answer_eq_unknown
    by_cases hleaks : a.Leaks d
    · rw [haccounts.leaks hresult hleaks]
      by_cases hleaks' : b.Leaks d
      · rw [haccounts'.leaks hnames hleaks']
        simp [hleaks, hleaks']
      · rw [haccounts'.answer hnames hleaks', hanswer, eq_comm, hunknown]
        simp [hleaks, hleaks']
    · rw [haccounts.answer hresult hleaks]
      by_cases hleaks' : b.Leaks d
      · rw [haccounts'.leaks hnames hleaks', hunknown]
        simp [hleaks, hleaks']
      · rw [haccounts'.answer hnames hleaks', hanswer]
        simp [hleaks, hleaks']

end Arena

namespace Sample

/--
Descriptors that are redirected to each other in a row; of the one in the middle there is no usage information.
-/
def muting : List ArenaOp := [
  .newDescriptor, .markHasUseInfo ⟨0⟩, .newDescriptor, .setRedirect ⟨1⟩ (some ⟨0⟩), .newDescriptor,
  .markHasUseInfo ⟨2⟩, .setRedirect ⟨2⟩ (some ⟨1⟩)]

def muted : Arena := muting.foldl ArenaOp.apply {}

theorem muted_reachable : muted.Reachable := by
  simp only [muted, muting, List.foldl_cons, List.foldl_nil]
  iterate 7 refine .step _ ?_ ⟨by decide, by decide⟩
  exact .empty

def voiced : Arena := (muted.markUsedForSideEffects ⟨1⟩).1

theorem voiced_reachable : voiced.Reachable :=
  .step (.markUsedForSideEffects ⟨1⟩) muted_reachable ⟨by decide, by decide⟩

theorem muted_sameBeside {d : DescriptorId} (h : ⟨1⟩ ≠ d) : muted.SameBeside voiced d :=
  .markUsedForSideEffects (by decide) h

end Sample

namespace Arena

open Sample

theorem usedExports_sideEffects_sample
    : muted.Reachable ∧ voiced.Reachable
        ∧
      muted.SameBeside voiced ⟨2⟩ ∧ muted.Known ⟨2⟩ ∧ muted.Quiet ⟨2⟩ ∧ muted.Leaks ⟨2⟩ ∧ ¬voiced.Leaks ⟨2⟩
        ∧
      muted.usedExports ⟨2⟩ = .unknown ∧ muted.usedExports ⟨2⟩ ≠ voiced.usedExports ⟨2⟩
        ∧
      muted.SameBeside voiced ⟨0⟩ ∧ muted.Quiet ⟨0⟩ ∧ ¬muted.Leaks ⟨0⟩ ∧ ¬voiced.Leaks ⟨0⟩
        ∧
      muted.usedExports ⟨0⟩ = .never ∧ muted.usedExports ⟨0⟩ = voiced.usedExports ⟨0⟩ := by
  have hsame : muted.SameBeside voiced ⟨2⟩ := muted_sameBeside (by decide)
  have hsame' : muted.SameBeside voiced ⟨0⟩ := muted_sameBeside (by decide)
  have hknown : muted.Known ⟨2⟩ := ⟨by decide, by decide⟩
  have hquiet : muted.Quiet ⟨2⟩ := by decide
  have hleaks : muted.Leaks ⟨2⟩ := by decide
  have hnoLeaks : ¬voiced.Leaks ⟨2⟩ := by decide
  have hquiet' : muted.Quiet ⟨0⟩ := by decide
  have hnoLeaks' : ¬muted.Leaks ⟨0⟩ ∧ ¬voiced.Leaks ⟨0⟩ := by decide
  have ⟨hiff, _, hunknown⟩ := usedExports_sideEffects muted_reachable voiced_reachable (by decide) hsame
  have ⟨hiff', hanswer, _⟩ := usedExports_sideEffects muted_reachable voiced_reachable (by decide) hsame'
  refine ⟨muted_reachable, voiced_reachable, hsame, hknown, hquiet, hleaks, hnoLeaks, hunknown hquiet hleaks, ?_,
    hsame', hquiet', hnoLeaks'.1, hnoLeaks'.2, hanswer hquiet' hnoLeaks'.1, ?_⟩
  · intro heq
    exact hnoLeaks ((hiff.1 heq hknown fun _ => by decide).1 hleaks)
  · exact hiff'.2 fun _ _ => iff_of_false hnoLeaks'.1 hnoLeaks'.2

/--
The descriptor is known not to be kept for side effects, but what its redirect is kept for makes a difference.
-/
theorem usedExports_passes_unknown
    : muted.Reachable ∧ voiced.Reachable ∧ muted.SameBeside voiced ⟨2⟩
        ∧
      muted.Quiet ⟨2⟩ ∧ muted.sideUsage ⟨2⟩ = .unused
        ∧
      muted.usedExports ⟨2⟩ = .unknown ∧ voiced.usedExports ⟨2⟩ = .never := by
  refine ⟨muted_reachable, voiced_reachable, muted_sameBeside (by decide), by decide, by decide, ?_, ?_⟩
  · exact (muted_reachable.linked.usedExports_of_quiet (by decide)).1 (by decide)
  · exact (voiced_reachable.linked.usedExports_of_quiet (by decide)).2 (by decide)

end Arena
end ModuleLink
