import ModuleLink.Exports.Summary
import ModuleLink.Proofs.Basic

/-!
This module contains how a path of exports is spelled in the output. Behind an export of which only properties are used
they are followed from record to record, and each is spelled as its record says; the rest stands for itself.
-/

namespace ModuleLink

namespace ExportRecord

theorem isSome_outputSegment? {x : ExportRecord} (requested : String)
    : (x.outputSegment? requested).isSome ↔ x.used ≠ .unused := by
  unfold outputSegment?
  split
  · next h => simp [h]
  · next h => split <;> simp [h]

end ExportRecord

namespace Arena

variable {a : Arena} {d e : DescriptorId} {r : RecordId} {first : String} {rest : List String} {segment : Option String}

def followed? (a : Arena) (r : RecordId) : Option DescriptorId :=
  if (a.record r).used = .propertiesUsed then (a.record r).nested else none

theorem followed?_of_nested_eq_none (h : (a.record r).nested = none) : a.followed? r = none := by
  rw [followed?, h, ite_self]

theorem nested_of_followed? (h : a.followed? r = some e) : (a.record r).nested = some e := by
  unfold followed? at h
  split at h
  · exact h
  · cases h

def properties (a : Arena) (r : RecordId) : List String → List (String × RecordId) × List String
  | [] => ([], [])
  | name :: rest =>
    match a.followed? r with
    | none => ([], name :: rest)
    | some e =>
      let s := a.lookup e name
      ((name, s) :: (a.properties s rest).1, (a.properties s rest).2)

def word? (a : Arena) (p : String × RecordId) : Option String := ((a.record p.2).outputSegment? p.1).join

theorem word?_eq_none {p : String × RecordId} (h : (a.record p.2).used ≠ .unused)
    : a.word? p = none ↔ (a.record p.2).outputName = .virtual := by
  unfold word? ExportRecord.outputSegment?
  rw [if_neg h]
  cases (a.record p.2).outputName <;> simp

def spelling (a : Arena) (r : RecordId) (path : List String) : List String :=
  (a.properties r path).1.filterMap a.word? ++ (a.properties r path).2

theorem properties_of_followed?_eq_none (h : a.followed? r = none) (path : List String)
    : a.properties r path = ([], path) := by
  cases path with
  | nil => rfl
  | cons name rest => rw [properties, h]

theorem properties_of_followed? (h : a.followed? r = some e) (name : String) (rest : List String)
    : a.properties r (name :: rest)
        =
      ((name, a.lookup e name) :: (a.properties (a.lookup e name) rest).1,
        (a.properties (a.lookup e name) rest).2) := by
  rw [properties, h]

theorem properties_names (a : Arena) (r : RecordId) (path : List String)
    : (a.properties r path).1.map Prod.fst ++ (a.properties r path).2 = path := by
  induction path generalizing r with
  | nil => rfl
  | cons name rest ih =>
    cases h : a.followed? r with
    | none =>
      rw [properties_of_followed?_eq_none h]
      rfl
    | some e => rw [properties_of_followed? h, List.map_cons, List.cons_append, ih]

theorem spelling_of_nested_eq_none (h : (a.record r).nested = none) (path : List String)
    : a.spelling r path = path := by
  rw [spelling, properties_of_followed?_eq_none (followed?_of_nested_eq_none h)]
  rfl

theorem spelling_of_followed? {name : String} {word : Option String} (h : a.followed? r = some e)
    (hword : (a.record (a.lookup e name)).outputSegment? name = some word) (rest : List String)
    : a.spelling r (name :: rest) = word.toList ++ a.spelling (a.lookup e name) rest := by
  have hword : a.word? (name, a.lookup e name) = word := by
    rw [word?, hword]
    rfl
  unfold spelling
  rw [properties_of_followed? h]
  cases word with
  | none => rw [List.filterMap_cons_none hword, Option.toList_none, List.nil_append]
  | some word => rw [List.filterMap_cons_some hword, Option.toList_some, List.singleton_append, List.cons_append]

theorem outputPath?_unused (h : (a.record (a.lookup d first)).outputSegment? first = none)
    : a.outputPath? d (first :: rest) = none := by
  rw [outputPath?, h]

theorem outputPath?_whole (h : (a.record (a.lookup d first)).outputSegment? first = some segment)
    (hrest : rest = [] ∨ a.followed? (a.lookup d first) = none)
    : a.outputPath? d (first :: rest) = some (segment.toList ++ rest) := by
  unfold followed? at hrest
  rw [outputPath?, h]
  cases rest with
  | nil => simp
  | cons name rest =>
    rw [hrest.resolve_left (List.cons_ne_nil name rest)]
    rfl

theorem outputPath?_property (h : (a.record (a.lookup d first)).outputSegment? first = some segment)
    (hnested : a.followed? (a.lookup d first) = some e) (name : String) (rest : List String)
    : a.outputPath? d (first :: name :: rest) = (a.outputPath? e (name :: rest)).map (segment.toList ++ ·) := by
  unfold followed? at hnested
  rw [outputPath?, h, hnested]
  rfl

theorem outputPath?_eq_some {used : List String}
    : a.outputPath? d (first :: rest) = some used
        ↔
      (∀ p ∈ (a.properties (a.lookup d first) rest).1, (a.record p.2).used ≠ .unused) ∧
        ∃ segment, (a.record (a.lookup d first)).outputSegment? first = some segment ∧
          used = segment.toList ++ a.spelling (a.lookup d first) rest := by
  induction rest generalizing d first used with
  | nil =>
    cases hsegment : (a.record (a.lookup d first)).outputSegment? first with
    | none => simp [outputPath?_unused hsegment]
    | some segment =>
      rw [outputPath?_whole hsegment (.inl rfl)]
      simp [properties, spelling, eq_comm]
  | cons name rest ih =>
    cases hsegment : (a.record (a.lookup d first)).outputSegment? first with
    | none => simp [outputPath?_unused hsegment]
    | some segment =>
      cases hnested : a.followed? (a.lookup d first) with
      | none =>
        rw [outputPath?_whole hsegment (.inr hnested), spelling, properties_of_followed?_eq_none hnested]
        simp [eq_comm]
      | some e =>
        rw [outputPath?_property hsegment hnested, Option.map_eq_some_iff, properties_of_followed? hnested]
        simp only [ih, List.forall_mem_cons, Option.some.injEq, exists_eq_left']
        constructor
        · rintro ⟨inner, ⟨hused, word, hword, rfl⟩, rfl⟩
          have hhead := (ExportRecord.isSome_outputSegment? _).1 (Option.isSome_of_eq_some hword)
          exact ⟨⟨hhead, hused⟩, congrArg _ (spelling_of_followed? hnested hword rest).symm⟩
        · rintro ⟨⟨hhead, hused⟩, rfl⟩
          obtain ⟨word, hword⟩ := Option.isSome_iff_exists.1 ((ExportRecord.isSome_outputSegment? _).2 hhead)
          exact ⟨_, ⟨hused, word, hword, rfl⟩, congrArg _ (spelling_of_followed? hnested hword rest).symm⟩

end Arena
end ModuleLink
