import ModuleLink.Proofs.StringLiteral
import ModuleLink.PropertyAccess

/-!
This module contains the reading of property accesses. A chain of accesses has one reading, so the path that was
written is the path that is read, whatever the texts of its names and whatever follows the chain.
-/

namespace ModuleLink

/--
The spellings of an access: a name after a dot, and digits or a string literal in brackets.
-/
inductive Access : List Char → String → Prop where
  | dotted {c : Char} {cs : List Char}
      : Identifier.isStart c → cs.all Identifier.isPart → Access ('.' :: c :: cs) (String.ofList (c :: cs))
  | indexed {digits : List Char}
      : digits ≠ [] → digits.all Char.isDigit → Access ('[' :: (digits ++ [']'])) (String.ofList digits)
  | quoted {body value : List Char}
      : Spells Json.Written body value → Access ('[' :: '"' :: (body ++ ['"', ']'])) (String.ofList value)

namespace Access

def Parted (rest : List Char) : Prop := ∀ c ∈ rest.head?, ¬Identifier.isPart c

def Closed (w rest : List Char) : Prop := w.head? = some '.' → Parted rest

instance {rest : List Char} : Decidable (Parted rest) :=
  Option.decidableForallMem rest.head?

def readName : Json.Reader String
  | [] => none
  | c :: cs =>
    if Identifier.isStart c then
      some (String.ofList (c :: cs.takeWhile Identifier.isPart), cs.dropWhile Identifier.isPart)
    else
      none

def readClosing (name : String) : Json.Reader String
  | ']' :: cs => some (name, cs)
  | _ => none

def readIndex (cs : List Char) : Option (String × List Char) :=
  if cs.takeWhile Char.isDigit = [] then none
  else readClosing (String.ofList (cs.takeWhile Char.isDigit)) (cs.dropWhile Char.isDigit)

def readQuoted (cs : List Char) : Option (String × List Char) :=
  (Json.readString [] cs).bind fun literal => readClosing literal.1 literal.2

def read? : Json.Reader String
  | '.' :: cs => readName cs
  | '[' :: '"' :: cs => readQuoted cs
  | '[' :: cs => readIndex cs
  | _ => none

theorem takeWhile_eq_and_dropWhile_eq_iff {p : Char → Bool} {cs run rest : List Char}
    : (cs.takeWhile p = run ∧ cs.dropWhile p = rest)
        ↔
      run.all p ∧ cs = run ++ rest ∧ ∀ c ∈ rest.head?, ¬p c := by
  constructor
  · rintro ⟨rfl, rfl⟩
    refine ⟨List.all_takeWhile, List.takeWhile_append_dropWhile.symm, ?_⟩
    intro c hc
    have hnot := List.head?_dropWhile_not p cs
    rw [Option.mem_def.1 hc] at hnot
    rw [hnot]
    exact Bool.false_ne_true
  · rintro ⟨hrun, rfl, hrest⟩
    rw [List.all_eq_true] at hrun
    rw [List.takeWhile_append_of_pos hrun, List.dropWhile_append_of_pos hrun]
    cases rest with
    | nil => exact ⟨List.append_nil run, rfl⟩
    | cons c rest =>
      have hc := hrest c rfl
      rw [List.takeWhile_cons_of_neg hc, List.dropWhile_cons_of_neg hc, List.append_nil]
      exact ⟨rfl, rfl⟩

theorem readName_eq_some_iff {cs rest : List Char} {name : String}
    : readName cs = some (name, rest)
        ↔
      ∃ c run, Identifier.isStart c ∧ run.all Identifier.isPart ∧ cs = c :: (run ++ rest) ∧
        name = String.ofList (c :: run) ∧ Parted rest := by
  constructor
  · intro h
    cases cs with
    | nil => cases h
    | cons c cs =>
      rw [readName] at h
      split at h
      · next hc =>
        cases h
        obtain ⟨hrun, hcs, hrest⟩ := takeWhile_eq_and_dropWhile_eq_iff.1 ⟨rfl, rfl⟩
        exact ⟨c, _, hc, hrun, congrArg _ hcs, rfl, hrest⟩
      · cases h
  · rintro ⟨c, run, hc, hrun, rfl, rfl, hrest⟩
    obtain ⟨htake, hdrop⟩ := takeWhile_eq_and_dropWhile_eq_iff.2 ⟨hrun, rfl, hrest⟩
    rw [readName, if_pos hc, htake, hdrop]

theorem readClosing_eq_some_iff {cs rest : List Char} {name name' : String}
    : readClosing name cs = some (name', rest) ↔ name' = name ∧ cs = ']' :: rest := by
  constructor
  · intro h
    unfold readClosing at h
    split at h
    · cases h
      exact ⟨rfl, rfl⟩
    · cases h
  · rintro ⟨rfl, rfl⟩
    rfl

theorem readIndex_eq_some_iff {cs rest : List Char} {name : String}
    : readIndex cs = some (name, rest)
        ↔
      ∃ digits, digits ≠ [] ∧ digits.all Char.isDigit ∧ cs = digits ++ ']' :: rest ∧ name = String.ofList digits := by
  constructor
  · intro h
    unfold readIndex at h
    split at h
    · cases h
    · next hne =>
      obtain ⟨rfl, hdrop⟩ := readClosing_eq_some_iff.1 h
      obtain ⟨hrun, hcs, _⟩ := takeWhile_eq_and_dropWhile_eq_iff.1 ⟨rfl, hdrop⟩
      exact ⟨_, hne, hrun, hcs, rfl⟩
  · rintro ⟨digits, hne, hrun, rfl, rfl⟩
    have hrest : ∀ c ∈ (']' :: rest).head?, ¬c.isDigit := by
      rintro _ ⟨⟩
      decide
    obtain ⟨htake, hdrop⟩ := takeWhile_eq_and_dropWhile_eq_iff.2 ⟨hrun, rfl, hrest⟩
    rw [readIndex, htake, hdrop, if_neg hne]
    rfl

theorem readQuoted_eq_some_iff {cs rest : List Char} {name : String}
    : readQuoted cs = some (name, rest)
        ↔
      ∃ body value, Spells Json.Written body value ∧ cs = body ++ '"' :: ']' :: rest ∧
        name = String.ofList value := by
  unfold readQuoted
  rw [Option.bind_eq_some_iff]
  constructor
  · rintro ⟨⟨text, after⟩, hread, hclosing⟩
    obtain ⟨rfl, rfl⟩ := readClosing_eq_some_iff.1 hclosing
    exact Json.readString_eq_some_iff.1 hread
  · rintro ⟨body, value, hbody, rfl, rfl⟩
    refine ⟨(String.ofList value, ']' :: rest), ?_, rfl⟩
    exact Json.readString_eq_some_iff.2 ⟨body, value, hbody, rfl, rfl⟩

theorem read?_eq_some_iff {cs rest : List Char} {name : String}
    : read? cs = some (name, rest) ↔ ∃ w, Access w name ∧ cs = w ++ rest ∧ Closed w rest := by
  constructor
  · intro h
    unfold read? at h
    split at h
    · obtain ⟨c, run, hc, hrun, rfl, rfl, hrest⟩ := readName_eq_some_iff.1 h
      exact ⟨_, .dotted hc hrun, rfl, fun _ => hrest⟩
    · obtain ⟨body, value, hbody, rfl, rfl⟩ := readQuoted_eq_some_iff.1 h
      refine ⟨_, .quoted hbody, ?_, ?_⟩
      · simp only [List.cons_append, List.append_assoc, List.nil_append]
      · rintro ⟨⟩
    · obtain ⟨digits, hne, hrun, rfl, rfl⟩ := readIndex_eq_some_iff.1 h
      refine ⟨_, .indexed hne hrun, ?_, ?_⟩
      · simp only [List.cons_append, List.append_assoc, List.nil_append]
      · rintro ⟨⟩
    · cases h
  · rintro ⟨w, hw, rfl, hclosed⟩
    cases hw with
    | dotted hc hrun =>
      exact readName_eq_some_iff.2 ⟨_, _, hc, hrun, rfl, rfl, hclosed rfl⟩
    | @indexed digits hne hrun =>
      -- A digit is no quote, so the brackets are not those of a literal.
      rw [List.cons_append, List.append_assoc, List.singleton_append, read?]
      · exact readIndex_eq_some_iff.2 ⟨_, hne, hrun, rfl, rfl⟩
      · intro cs hcs
        cases digits with
        | nil => exact hne rfl
        | cons d digits =>
          cases hcs
          cases hrun
    | quoted hbody =>
      simp only [List.cons_append, List.append_assoc, List.nil_append]
      exact readQuoted_eq_some_iff.2 ⟨_, _, hbody, rfl, rfl⟩

theorem head?_eq {w : List Char} {name : String} (h : Access w name) : w.head? = some '.' ∨ w.head? = some '[' := by
  cases h with
  | dotted => exact .inl rfl
  | indexed => exact .inr rfl
  | quoted => exact .inr rfl

theorem head?_append {w : List Char} {name : String} (h : Access w name) (rest : List Char)
    : (w ++ rest).head? = w.head? := by
  cases h
  all_goals rfl

theorem parted_append {text rest : List Char} {names : List String} (h : Spells Access text names)
    (hrest : Parted rest)
    : Parted (text ++ rest) := by
  cases h with
  | nil => exact hrest
  | @cons w text _ _ hw _ =>
    intro c hc
    rw [List.append_assoc, hw.head?_append, Option.mem_def] at hc
    rcases hw.head?_eq with hdot | hbracket
    · cases hc.symm.trans hdot
      decide
    · cases hc.symm.trans hbracket
      decide

theorem length_lt_of_read? {cs rest : List Char} {name : String} (h : read? cs = some (name, rest))
    : rest.length < cs.length := by
  obtain ⟨w, hw, rfl, _⟩ := read?_eq_some_iff.1 h
  have hpos : 0 < w.length := by
    cases hw
    all_goals apply Nat.succ_pos
  rw [List.length_append]
  omega

def readChain (cs : List Char) : List String × List Char :=
  match _ : read? cs with
  | none => ([], cs)
  | some (name, rest) => (readChain rest).map (name :: ·) id
termination_by cs.length
decreasing_by
  apply length_lt_of_read?
  assumption

theorem readChain_of_none {cs : List Char} (h : read? cs = none) : readChain cs = ([], cs) := by
  unfold readChain
  split
  · rfl
  · next hread => cases h.symm.trans hread

theorem readChain_of_some {cs rest : List Char} {name : String} (h : read? cs = some (name, rest))
    : readChain cs = (readChain rest).map (name :: ·) id := by
  rw [readChain]
  split
  · next hread => cases h.symm.trans hread
  · next hread =>
    cases h.symm.trans hread
    rfl

theorem readChain_append {text rest : List Char} {names : List String} (h : Spells Access text names)
    (hrest : Parted rest)
    : readChain (text ++ rest) = (readChain rest).map (names ++ ·) id := by
  induction h with
  | nil => rfl
  | @cons w text name names hw htext ih =>
    have hread : read? (w ++ (text ++ rest)) = some (name, text ++ rest) := by
      apply read?_eq_some_iff.2
      exact ⟨w, hw, rfl, fun _ => parted_append htext hrest⟩
    rw [List.append_assoc, readChain_of_some hread, ih]
    rfl

theorem spells_readChain (cs : List Char)
    : ∃ text, Spells Access text (readChain cs).1 ∧ cs = text ++ (readChain cs).2 := by
  fun_induction readChain cs with
  | case1 cs hread => exact ⟨[], .nil, rfl⟩
  | case2 cs name rest hread ih =>
    obtain ⟨w, hw, rfl, _⟩ := read?_eq_some_iff.1 hread
    obtain ⟨text, htext, hrest⟩ := ih
    refine ⟨w ++ text, .cons hw htext, ?_⟩
    rw [List.append_assoc]
    exact congrArg (w ++ ·) hrest

def decode? (text : String) : Option (List String) :=
  if (readChain text.toList).2 = [] then some (readChain text.toList).1 else none

theorem decode?_eq_some_iff {text : String} {path : List String}
    : decode? text = some path ↔ Spells Access text.toList path := by
  unfold decode?
  rw [Option.ite_none_right_eq_some, Option.some.injEq]
  constructor
  · rintro ⟨hend, rfl⟩
    obtain ⟨spelled, hspelled, htext⟩ := spells_readChain text.toList
    rw [hend, List.append_nil] at htext
    rw [← htext] at hspelled
    exact hspelled
  · intro h
    have hend : Parted [] := by decide
    have hchain := readChain_append h hend
    rw [List.append_nil] at hchain
    have hnil : readChain [] = ([], []) := readChain_of_none rfl
    rw [hchain, hnil]
    exact ⟨rfl, List.append_nil path⟩

theorem of_isArrayIndex {name : String} (h : isArrayIndex name) : Access ('[' :: (name.toList ++ [']'])) name := by
  have hdigits : name.toList ≠ [] ∧ name.toList.all Char.isDigit := by
    unfold isArrayIndex at h
    split at h
    · cases h
    · next hname =>
      rw [hname]
      decide
    · next hname =>
      simp only [Bool.and_eq_true] at h
      rw [hname, List.all_cons, h.1.1, h.2]
      exact ⟨List.cons_ne_nil _ _, rfl⟩
  have hindexed := Access.indexed hdigits.1 hdigits.2
  rwa [String.ofList_toList] at hindexed

theorem of_hasForm {name : String} (h : Identifier.hasForm name) : Access ('.' :: name.toList) name := by
  unfold Identifier.hasForm at h
  split at h
  · cases h
  · next hname =>
    rw [Bool.and_eq_true] at h
    have hdotted := Access.dotted h.1 h.2
    rwa [← hname, String.ofList_toList] at hdotted

theorem of_encode (name : String) : Access ('[' :: ((JsonString.encode name).toList ++ [']'])) name := by
  have hquoted := Access.quoted (JsonString.spells_flatMap_escapeChar name.toList)
  rw [String.ofList_toList] at hquoted
  unfold JsonString.encode
  simpa using hquoted

theorem of_accessSegment (name : String) : Access (accessSegment name).toList name := by
  unfold accessSegment
  split
  · next h => simpa using of_isArrayIndex h
  · split
    · next h =>
      unfold Identifier.isIdentifier at h
      rw [Bool.and_eq_true] at h
      simpa using of_hasForm h.1
    · simpa using of_encode name

end Access

theorem propertyAccess_append (path path' : List String)
    : propertyAccess (path ++ path') = propertyAccess path ++ propertyAccess path' := by
  unfold propertyAccess
  rw [List.map_append, String.join_append]

theorem toList_propertyAccess_cons (name : String) (path : List String)
    : (propertyAccess (name :: path)).toList = (accessSegment name).toList ++ (propertyAccess path).toList := by
  unfold propertyAccess
  rw [List.map_cons, String.join_cons, String.toList_append]

theorem spells_propertyAccess (path : List String) : Spells Access (propertyAccess path).toList path := by
  induction path with
  | nil => exact .nil
  | cons name path ih =>
    rw [toList_propertyAccess_cons]
    exact .cons (Access.of_accessSegment name) ih

theorem decode?_propertyAccess (path : List String) : Access.decode? (propertyAccess path) = some path := by
  apply Access.decode?_eq_some_iff.2
  exact spells_propertyAccess path

theorem isIdentifier_of_head? {name : String} (h : (accessSegment name).toList.head? = some '.')
    : Identifier.isIdentifier name := by
  unfold accessSegment at h
  split at h
  · simp at h
  · split at h
    · assumption
    · simp at h

theorem eq_accessSegment {name name' : String} {w rest rest' : List Char} (hw : Access w name')
    (h : (accessSegment name).toList ++ rest = w ++ rest')
    (hrest : Identifier.isIdentifier name → Access.Parted rest ∧ Access.Parted rest')
    : w = (accessSegment name).toList ∧ name' = name ∧ rest' = rest := by
  -- Neither brackets nor quotes end early, and only a name after a dot depends on what follows it.
  have hsegment := Access.of_accessSegment name
  have hhead : w.head? = (accessSegment name).toList.head? := by
    rw [← hw.head?_append rest', ← h, hsegment.head?_append]
  have hread : Access.read? (w ++ rest') = some (name', rest') := by
    apply Access.read?_eq_some_iff.2
    exact ⟨w, hw, rfl, fun hdot => (hrest (isIdentifier_of_head? (hhead ▸ hdot))).2⟩
  have hread' : Access.read? (w ++ rest') = some (name, rest) := by
    apply Access.read?_eq_some_iff.2
    exact ⟨_, hsegment, h.symm, fun hdot => (hrest (isIdentifier_of_head? hdot)).1⟩
  cases hread.symm.trans hread'
  exact ⟨List.append_cancel_right h.symm, rfl, rfl⟩

/--
The accesses of a path are read as the path and in no other way, alone and before any text that follows them.
-/
theorem propertyAccess_decodable
    : (∀ text path, Access.decode? text = some path ↔ Spells Access text.toList path) ∧
      (∀ path, Access.decode? (propertyAccess path) = some path) ∧
      Function.Injective propertyAccess ∧
      (∀ path path', propertyAccess (path ++ path') = propertyAccess path ++ propertyAccess path') ∧
      (∀ name w name' rest rest', Access w name' → (accessSegment name).toList ++ rest = w ++ rest' →
        (Identifier.isIdentifier name → Access.Parted rest ∧ Access.Parted rest') →
        w = (accessSegment name).toList ∧ name' = name ∧ rest' = rest) ∧
      ∀ path rest, Access.Parted rest →
        Access.readChain ((propertyAccess path).toList ++ rest) = (Access.readChain rest).map (path ++ ·) id := by
  refine ⟨?decoder, decode?_propertyAccess, ?injective, propertyAccess_append, ?segment, ?chain⟩
  case decoder =>
    intro text path
    exact Access.decode?_eq_some_iff
  case injective =>
    intro path path' h
    have hdecode := decode?_propertyAccess path
    rw [h, decode?_propertyAccess path'] at hdecode
    exact (Option.some.inj hdecode).symm
  case segment =>
    intro name w name' rest rest' hw h hrest
    exact eq_accessSegment hw h hrest
  case chain =>
    intro path rest hrest
    exact Access.readChain_append (spells_propertyAccess path) hrest

namespace Sample

def imitations : List String := ["a\"]", "\"", "\\", "0", "00", "", "if", "x.y", "name", "\x01\n"]

end Sample

theorem propertyAccess_decodable_sample
    : Access.readChain ((propertyAccess Sample.imitations).toList ++ "(1)".toList)
        = (Sample.imitations, "(1)".toList) ∧
      ∀ w name' rest', Access w name' → (accessSegment "a\"]").toList ++ ".b".toList = w ++ rest' →
        name' = "a\"]" ∧ rest' = ".b".toList := by
  constructor
  · have hend : Access.readChain "(1)".toList = ([], "(1)".toList) := Access.readChain_of_none rfl
    have hparted : Access.Parted "(1)".toList := by decide
    rw [propertyAccess_decodable.2.2.2.2.2 _ _ hparted, hend]
    rfl
  · intro w name' rest' hw h
    have hname : ¬Identifier.isIdentifier "a\"]" := by decide
    exact (propertyAccess_decodable.2.2.2.2.1 _ w name' _ rest' hw h fun hc => absurd hc hname).2

end ModuleLink
