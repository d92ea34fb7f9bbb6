import ModuleLink.Proofs.Identifier
import ModuleLink.Proofs.PropertyAccess

/-!
This module contains which characters of a source text are read as a part of a comment. A comment that is made of any
text is one comment and nothing else, and neither names nor property accesses open one.
-/

namespace ModuleLink

theorem Json.hexValue?_isSome {cs : List Char} {n : Nat} (h : hexNumber? cs = some n)
    : ∀ c ∈ cs, (hexValue? c).isSome := by
  unfold hexNumber? at h
  generalize 0 = start at h
  induction cs generalizing start with
  | nil => exact List.forall_mem_nil _
  | cons c cs ih =>
    rw [List.foldlM_cons, Option.bind_eq_bind, Option.bind_eq_some_iff] at h
    obtain ⟨next, hnext, hrest⟩ := h
    obtain ⟨value, hvalue, -⟩ := Option.map_eq_some_iff.1 hnext
    rw [List.forall_mem_cons, hvalue]
    exact ⟨rfl, ih next hrest⟩

structure IsBlockComment (text : String) : Prop where
  opened : ['/', '*'] <+: text.toList
  closed : ['*', '/'] <:+ text.toList
  once : ∀ before after, text.toList = before ++ ['*', '/'] ++ after → after = []

section BlockComment

theorem head?_splitTerminators (cs : List Char) : (splitTerminators cs).head? = cs.head? := by
  fun_cases splitTerminators cs with
  | case1 => rfl
  | case2 => rfl
  | case3 c d cs h =>
    rw [h.1]
    rfl
  | case4 => rfl

theorem not_infix_splitTerminators (cs : List Char) : ¬['*', '/'] <:+: splitTerminators cs := by
  fun_induction splitTerminators cs with
  | case1 =>
    rw [List.infix_nil]
    rintro ⟨⟩
  | case2 c =>
    intro h
    have hlength := h.length_le
    contradiction
  | case3 c d cs _ ih =>
    simpa [List.infix_cons_iff, List.cons_prefix_cons] using ih
  | case4 c d cs h ih =>
    rw [List.infix_cons_iff, List.cons_prefix_cons]
    rintro (⟨rfl, rest, hrest⟩ | hrest)
    · have hhead := head?_splitTerminators (d :: cs)
      rw [← hrest] at hhead
      cases hhead
      exact h ⟨rfl, rfl⟩
    · exact ih hrest

def commentBody (text : String) : List Char := ' ' :: (splitTerminators text.toList ++ [' '])

theorem toList_blockComment {text : String} (h : text ≠ "")
    : (blockComment text).toList = ['/', '*'] ++ commentBody text ++ ['*', '/'] := by
  have hempty : ¬text.isEmpty := fun hempty => h (String.isEmpty_iff.1 hempty)
  unfold blockComment commentBody
  rw [if_neg hempty]
  simp

theorem not_infix_concat {cs : List Char} {c : Char} (hc : c ≠ '/') (h : ¬['*', '/'] <:+: cs)
    : ¬['*', '/'] <:+: cs ++ [c] := by
  rw [List.infix_concat_iff]
  rintro (⟨before, hbefore⟩ | hinfix)
  · have hlast := congrArg List.getLast? hbefore
    rw [List.getLast?_concat, List.getLast?_append] at hlast
    exact hc (Option.some.inj hlast).symm
  · exact h hinfix

theorem not_infix_commentBody (text : String) : ¬['*', '/'] <:+: commentBody text := by
  rw [commentBody, List.infix_cons_iff, List.cons_prefix_cons]
  rintro (⟨hblank, -⟩ | hbody)
  · cases hblank
  · exact not_infix_concat (by decide) (not_infix_splitTerminators _) hbody

theorem isBlockComment_blockComment {text : String} (h : text ≠ "") : IsBlockComment (blockComment text) := by
  -- The ends of a comment make no other end together with what is between them.
  have hlist := toList_blockComment h
  refine ⟨?_, ?_, ?_⟩
  · rw [hlist, List.append_assoc]
    exact List.prefix_append _ _
  · rw [hlist]
    exact List.suffix_append _ _
  · intro before after hafter
    rcases List.eq_nil_or_concat after with hnil | ⟨after, c, rfl⟩
    · exact hnil
    · -- An end that is not the last one is left when the last character is dropped.
      exfalso
      have hinfix : ['*', '/'] <:+: '/' :: '*' :: (commentBody text ++ ['*']) := by
        have hdrop := congrArg List.dropLast (hlist.symm.trans hafter)
        refine ⟨before, after, ?_⟩
        simpa [List.dropLast_append_of_ne_nil, List.dropLast_cons_of_ne_nil] using hdrop.symm
      rcases List.infix_cons_iff.1 hinfix with hslash | hinfix
      · cases (List.cons_prefix_cons.1 hslash).1
      rcases List.infix_cons_iff.1 hinfix with hblank | hbody
      · cases (List.cons_prefix_cons.1 (List.cons_prefix_cons.1 hblank).2).1
      · exact not_infix_concat (by decide) (not_infix_commentBody text) hbody

end BlockComment

namespace SourceText

/--
Where in a source text a reader is. A literal ends with the quote that it begins with.
-/
inductive Mode where
  | code
  | literal (quote : Char)
  | block
  | line

def isQuote (c : Char) : Bool := c == '"' || c == '\x27'

def isLineEnd (c : Char) : Bool := c == '\n' || c == '\r' || c == '\u2028' || c == '\u2029'

def commented : Mode → List Char → List Bool
  | _, [] => []
  | .code, '/' :: '*' :: cs => true :: true :: commented .block cs
  | .code, '/' :: '/' :: cs => true :: true :: commented .line cs
  | .code, c :: cs => false :: commented (if isQuote c then .literal c else .code) cs
  -- An escaped quote does not end a literal.
  | .literal quote, '\\' :: _ :: cs => false :: false :: commented (.literal quote) cs
  | .literal quote, c :: cs => false :: commented (if c = quote then .code else .literal quote) cs
  | .block, '*' :: '/' :: cs => true :: true :: commented .code cs
  | .block, _ :: cs => true :: commented .block cs
  | .line, c :: cs => if isLineEnd c then false :: commented .code cs else true :: commented .line cs

theorem commented_code {c : Char} (hc : c ≠ '/') (cs : List Char)
    : commented .code (c :: cs) = false :: commented (if isQuote c then .literal c else .code) cs := by
  rw [commented]
  · rintro _ rfl
    contradiction
  · rintro _ rfl
    contradiction

theorem commented_literal {quote c : Char} (hc : c ≠ '\\') (cs : List Char)
    : commented (.literal quote) (c :: cs) = false :: commented (if c = quote then .code else .literal quote) cs := by
  rw [commented]
  rintro _ _ rfl
  contradiction

theorem commented_block {c : Char} {cs : List Char} (h : ¬['*', '/'] <+: c :: cs)
    : commented .block (c :: cs) = true :: commented .block cs := by
  rw [commented]
  rintro rest rfl rfl
  exact h ⟨rest, rfl⟩

/--
The characters all belong to comments or all do not, and the reader is in another mode after them, whatever follows.
-/
def ReadAs (mode : Mode) (cs : List Char) (inComment : Bool) (mode' : Mode) : Prop :=
  ∀ rest, commented mode (cs ++ rest) = List.replicate cs.length inComment ++ commented mode' rest

namespace ReadAs

variable {mode mode' mode'' : Mode} {inComment : Bool} {cs cs' : List Char}

theorem nil : ReadAs mode [] inComment mode := fun _ => rfl

theorem append (h : ReadAs mode cs inComment mode') (h' : ReadAs mode' cs' inComment mode'')
    : ReadAs mode (cs ++ cs') inComment mode'' := by
  intro rest
  rw [List.append_assoc, h, h', List.length_append, ← List.replicate_append_replicate, List.append_assoc]

theorem cons {c : Char} (h : ReadAs mode [c] inComment mode') (h' : ReadAs mode' cs inComment mode'')
    : ReadAs mode (c :: cs) inComment mode'' :=
  h.append h'

theorem spells {α : Type} {spelling : List Char → α → Prop} {items : List α}
    (hspelling : ∀ w item, spelling w item → ReadAs mode w inComment mode) (h : Spells spelling cs items)
    : ReadAs mode cs inComment mode := by
  induction h with
  | nil => exact nil
  | cons hw _ ih => exact (hspelling _ _ hw).append ih

theorem plain {c : Char} (hslash : c ≠ '/') (hquote : ¬isQuote c) : ReadAs .code [c] false .code := by
  intro rest
  rw [List.singleton_append, commented_code hslash, if_neg hquote]
  rfl

theorem word (h : ∀ c ∈ cs, Identifier.isPart c) : ReadAs .code cs false .code := by
  induction cs with
  | nil => exact nil
  | cons c cs ih =>
    have ⟨hc, hcs⟩ := List.forall_mem_cons.1 h
    refine cons (plain ?_ ?_) (ih hcs)
    · rintro rfl
      contradiction
    · intro hquote
      simp only [isQuote, Bool.or_eq_true, beq_iff_eq] at hquote
      rcases hquote with rfl | rfl
      · contradiction
      · contradiction

theorem identifier {text : String} (h : Identifier.hasForm text) : ReadAs .code text.toList false .code :=
  word fun _ => Identifier.isPart_of_hasForm h

theorem openingQuote : ReadAs .code ['[', '"'] false (.literal '"') := fun _ => rfl

theorem closingQuote : ReadAs (.literal '"') ['"', ']'] false .code := by
  intro rest
  simp only [List.cons_append, List.nil_append]
  rw [commented_literal (by decide), if_pos rfl, commented_code (by decide), if_neg (by decide)]
  rfl

theorem escape (c : Char) : ReadAs (.literal '"') ['\\', c] false (.literal '"') := fun _ => rfl

theorem inner {c : Char} (hquote : c ≠ '"') (hslash : c ≠ '\\') : ReadAs (.literal '"') [c] false (.literal '"') := by
  intro rest
  rw [List.singleton_append, commented_literal hslash, if_neg hquote]
  rfl

theorem hex {n : Nat} (h : Json.hexNumber? cs = some n) : ReadAs (.literal '"') cs false (.literal '"') := by
  have hdigits := Json.hexValue?_isSome h
  clear h
  induction cs with
  | nil => exact nil
  | cons c cs ih =>
    have ⟨hc, hcs⟩ := List.forall_mem_cons.1 hdigits
    refine cons (inner ?_ ?_) (ih hcs)
    · rintro rfl
      contradiction
    · rintro rfl
      contradiction

theorem written {c : Char} (h : Json.Written cs c) : ReadAs (.literal '"') cs false (.literal '"') := by
  cases h with
  | plain _ hquote hslash => exact inner hquote hslash
  | short => exact escape _
  | unit hn => exact (escape 'u').append (hex hn)
  | pair hn _ hm => exact (((escape 'u').append (hex hn)).append (escape 'u')).append (hex hm)

theorem access {name : String} (h : Access cs name) : ReadAs .code cs false .code := by
  cases h with
  | dotted hc hcs =>
    refine cons (plain (by decide) (by decide)) (word ?_)
    rw [List.forall_mem_cons]
    exact ⟨Identifier.isPart_of_isStart hc, List.all_eq_true.1 hcs⟩
  | indexed _ hdigits =>
    refine cons (plain (by decide) (by decide)) (append (word ?_) (plain (by decide) (by decide)))
    intro c hc
    rw [Identifier.isPart, List.all_eq_true.1 hdigits c hc, Bool.or_true]
  | quoted hbody => exact openingQuote.append ((spells (fun _ _ => written) hbody).append closingQuote)

theorem propertyAccess (path : List String) : ReadAs .code (propertyAccess path).toList false .code :=
  spells (fun _ _ => access) (spells_propertyAccess path)

theorem block (h : ¬['*', '/'] <:+: cs) : ReadAs .block (cs ++ ['*', '/']) true .code := by
  intro rest
  induction cs with
  | nil => rfl
  | cons c cs ih =>
    rw [List.infix_cons_iff, not_or] at h
    have hend : ¬['*', '/'] <+: c :: (cs ++ ['*', '/'] ++ rest) := by
      cases cs with
      | nil => simp [List.cons_prefix_cons]
      | cons d cs => simpa [List.cons_prefix_cons] using h.1
    rw [List.cons_append, List.cons_append, commented_block hend, ih h.2]
    rfl

theorem blockComment (text : String) : ReadAs .code (blockComment text).toList true .code := by
  by_cases hempty : text = ""
  · rw [hempty]
    exact nil
  · have hopening : ReadAs .code ['/', '*'] true .block := fun _ => rfl
    rw [toList_blockComment hempty, List.append_assoc]
    exact hopening.append (block (not_infix_commentBody text))

end ReadAs

end SourceText
end ModuleLink
