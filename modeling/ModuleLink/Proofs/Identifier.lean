import ModuleLink.Identifier

/-!
This module contains the form of the texts that are turned into identifiers. A text that has the form already is left
alone, so that it makes no difference to turn a text into an identifier twice.
-/

namespace ModuleLink.Identifier

theorem isStart_iff {c : Char} : isStart c ↔ c.isAlpha ∨ c = '$' ∨ c = '_' := by
  simp only [isStart, Bool.or_eq_true, beq_iff_eq, or_assoc]

theorem isPart_iff {c : Char} : isPart c ↔ c.isAlpha ∨ c.isDigit ∨ c = '$' ∨ c = '_' := by
  rw [isPart, Bool.or_eq_true, isStart_iff, or_assoc, or_comm (b := c.isDigit)]

theorem isPart_of_isStart {c : Char} (h : isStart c) : isPart c := by
  rw [isPart, h, Bool.true_or]

theorem isPart_iff_isKept {c : Char} : isPart c ↔ isKept c ∨ c = '_' := by
  rw [isPart_iff]
  unfold isKept Char.isAlphanum
  simp only [Bool.or_eq_true, beq_iff_eq, or_assoc]

theorem isPart_of_mem_collapse {inRun : Bool} {cs : List Char} {c : Char} (h : c ∈ collapse inRun cs) : isPart c := by
  induction cs generalizing inRun with
  | nil => cases h
  | cons d cs ih =>
    unfold collapse at h
    split at h
    · next hkept =>
      cases h with
      | head => exact isPart_iff_isKept.2 (.inl hkept)
      | tail _ hrest => exact ih hrest
    · split at h
      · exact ih h
      · cases h with
        | head => rfl
        | tail _ hrest => exact ih hrest

theorem collapse_cons_of_isStart {c : Char} (h : isStart c) (cs : List Char)
    : ∃ inRun, collapse false (c :: cs) = c :: collapse inRun cs := by
  rw [collapse]
  split
  · exact ⟨false, rfl⟩
  · next hkept =>
    have hc : c = '_' := (isPart_iff_isKept.1 (isPart_of_isStart h)).resolve_left hkept
    refine ⟨true, ?_⟩
    rw [if_neg Bool.false_ne_true, hc]

theorem hasForm_ofText {text : String} (h : text ≠ "") : hasForm (ofText text) := by
  obtain ⟨c, cs, hc, hguard⟩ : ∃ c cs, isStart c ∧ guardStart text.toList = c :: cs := by
    unfold guardStart
    split
    · next hnil => exact absurd (String.toList_eq_nil_iff.1 hnil) h
    · next c cs _ =>
      split
      · next hc => exact ⟨c, cs, hc, rfl⟩
      · exact ⟨'_', c :: cs, rfl, rfl⟩
  obtain ⟨inRun, hcollapse⟩ := collapse_cons_of_isStart hc cs
  unfold hasForm ofText
  rw [String.toList_ofList, hguard, hcollapse]
  simp only [Bool.and_eq_true, List.all_eq_true]
  exact ⟨hc, fun d hd => isPart_of_mem_collapse hd⟩

structure Compact (text : String) : Prop where
  start : ∃ c ∈ text.toList.head?, c.isAlpha ∨ c = '$' ∨ c = '_'
  part : ∀ c ∈ text.toList, c.isAlpha ∨ c.isDigit ∨ c = '$' ∨ c = '_'
  single : ¬['_', '_'] <:+: text.toList

theorem isPart_of_hasForm {text : String} {c : Char} (h : hasForm text) (hc : c ∈ text.toList) : isPart c := by
  unfold hasForm at h
  split at h
  · cases h
  · next hcons =>
    rw [Bool.and_eq_true, List.all_eq_true] at h
    rw [hcons] at hc
    rcases List.mem_cons.1 hc with rfl | hc
    · exact isPart_of_isStart h.1
    · exact h.2 c hc

theorem compact_iff {text : String} : Compact text ↔ hasForm text ∧ ¬['_', '_'] <:+: text.toList := by
  constructor
  · rintro ⟨⟨c, hc, hstart⟩, hpart, hsingle⟩
    refine ⟨?_, hsingle⟩
    obtain ⟨cs, hcons⟩ := List.head?_eq_some_iff.1 hc
    rw [hcons, List.forall_mem_cons] at hpart
    rw [hasForm, hcons, Bool.and_eq_true, isStart_iff, List.all_eq_true]
    exact ⟨hstart, fun d hd => isPart_iff.2 (hpart.2 d hd)⟩
  · rintro ⟨hform, hsingle⟩
    refine ⟨?_, fun c hc => isPart_iff.1 (isPart_of_hasForm hform hc), hsingle⟩
    unfold hasForm at hform
    split at hform
    · cases hform
    · next c cs hcons =>
      rw [Bool.and_eq_true] at hform
      rw [hcons]
      exact ⟨c, rfl, isStart_iff.1 hform.1⟩

theorem head?_collapse_true (cs : List Char) : (collapse true cs).head? ≠ some '_' := by
  induction cs with
  | nil =>
    rintro ⟨⟩
  | cons c cs ih =>
    rw [collapse]
    split
    · next hkept =>
      rintro ⟨⟩
      cases hkept
    · exact ih

theorem not_infix_collapse (inRun : Bool) (cs : List Char) : ¬['_', '_'] <:+: collapse inRun cs := by
  induction cs generalizing inRun with
  | nil =>
    rw [collapse, List.infix_nil]
    rintro ⟨⟩
  | cons c cs ih =>
    rw [collapse]
    split
    · next hkept =>
      rw [List.infix_cons_iff, List.cons_prefix_cons]
      rintro (⟨rfl, -⟩ | hrest)
      · cases hkept
      · exact ih false hrest
    · split
      · exact ih true
      · rw [List.infix_cons_iff, List.cons_prefix_cons]
        rintro (⟨-, rest, hrest⟩ | hrest)
        · apply head?_collapse_true cs
          rw [← hrest]
          rfl
        · exact ih true hrest

theorem collapse_eq_self {inRun : Bool} {cs : List Char} (hpart : ∀ c ∈ cs, isPart c) (hsingle : ¬['_', '_'] <:+: cs)
    (hrun : inRun → cs.head? ≠ some '_') : collapse inRun cs = cs := by
  induction cs generalizing inRun with
  | nil => rfl
  | cons c cs ih =>
    have hrest := fun d hd => hpart d (List.mem_cons_of_mem c hd)
    rw [List.infix_cons_iff, not_or] at hsingle
    rw [collapse]
    split
    · rw [ih hrest hsingle.2 fun h => absurd h Bool.false_ne_true]
    · next hkept =>
      cases (isPart_iff_isKept.1 (hpart c List.mem_cons_self)).resolve_left hkept
      have hstart : ¬inRun := fun h => hrun h rfl
      rw [if_neg hstart, ih hrest hsingle.2]
      rintro - hnext
      apply hsingle.1
      obtain ⟨cs, rfl⟩ := List.head?_eq_some_iff.1 hnext
      exact ⟨cs, rfl⟩

theorem guardStart_eq_self {text : String} (h : hasForm text) : guardStart text.toList = text.toList := by
  unfold hasForm at h
  split at h
  · cases h
  · next hcons =>
    rw [Bool.and_eq_true] at h
    rw [hcons, guardStart, if_pos h.1]

theorem compact_ofText {text : String} (h : text ≠ "") : Compact (ofText text) := by
  apply compact_iff.2
  refine ⟨hasForm_ofText h, ?_⟩
  rw [ofText, String.toList_ofList]
  apply not_infix_collapse

theorem ofText_eq_self {text : String} (h : Compact text) : ofText text = text := by
  rw [ofText, guardStart_eq_self (compact_iff.1 h).1, collapse_eq_self, String.ofList_toList]
  · exact fun c hc => isPart_iff.2 (h.part c hc)
  · exact h.single
  · exact fun hrun => absurd hrun Bool.false_ne_true

/--
A text is turned into an identifier without two `_` in a row, and is left alone if it is one or is empty.
-/
theorem ofText_projection (text : String)
    : (text ≠ "" → Compact (ofText text)) ∧
      ofText (ofText text) = ofText text ∧
      (ofText text = text ↔ text = "" ∨ Compact text) := by
  refine ⟨compact_ofText, ?_, ?_⟩
  · by_cases hempty : text = ""
    · rw [hempty]
      rfl
    · exact ofText_eq_self (compact_ofText hempty)
  · constructor
    · intro hfixed
      by_cases hempty : text = ""
      · exact .inl hempty
      · rw [← hfixed]
        exact .inr (compact_ofText hempty)
    · rintro (rfl | hcompact)
      · rfl
      · exact ofText_eq_self hcompact

theorem ofText_projection_sample
    : ofText "1é__b-_ c/" = "_1_b_c_" ∧ Compact (ofText "1é__b-_ c/") ∧ ofText "_1_b_c_" = "_1_b_c_" := by
  have ⟨hcompact, hfixed, _⟩ := ofText_projection "1é__b-_ c/"
  have heq : ofText "1é__b-_ c/" = "_1_b_c_" := by decide
  refine ⟨heq, hcompact (by decide), ?_⟩
  rw [← heq]
  exact hfixed

end ModuleLink.Identifier
