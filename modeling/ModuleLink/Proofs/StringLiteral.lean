import Mathlib.Tactic.SplitIfs
import ModuleLink.Value.Json

/-!
This module contains the grammar of string literals. The reader reads what the grammar derives and nothing else, and
an escaped text is a literal of itself.
-/

namespace ModuleLink

inductive Spells {α : Type} (spelling : List Char → α → Prop) : List Char → List α → Prop where
  | nil : Spells spelling [] []
  | cons {w text : List Char} {item : α} {items : List α}
      : spelling w item → Spells spelling text items → Spells spelling (w ++ text) (item :: items)

namespace Json

inductive Written : List Char → Char → Prop where
  | plain {c : Char} : 0x20 ≤ c.toNat → c ≠ '"' → c ≠ '\\' → Written [c] c
  | short {e c : Char} : simpleEscape? e = some c → Written ['\\', e] c
  | unit {a b c d : Char} {n : Nat} : hexNumber? [a, b, c, d] = some n → ¬isHighSurrogate n → ¬isLowSurrogate n →
      Written ['\\', 'u', a, b, c, d] (Char.ofNat n)
  | pair {a b c d a' b' c' d' : Char} {n m : Nat} : hexNumber? [a, b, c, d] = some n → isHighSurrogate n →
      hexNumber? [a', b', c', d'] = some m → isLowSurrogate m →
      Written ['\\', 'u', a, b, c, d, '\\', 'u', a', b', c', d']
        (Char.ofNat (0x10000 + (n - 0xD800) * 0x400 + (m - 0xDC00)))

theorem Written.length_pos {w : List Char} {c : Char} (h : Written w c) : 0 < w.length := by
  cases h
  all_goals apply Nat.succ_pos

theorem readString_written {w : List Char} {c : Char} (h : Written w c) (read cs : List Char)
    : readString read (w ++ cs) = readString (c :: read) cs := by
  cases h with
  | plain hcontrol hquote hslash =>
    rw [List.singleton_append, readString.eq_5]
    · rw [if_neg]
      rintro (hlow | hc)
      · omega
      · exact hslash hc
    · exact hquote
    · intro _ _ _ _ _ hc _
      exact hslash hc
    · intro _ _ hc _
      exact hslash hc
  | @short e c he =>
    have hu : e ≠ 'u' := by
      rintro rfl
      cases he
    rw [List.cons_append, List.singleton_append, readString.eq_4]
    · rw [he]
    · intro _ _ _ _ _ hc _
      exact hu hc
  | unit hn hhigh hlow =>
    simp only [List.cons_append, List.nil_append]
    rw [readString.eq_3, hn]
    simp only [if_neg hhigh, if_neg hlow]
  | pair hn hhigh hm hlow =>
    simp only [List.cons_append, List.nil_append]
    rw [readString.eq_3, hn]
    simp only [if_pos hhigh, hm, if_pos hlow]

theorem readString_cases {read cs rest : List Char} {text : String} (h : readString read cs = some (text, rest))
    : (cs = '"' :: rest ∧ text = String.ofList read.reverse) ∨
      ∃ w c cs', Written w c ∧ cs = w ++ cs' ∧ readString (c :: read) cs' = some (text, rest) := by
  unfold readString at h
  split at h
  · cases h
  · cases h
    exact .inl ⟨rfl, rfl⟩
  · split at h
    · cases h
    · next hn =>
      split at h
      · next hhigh =>
        split at h
        · split at h
          · cases h
          · next hm =>
            split at h
            · next hlow => exact .inr ⟨_, _, _, .pair hn hhigh hm hlow, rfl, h⟩
            · cases h
        · cases h
      · next hhigh =>
        split at h
        · cases h
        · next hlow => exact .inr ⟨_, _, _, .unit hn hhigh hlow, rfl, h⟩
  · split at h
    · cases h
    · next he => exact .inr ⟨_, _, _, .short he, rfl, h⟩
  · next c _ hquote _ _ =>
    split at h
    · cases h
    · next hc =>
      simp only [not_or, Nat.not_lt] at hc
      exact .inr ⟨[c], _, _, .plain hc.1 hquote hc.2, rfl, h⟩

theorem readString_eq_some_iff {read cs rest : List Char} {text : String}
    : readString read cs = some (text, rest)
        ↔
      ∃ body value, Spells Written body value ∧ cs = body ++ '"' :: rest ∧
        text = String.ofList (read.reverse ++ value) := by
  constructor
  · intro h
    -- The text gets shorter with every character that is read.
    induction hlen : cs.length using Nat.strongRecOn generalizing read cs with
    | ind _ ih =>
      subst hlen
      rcases readString_cases h with ⟨rfl, rfl⟩ | ⟨w, c, cs, hw, rfl, hrest⟩
      · refine ⟨[], [], .nil, rfl, ?_⟩
        rw [List.append_nil]
      · have hshorter : cs.length < (w ++ cs).length := by
          have := hw.length_pos
          rw [List.length_append]
          omega
        obtain ⟨body, value, hbody, rfl, rfl⟩ := ih _ hshorter hrest rfl
        refine ⟨w ++ body, c :: value, .cons hw hbody, ?_, ?_⟩
        · rw [List.append_assoc]
        · rw [List.reverse_cons, List.append_assoc, List.singleton_append]
  · rintro ⟨body, value, hbody, rfl, rfl⟩
    induction hbody generalizing read with
    | nil => rw [List.append_nil]; rfl
    | cons hw _ ih =>
      rw [List.append_assoc, readString_written hw, ih, List.reverse_cons, List.append_assoc]
      rfl

end Json

namespace JsonString

theorem hexNumber?_hexDigit {n : Nat} (h : n < 0x20)
    : Json.hexNumber? ['0', '0', hexDigit (n / 16), hexDigit (n % 16)] = some n := by
  revert n
  decide

theorem written_escapeChar (c : Char) : Json.Written (escapeChar c) c := by
  unfold escapeChar
  split_ifs with hquote hslash hc hc hc hc hc hcontrol
  iterate 7
    · subst_vars
      exact .short rfl
  · have hhigh : ¬Json.isHighSurrogate c.toNat := by
      simp only [Json.isHighSurrogate, Bool.and_eq_true, decide_eq_true_eq]
      omega
    have hlow : ¬Json.isLowSurrogate c.toNat := by
      simp only [Json.isLowSurrogate, Bool.and_eq_true, decide_eq_true_eq]
      omega
    have hunit := Json.Written.unit (hexNumber?_hexDigit hcontrol) hhigh hlow
    rwa [Char.ofNat_toNat] at hunit
  · apply Json.Written.plain
    · omega
    · exact hquote
    · exact hslash

theorem spells_flatMap_escapeChar (cs : List Char) : Spells Json.Written (cs.flatMap escapeChar) cs := by
  induction cs with
  | nil => exact .nil
  | cons c cs ih =>
    rw [List.flatMap_cons]
    exact .cons (written_escapeChar c) ih

end JsonString

end ModuleLink
