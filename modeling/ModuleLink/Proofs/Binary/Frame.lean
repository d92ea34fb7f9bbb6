import ModuleLink.Proofs.Graph.Storage

/-!
This module contains the proof that what is read of a saved graph is the front of the bytes and does not depend on the
bytes after it. So the bytes of graphs are told from all others by how they begin, and what is left when the end of them
is cut off is not the bytes of a graph.
-/

namespace ModuleLink.Binary

variable {α β : Type}

/--
The bytes are read as `a`, whatever comes after them, if there is as much fuel as there are bytes.
-/
def ReadsFront (d : Nat → Decoder α) (front : Bytes) (a : α) : Prop :=
  ∀ fuel, front.length ≤ fuel → ∀ rest, d fuel (front ++ rest) = some (a, rest)

def FramedBy (e : Nat → Decoder α) (d : Decoder α) : Prop :=
  ∀ bs a rest, d bs = some (a, rest) → ∃ front, bs = front ++ rest ∧ ReadsFront e front a

/--
What is read is the front of the bytes and does not depend on the bytes after it.
-/
def Framed (d : Decoder α) : Prop := FramedBy (fun _ => d) d

theorem bind_eq_some {d : Decoder α} {f : α → Decoder β} {bs : Bytes} {x : β × Bytes} (h : (d >>= f) bs = some x)
    : ∃ a rest, d bs = some (a, rest) ∧ f a rest = some x := by
  change (d bs >>= fun p => f p.1 p.2) = some x at h
  obtain ⟨⟨a, rest⟩, hd, hf⟩ := Option.bind_eq_some_iff.1 h
  exact ⟨a, rest, hd, hf⟩

theorem ReadsFront.bind {e : Nat → Decoder α} {g : Nat → α → Decoder β} {front front' : Bytes} {a : α} {b : β}
    (h : ReadsFront e front a) (h' : ReadsFront (g · a) front' b)
    : ReadsFront (fun fuel => e fuel >>= g fuel) (front ++ front') b := by
  intro fuel hfuel rest
  rw [List.length_append] at hfuel
  rw [List.append_assoc]
  refine (bind_eq_of_some (h fuel (by omega) _)).trans ?_
  exact h' fuel (by omega) rest

namespace FramedBy

variable {e : Nat → Decoder α} {d : Decoder α} {f : α → Decoder β} {g : Nat → α → Decoder β}

theorem bind (h : FramedBy e d) (hf : ∀ a, FramedBy (g · a) (f a))
    : FramedBy (fun fuel => e fuel >>= g fuel) (d >>= f) := by
  intro bs b rest hbind
  obtain ⟨a, mid, hd, hrest⟩ := bind_eq_some hbind
  obtain ⟨front, rfl, hfront⟩ := h bs a mid hd
  obtain ⟨front', rfl, hfront'⟩ := hf a mid b rest hrest
  exact ⟨front ++ front', (List.append_assoc ..).symm, hfront.bind hfront'⟩

theorem pure (a : α) : FramedBy (fun _ => (Pure.pure a : Decoder α)) (Pure.pure a) := by
  intro bs b rest h
  cases h
  exact ⟨[], rfl, fun _ _ _ => rfl⟩

theorem failure : FramedBy e (Alternative.failure : Decoder α) := by
  intro bs a rest h
  cases h

theorem decodeMany {e : Nat → Decoder α} (h : FramedBy e d) (n : Nat)
    : FramedBy (fun fuel => Codec.decodeMany (e fuel) n) (Codec.decodeMany d n) := by
  induction n with
  | zero => exact pure []
  | succ n ih => exact h.bind fun a => ih.bind fun as => pure (a :: as)

end FramedBy

namespace Framed

theorem bind {d : Decoder α} {f : α → Decoder β} (h : Framed d) (hf : ∀ a, Framed (f a)) : Framed (d >>= f) :=
  FramedBy.bind h hf

theorem pure (a : α) : Framed (Pure.pure a) := FramedBy.pure a

theorem failure : Framed (Alternative.failure : Decoder α) := FramedBy.failure

theorem ite {c : Prop} [Decidable c] {d e : Decoder α} (hd : Framed d) (he : Framed e)
    : Framed (if c then d else e) := by
  split
  · exact hd
  · exact he

theorem byte : Framed Binary.byte := by
  intro bs taken rest h
  cases bs with
  | nil => cases h
  | cons b bs =>
    cases h
    exact ⟨[taken], rfl, fun _ _ _ => rfl⟩

theorem chunk (n : Nat) : Framed (Binary.chunk n) := by
  intro bs taken rest h
  unfold Binary.chunk at h
  split at h
  · next hn =>
    rw [List.splitAt_eq] at h
    cases h
    refine ⟨bs.take n, (List.take_append_drop n bs).symm, ?_⟩
    exact fun _ _ rest => chunk_append (List.length_take_of_le hn) rest
  · cases h

theorem decodeNat (width : Nat) : Framed (Binary.decodeNat width) := by
  have hsized (w : Nat) : Framed (do
      if width < w then Alternative.failure
      return ofLittleEndian (← Binary.chunk w) : Decoder Nat) := by
    refine ite (failure.bind fun _ => ?_) ?_
    all_goals exact (chunk w).bind fun bs => pure _
  refine byte.bind fun b => ?_
  exact ite (pure _) (ite (hsized 2) (ite (hsized 4) (ite (hsized 8) failure)))

section Codec

variable {c : Codec α} {d : Codec β}

theorem word : Framed Codec.word.decode := decodeNat 4

theorem length : Framed Codec.length.decode := decodeNat 8

theorem signed : Framed Codec.signed.decode := (decodeNat 4).bind fun _ => pure _

theorem bool : Framed Codec.bool.decode := byte.bind fun _ => ite (pure _) (ite (pure _) failure)

theorem map (h : Framed c.decode) {build : α → β} {part : β → α} : Framed (c.map build part).decode :=
  h.bind fun _ => pure _

theorem option (h : Framed c.decode) : Framed c.option.decode :=
  byte.bind fun _ => ite (pure _) (ite (h.bind fun _ => pure _) failure)

theorem pair (hc : Framed c.decode) (hd : Framed d.decode) : Framed (c.pair d).decode :=
  hc.bind fun _ => hd.bind fun _ => pure _

theorem list (h : Framed c.decode) : Framed c.list.decode := length.bind fun n => FramedBy.decodeMany h n

theorem array (h : Framed c.decode) : Framed c.array.decode := h.list.map

theorem distinct [BEq α] (h : Framed c.decode) : Framed c.distinct.decode := h.list.map

theorem dict [BEq α] (hc : Framed c.decode) (hd : Framed d.decode) : Framed (c.dict d).decode := (hc.pair hd).list.map

theorem text : Framed Codec.text.decode := by
  refine length.bind fun n => (chunk n).bind fun bs => ?_
  split
  · exact pure _
  · exact failure

theorem choice [BEq α] {values : List α} : Framed (Codec.choice values).decode := by
  refine (decodeNat 4).bind fun n => ?_
  split
  · exact pure _
  · exact failure

theorem moduleId : Framed Codec.moduleId.decode := text.map

theorem dependencyId : Framed Codec.dependencyId.decode := word.map

theorem connectionId : Framed Codec.connectionId.decode := word.map

theorem descriptorId : Framed Codec.descriptorId.decode := word.map

theorem recordId : Framed Codec.recordId.decode := word.map

theorem runtimes : Framed Codec.runtimes.decode := text.list.map

theorem outputName : Framed Codec.outputName.decode := by
  refine (decodeNat 4).bind fun n => ?_
  split
  · exact pure _
  · exact text.bind fun _ => pure _
  · exact pure _
  · exact failure

end Codec

end Framed

def conditionAfter (inner : Decoder Condition) : Nat → Decoder Condition
  | 0 => return .always
  | 1 => return .never
  | 2 => return .inRuntimes (← Codec.runtimes.decode)
  | 3 => return .transitiveOnly
  | 4 => return .all (← Codec.decodeMany inner (← Codec.length.decode))
  | _ => failure

theorem decodeCondition_succ (fuel : Nat)
    : Codec.decodeCondition (fuel + 1) = decodeNat 4 >>= conditionAfter (Codec.decodeCondition fuel) := rfl

theorem FramedBy.conditionAfter {e : Nat → Decoder Condition} {inner : Decoder Condition} (h : FramedBy e inner)
    (kind : Nat)
    : FramedBy (fun fuel => Binary.conditionAfter (e fuel) kind) (Binary.conditionAfter inner kind) := by
  match kind with
  | 0 | 1 | 3 => exact pure _
  | 2 => exact bind Framed.runtimes fun _ => pure _
  | 4 => exact bind Framed.length fun n => (h.decodeMany n).bind fun _ => pure _
  | n + 5 => exact failure

theorem FramedBy.decodeCondition (fuel : Nat) : FramedBy Codec.decodeCondition (Codec.decodeCondition fuel) := by
  -- Every level of a condition takes a byte of its own, so that the number of its bytes is enough fuel.
  induction fuel with
  | zero => exact failure
  | succ fuel ih =>
    intro bs c rest h
    obtain ⟨kind, mid, hkind, hc⟩ := bind_eq_some h
    obtain ⟨front, rfl, hfront⟩ := Framed.decodeNat 4 bs kind mid hkind
    obtain ⟨front', rfl, hfront'⟩ := ih.conditionAfter kind mid c rest hc
    have hpos : 0 < front.length := by
      cases front with
      | nil => cases hfront 0 (Nat.le_refl 0) []
      | cons => exact Nat.succ_pos _
    refine ⟨front ++ front', (List.append_assoc ..).symm, ?_⟩
    intro fuel hfuel rest
    rw [List.length_append] at hfuel
    cases fuel with
    | zero => omega
    | succ fuel =>
      rw [decodeCondition_succ, List.append_assoc, bind_eq_of_some (hfront _ (Nat.le_refl _) _)]
      exact hfront' fuel (by omega) rest

namespace Framed

theorem condition : Framed Codec.condition.decode := by
  intro bs c rest h
  obtain ⟨front, rfl, hfront⟩ := FramedBy.decodeCondition bs.length bs c rest h
  refine ⟨front, rfl, fun _ _ rest => hfront _ ?_ rest⟩
  rw [List.length_append]
  apply Nat.le_add_right

theorem buildMeta : Framed Codec.buildMeta.decode :=
  choice.option.bind fun _ => choice.bind fun _ => bool.bind fun _ => pure _

theorem module : Framed Codec.module.decode :=
  moduleId.bind fun _ => buildMeta.bind fun _ => bool.bind fun _ => bool.bind fun _ => pure _

theorem node : Framed Codec.node.decode := by
  refine connectionId.distinct.bind fun _ => connectionId.distinct.option.bind fun _ => descriptorId.bind fun _ => ?_
  refine dependencyId.list.bind fun _ => moduleId.option.bind fun _ => word.option.bind fun _ => ?_
  refine word.option.bind fun _ => word.option.bind fun _ => bool.bind fun _ => ?_
  exact text.list.bind fun _ => pure _

theorem dependency : Framed Codec.dependency.decode := by
  refine text.bind fun _ => text.list.bind fun _ => bool.bind fun _ => bool.bind fun _ => ?_
  exact condition.bind fun _ => pure _

theorem declared : Framed Codec.declared.decode :=
  dependency.bind fun _ => moduleId.option.bind fun _ => pure _

theorem connection : Framed Codec.connection.decode := by
  refine connectionId.bind fun _ => moduleId.option.bind fun _ => moduleId.option.bind fun _ => ?_
  refine dependencyId.option.bind fun _ => moduleId.bind fun _ => moduleId.bind fun _ => ?_
  refine bool.bind fun _ => bool.bind fun _ => bool.bind fun _ => condition.option.bind fun _ => ?_
  exact text.distinct.bind fun _ => pure _

theorem exportTarget : Framed Codec.exportTarget.decode :=
  connectionId.bind fun _ => text.list.option.bind fun _ => signed.bind fun _ => pure _

theorem exportRecord : Framed Codec.exportRecord.decode := by
  refine text.option.bind fun _ => choice.bind fun _ => choice.bind fun _ => bool.option.bind fun _ => ?_
  refine bool.option.bind fun _ => outputName.bind fun _ => bool.bind fun _ => ?_
  refine (dependencyId.dict exportTarget).bind fun _ => descriptorId.option.bind fun _ => ?_
  exact bool.bind fun _ => pure _

theorem descriptor : Framed Codec.descriptor.decode := by
  refine (text.dict recordId).bind fun _ => recordId.bind fun _ => recordId.bind fun _ => ?_
  exact descriptorId.option.bind fun _ => recordId.option.bind fun _ => pure _

theorem arena : Framed Codec.arena.decode :=
  descriptor.array.bind fun _ => exportRecord.array.bind fun _ => pure _

theorem graph : Framed Codec.graph.decode := by
  refine (moduleId.dict module).bind fun _ => (moduleId.dict node).bind fun _ => declared.array.bind fun _ => ?_
  refine connection.option.array.bind fun _ => (dependencyId.dict connectionId).bind fun _ => ?_
  exact arena.bind fun _ => pure _

end Framed
end ModuleLink.Binary

namespace ModuleLink

open Binary

namespace Graph

def IsForm (bytes : Bytes) : Prop := ∃ g : Graph, ∀ rest, Codec.graph.decode (bytes ++ rest) = some (g, rest)

variable {bytes form : Bytes}

theorem isForm_of_decode {g : Graph} {rest : Bytes} (h : Codec.graph.decode bytes = some (g, rest))
    : ∃ form, IsForm form ∧ bytes = form ++ rest := by
  obtain ⟨form, hbytes, hform⟩ := Framed.graph bytes g rest h
  exact ⟨form, ⟨g, hform form.length (Nat.le_refl _)⟩, hbytes⟩

theorem Storable.isForm {g : Graph} (h : g.Storable) (hlen : (Codec.graph.encode g).length < lengthLimit)
    : IsForm (Codec.graph.encode g) := by
  have hdecode := (Codec.Rereads.graph h).decode [] (by rwa [List.append_nil])
  rw [List.append_nil] at hdecode
  obtain ⟨form, hform, hbytes⟩ := isForm_of_decode hdecode
  rw [hbytes, List.append_nil]
  exact hform

theorem IsForm.eq_of_prefix {form' : Bytes} (h : IsForm form) (h' : IsForm form') (hbegin : form' <+: form)
    : form' = form := by
  obtain ⟨g, hg⟩ := h
  obtain ⟨g', hg'⟩ := h'
  obtain ⟨rest, rfl⟩ := hbegin
  have hread := hg []
  rw [List.append_nil, hg'] at hread
  cases hread
  rw [List.append_nil]

section Version

variable {v : Nat} {rest : Bytes}

theorem decode_word_pair (hv : v < wordLimit) (rest : Bytes)
    : (Codec.word.pair Codec.graph).decode (Codec.word.encode v ++ rest)
        = (Codec.graph.decode rest).map fun p => ((v, p.1), p.2) := by
  refine (bind_eq_of_some (decodeNat_encodeNat (.inl ⟨Nat.le_refl 4, hv⟩) rest)).trans ?_
  change (Codec.graph.decode rest >>= fun p => some ((v, p.1), p.2)) = _
  cases Codec.graph.decode rest with
  | none => rfl
  | some p => rfl

theorem ofBytes_of_none (hv : v < wordLimit) (h : Codec.graph.decode rest = none)
    : ofBytes (Codec.word.encode v ++ rest) = .error .malformed := by
  unfold ofBytes
  rw [decode_word_pair hv, h]
  rfl

theorem ofBytes_of_some {g : Graph} {tail : Bytes} (hv : v < wordLimit) (h : Codec.graph.decode rest = some (g, tail))
    : ofBytes (Codec.word.encode v ++ rest)
        = if v = formatVersion then .ok g else .error (.incompatibleFormat formatVersion v) := by
  unfold ofBytes
  rw [decode_word_pair hv, h]
  rfl

end Version

/--
Bytes of another version are reported as such exactly if what comes after the version begins with the form of a graph in
the current layout, and as malformed otherwise. The bytes of a saved graph are such a form, and no beginning of a form
has a form at its own beginning. Bytes of the current version are never reported as those of another one.
-/
theorem ofBytes_version {v : Nat} (hv : v < wordLimit) (rest : Bytes)
    : (v ≠ formatVersion →
        ((∃ form, IsForm form ∧ form <+: rest) →
          ofBytes (Codec.word.encode v ++ rest) = .error (.incompatibleFormat formatVersion v)) ∧
        ((¬∃ form, IsForm form ∧ form <+: rest) → ofBytes (Codec.word.encode v ++ rest) = .error .malformed)) ∧
      (v = formatVersion →
        ∀ expected found, ofBytes (Codec.word.encode v ++ rest) ≠ .error (.incompatibleFormat expected found)) ∧
      (∀ g : Graph, g.Storable → (Codec.graph.encode g).length < lengthLimit → IsForm (Codec.graph.encode g)) ∧
      ∀ form, IsForm form → ∀ part, part <+: form → part ≠ form → ¬∃ form', IsForm form' ∧ form' <+: part := by
  refine ⟨fun hother => ⟨?recognised, ?missed⟩, ?current, fun g => Storable.isForm, ?cut⟩
  case recognised =>
    rintro ⟨form, ⟨g, hg⟩, tail, rfl⟩
    rw [ofBytes_of_some hv (hg tail), if_neg hother]
  case missed =>
    intro hnone
    cases hdecode : Codec.graph.decode rest with
    | none => exact ofBytes_of_none hv hdecode
    | some p =>
      obtain ⟨form, hform, hbytes⟩ := isForm_of_decode hdecode
      exact absurd ⟨form, hform, p.2, hbytes.symm⟩ hnone
  case current =>
    intro hcurrent expected found
    cases hdecode : Codec.graph.decode rest with
    | none =>
      rw [ofBytes_of_none hv hdecode]
      simp
    | some p =>
      rw [ofBytes_of_some hv hdecode, if_pos hcurrent]
      simp
  case cut =>
    rintro form hform part hpart hne ⟨form', hform', hbegin⟩
    -- The shorter form would be all of the longer one.
    cases hform.eq_of_prefix hform' (hbegin.trans hpart)
    exact hne (hpart.eq_of_length_le hbegin.length_le)

/--
A version alone is malformed, so that another version is not recognised by it.
-/
theorem ofBytes_misses_version
    : 99 < wordLimit ∧ 99 ≠ formatVersion ∧ ofBytes (Codec.word.encode 99 ++ []) = .error .malformed ∧
      ofBytes (Codec.word.encode 99 ++ []) ≠ .error (.incompatibleFormat formatVersion 99) := by
  have hnone : ofBytes (Codec.word.encode 99 ++ []) = .error .malformed := rfl
  refine ⟨by decide, by decide, hnone, ?_⟩
  rw [hnone]
  simp

end Graph

theorem Graph.ofBytes_version_sample
    : 99 < wordLimit ∧ 99 ≠ formatVersion ∧ Sample.archived.Storable ∧
      ofBytes (Codec.word.encode 99 ++ Codec.graph.encode Sample.archived)
        = .error (.incompatibleFormat formatVersion 99) ∧
      ofBytes (Codec.word.encode 99 ++ (Codec.graph.encode Sample.archived).dropLast) = .error .malformed := by
  have hlimit : 99 < wordLimit := by decide
  have hother : 99 ≠ formatVersion := by decide
  have hstorable := Sample.archived_reachable.storable Sample.archived_fits
  have hlen : (Codec.graph.encode Sample.archived).length < lengthLimit := by
    have hbytes := Sample.archived_fits.bytes
    rw [toBytes, List.length_append] at hbytes
    omega
  have ⟨hwhole, _, hforms, hcuts⟩ := ofBytes_version hlimit (Codec.graph.encode Sample.archived)
  have ⟨hcut, _, _, _⟩ := ofBytes_version hlimit (Codec.graph.encode Sample.archived).dropLast
  have hform := hforms _ hstorable hlen
  refine ⟨hlimit, hother, hstorable, (hwhole hother).1 ⟨_, hform, List.prefix_rfl⟩, (hcut hother).2 ?_⟩
  refine hcuts _ hform _ (List.dropLast_prefix _) fun heq => ?_
  have hlength := congrArg List.length heq
  have hpos := List.length_pos_iff.2 (Codec.Rereads.graph hstorable).nonempty
  rw [List.length_dropLast] at hlength
  omega

end ModuleLink
