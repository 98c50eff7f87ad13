import SubclassIndex.Proofs.ModifiedUtf8Lemmas
import SubclassIndex.Proofs.Utf8Exact

/-!
# What modified UTF-8 accepts

Bytes are read as a text exactly if they are made up of the sequences of the encoding, which are
`C0 80` and the sequences of UTF-8 for all code points (`decode?_eq_none_iff`). Restoring the zero
bytes keeps the sequences apart, because a zero byte is a sequence of its own.
-/

namespace SubclassIndex.ModifiedUtf8

variable {b : UInt8} {c : CodePoint} {t : Text} {bytes front rest done : Bytes}

/-- Sequences one after another. A plain zero byte, lone surrogates and sequences of four bytes are
among them. -/
inductive Encoded : Bytes → Prop
  | nil : Encoded []
  | zero {rest : Bytes} : Encoded rest → Encoded (0xC0 :: 0x80 :: rest)
  | point (c : CodePoint) {rest : Bytes} : Encoded rest → Encoded (Utf8.bytesOf c ++ rest)

/-! ## Sequences and zero bytes -/

theorem bytesOf_zero (h : c.val = 0) : Utf8.bytesOf c = [0] := by
  unfold Utf8.bytesOf
  rw [h]
  rfl

theorem ne_zero_of_mem (hc : c.val ≠ 0) (h : b ∈ Utf8.bytesOf c) : b ≠ 0 := by
  rintro rfl
  rcases toNat_of_mem h with ⟨hval, _⟩ | ⟨hlow, _⟩
  · exact hc hval.symm
  · exact absurd hlow (by decide)

/-! ## Restoring the zero bytes -/

theorem restoreNul_go_done (held : Bool) (bytes done : Bytes) :
    restoreNul.go held bytes done = done.reverse ++ restoreNul.go held bytes [] := by
  induction bytes generalizing held done with
  | nil => cases held <;> simp [restoreNul.go]
  | cons b bytes ih =>
    have hcons : ∀ held b done, restoreNul.go held bytes (b :: done) =
        done.reverse ++ b :: restoreNul.go held bytes [] := by
      intro held b done
      rw [ih held (b :: done), List.reverse_cons, List.append_assoc]
      rfl
    unfold restoreNul.go
    dsimp only
    split_ifs <;> simp [hcons, ih _ done]

theorem restoreNul_append (h : ∀ b ∈ front, b ≠ 0xC0) :
    restoreNul (front ++ rest) = front ++ restoreNul rest := by
  unfold restoreNul
  rw [restoreNul_go_append h, restoreNul_go_done, List.append_nil, List.reverse_reverse]

theorem restoreNul_zero (rest : Bytes) : restoreNul (0xC0 :: 0x80 :: rest) = 0 :: restoreNul rest :=
  restoreNul_go_done false rest [0]

/-- The first byte stays, or it begins the sequence of U+0000. -/
theorem restoreNul_cons (b : UInt8) (rest : Bytes) :
    (∃ rest', b :: rest = 0xC0 :: 0x80 :: rest') ∨ restoreNul (b :: rest) = b :: restoreNul rest := by
  by_cases hb : b = 0xC0
  · subst hb
    cases rest with
    | nil => exact .inr rfl
    | cons b' rest =>
      by_cases hb' : b' = 0x80
      · left
        exact ⟨rest, by rw [hb']⟩
      · right
        have hne : (b' == 0x80) = false := beq_eq_false_iff_ne.2 hb'
        by_cases hlead : b' = 0xC0
        · subst hlead
          exact restoreNul_go_done true rest [0xC0]
        · have hlead : (b' == 0xC0) = false := beq_eq_false_iff_ne.2 hlead
          have hheld : restoreNul (0xC0 :: b' :: rest) = restoreNul.go false rest [b', 0xC0] := by
            simp [restoreNul, restoreNul.go, hne, hlead]
          have hstep : restoreNul (b' :: rest) = restoreNul.go false rest [b'] := by
            simp [restoreNul, restoreNul.go, hlead]
          rw [hheld, hstep, restoreNul_go_done, restoreNul_go_done false rest [b']]
          rfl
  · right
    have hfront : ∀ b' ∈ [b], b' ≠ 0xC0 := by
      intro b' hmem
      rwa [List.mem_singleton.1 hmem]
    exact restoreNul_append hfront

/-- Bytes that are not zero stand where they stood before. -/
theorem exists_append_of_restoreNul {tail : Bytes} (hfront : ∀ b ∈ front, b ≠ 0)
    (h : restoreNul bytes = front ++ tail) :
    ∃ rest, bytes = front ++ rest ∧ restoreNul rest = tail := by
  induction front generalizing bytes with
  | nil => exact ⟨bytes, rfl, h⟩
  | cons b front ih =>
    cases bytes with
    | nil => cases h
    | cons b' bytes =>
      rcases restoreNul_cons b' bytes with ⟨rest, hzero⟩ | hstays
      · rw [hzero, restoreNul_zero] at h
        injection h with hhead
        exact absurd hhead.symm (hfront b List.mem_cons_self)
      · rw [hstays] at h
        injection h with hhead htail
        obtain ⟨rest, rfl, hrest⟩ := ih (fun b hb => hfront b (List.mem_cons_of_mem _ hb)) htail
        exact ⟨rest, by rw [hhead, List.cons_append], hrest⟩

theorem encoded_of_restoreNul (h : restoreNul bytes = t.flatMap Utf8.bytesOf) : Encoded bytes := by
  induction t generalizing bytes with
  | nil =>
    cases bytes with
    | nil => exact .nil
    | cons b bytes =>
      rcases restoreNul_cons b bytes with ⟨rest, hzero⟩ | hstays
      · rw [hzero, restoreNul_zero] at h
        cases h
      · rw [hstays] at h
        cases h
  | cons c t ih =>
    rw [List.flatMap_cons] at h
    by_cases hc : c.val = 0
    · -- a zero byte was there before, or it stands for `C0 80`
      rw [bytesOf_zero hc] at h
      cases bytes with
      | nil => cases h
      | cons b bytes =>
        rcases restoreNul_cons b bytes with ⟨rest, hzero⟩ | hstays
        · rw [hzero, restoreNul_zero] at h
          rw [hzero]
          injection h with _ htail
          exact (ih htail).zero
        · rw [hstays] at h
          injection h with hhead htail
          have hpoint := (ih htail).point c
          rwa [bytesOf_zero hc, ← hhead] at hpoint
    · obtain ⟨rest, rfl, hrest⟩ := exists_append_of_restoreNul (fun b hb => ne_zero_of_mem hc hb) h
      exact (ih hrest).point c

theorem Encoded.exists_text (h : Encoded bytes) :
    ∃ t : Text, restoreNul bytes = t.flatMap Utf8.bytesOf := by
  induction h with
  | nil => exact ⟨[], rfl⟩
  | @zero rest _ ih =>
    obtain ⟨t, ht⟩ := ih
    refine ⟨⟨0, by decide⟩ :: t, ?_⟩
    rw [restoreNul_zero, ht]
    rfl
  | @point c rest _ ih =>
    obtain ⟨t, ht⟩ := ih
    refine ⟨c :: t, ?_⟩
    rw [restoreNul_append fun b hb => ne_lead_of_mem hb, ht, List.flatMap_cons]

theorem decode?_eq_none_iff : decode? bytes = none ↔ ¬Encoded bytes := by
  rw [decode?, Option.map_eq_none_iff]
  constructor
  · intro hnone hencoded
    obtain ⟨t, ht⟩ := hencoded.exists_text
    rw [ht, Utf8.decode?_flatMap_bytesOf fun _ _ => .inl rfl] at hnone
    cases hnone
  · intro hnot
    cases hread : Utf8.decode? .codePoints (restoreNul bytes) with
    | none => rfl
    | some t => exact absurd (encoded_of_restoreNul (Utf8.decode?_eq_some.1 hread).2.symm) hnot

end SubclassIndex.ModifiedUtf8
