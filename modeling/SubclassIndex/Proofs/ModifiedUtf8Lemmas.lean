import SubclassIndex.Proofs.Utf8Lemmas
import SubclassIndex.Text.ModifiedUtf8

/-!
# Reading modified UTF-8

Modified UTF-8 departs from UTF-8 in the bytes of U+0000 only, once the surrogates count as code
points. As `C0` begins no other sequence, the zero bytes are restored where they belong
(`restoreNul_flatMap`), and the reader of UTF-8 does the rest (`decode?_flatMap`).
-/

namespace SubclassIndex.ModifiedUtf8

variable {c : CodePoint} {front rest done : Bytes}

/-- The bytes of a code point, a surrogate being written like any other. -/
def bytesOf (c : CodePoint) : Bytes := if c.val = 0 then [0xC0, 0x80] else Utf8.bytesOf c

/-! ## The lead byte of U+0000 -/

/-- A byte of a sequence of UTF-8 is the code point itself or no byte of ASCII. -/
theorem toNat_of_mem {b : UInt8} (h : b ∈ Utf8.bytesOf c) :
    b.toNat = c.val ∧ c.val < 0x80 ∨ 0x80 ≤ b.toNat ∧ b.toNat ≠ 0xC0 := by
  have hlt := c.isLt
  have hlead : ∀ n, 0x80 ≤ n → n < 256 → n ≠ 0xC0 →
      0x80 ≤ n.toUInt8.toNat ∧ n.toUInt8.toNat ≠ 0xC0 := by
    intro n hlow hhigh hne
    rw [Utf8.toNat_toUInt8 hhigh]
    exact ⟨hlow, hne⟩
  have htail : ∀ n, 0x80 ≤ (0x80 + n % 64).toUInt8.toNat ∧ (0x80 + n % 64).toUInt8.toNat ≠ 0xC0 := by
    intro n
    exact hlead _ (by omega) (by omega) (by omega)
  unfold Utf8.bytesOf at h
  dsimp only at h
  split_ifs at h with hone htwo hthree
  all_goals simp only [List.mem_cons, List.not_mem_nil, or_false] at h
  · left
    rw [h, Utf8.toNat_toUInt8 (by omega)]
    exact ⟨rfl, hone⟩
  all_goals right
  · rcases h with rfl | rfl
    · exact hlead _ (by omega) (by omega) (by omega)
    · exact htail _
  · rcases h with rfl | rfl | rfl
    · exact hlead _ (by omega) (by omega) (by omega)
    all_goals exact htail _
  · rcases h with rfl | rfl | rfl | rfl
    · exact hlead _ (by omega) (by omega) (by omega)
    all_goals exact htail _

/-- No sequence of UTF-8 has the lead byte of U+0000 in it. -/
theorem ne_lead_of_mem {b : UInt8} (h : b ∈ Utf8.bytesOf c) : b ≠ 0xC0 := by
  rintro rfl
  rcases toNat_of_mem h with ⟨hval, hlt⟩ | ⟨_, hne⟩
  · rw [← hval] at hlt
    exact absurd hlt (by decide)
  · exact hne rfl

/-! ## Zero bytes -/

theorem restoreNul_go_append (h : ∀ b ∈ front, b ≠ 0xC0) :
    restoreNul.go false (front ++ rest) done = restoreNul.go false rest (front.reverse ++ done) := by
  induction front generalizing done with
  | nil => rfl
  | cons b front ih =>
    have hb : (b == 0xC0) = false := beq_eq_false_iff_ne.2 (h b List.mem_cons_self)
    have hfront : ∀ b ∈ front, b ≠ 0xC0 := fun b hmem => h b (List.mem_cons_of_mem _ hmem)
    have hstep : restoreNul.go false (b :: front ++ rest) done =
        restoreNul.go false (front ++ rest) (b :: done) := by
      simp [restoreNul.go, hb]
    rw [hstep, ih hfront, List.reverse_cons, List.append_assoc]
    rfl

theorem restoreNul_go_flatMap (t : Text) : restoreNul.go false (t.flatMap bytesOf) done =
    done.reverse ++ t.flatMap Utf8.bytesOf := by
  induction t generalizing done with
  | nil => exact (List.append_nil _).symm
  | cons c t ih =>
    rw [List.flatMap_cons, List.flatMap_cons]
    by_cases hzero : c.val = 0
    · have hnul : Utf8.bytesOf c = [0] := by
        unfold Utf8.bytesOf
        rw [hzero]
        rfl
      have hstep : restoreNul.go false (bytesOf c ++ t.flatMap bytesOf) done =
          restoreNul.go false (t.flatMap bytesOf) (0 :: done) := by
        rw [bytesOf, if_pos hzero]
        rfl
      rw [hstep, ih, hnul, List.reverse_cons, List.append_assoc]
    · rw [bytesOf, if_neg hzero, restoreNul_go_append fun _ hb => ne_lead_of_mem hb, ih,
        List.reverse_append, List.reverse_reverse, List.append_assoc]

theorem restoreNul_flatMap (t : Text) :
    restoreNul (t.flatMap bytesOf) = t.flatMap Utf8.bytesOf :=
  restoreNul_go_flatMap t

/-! ## Texts -/

/-- The code points that were written are read, their pairs joined if all of them are paired. -/
theorem decode?_flatMap (t : Text) :
    decode? (t.flatMap bytesOf) = some (if t.isWellPaired then t.joinPairs else t) := by
  rw [decode?, restoreNul_flatMap, Utf8.decode?_flatMap_bytesOf fun _ _ => .inl rfl]
  rfl

end SubclassIndex.ModifiedUtf8
