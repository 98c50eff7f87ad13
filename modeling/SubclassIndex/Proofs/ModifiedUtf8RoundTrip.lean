import SubclassIndex.Proofs.ModifiedUtf8Lemmas
import SubclassIndex.Proofs.PairLemmas
import SubclassIndex.Proofs.ScalarLemmas

/-!
# Modified UTF-8 read back

A scalar text is split into halves that are all paired, and only these are joined again
(`Text.isWellPaired_splitPairs`, `Text.joinPairs_splitPairs`). So decoding a text that was encoded
gives it back (`ModifiedUtf8.decode?_encode`).
-/

namespace SubclassIndex

namespace CodePoint

variable {c : CodePoint}

theorem isHighSurrogate_highHalf (c : CodePoint) : c.highHalf.isHighSurrogate = true := by
  rw [isHighSurrogate, Bool.and_eq_true, decide_eq_true_eq, decide_eq_true_eq]
  dsimp only [highHalf]
  omega

theorem isLowSurrogate_lowHalf (c : CodePoint) : c.lowHalf.isLowSurrogate = true := by
  rw [isLowSurrogate, Bool.and_eq_true, decide_eq_true_eq, decide_eq_true_eq]
  dsimp only [lowHalf]
  omega

/-- The halves of a code point beyond U+FFFF make it up again. -/
theorem ofPair_halves (h : 0x10000 ≤ c.val) : ofPair c.highHalf c.lowHalf = c := by
  have hlt := c.isLt
  apply ext
  simp only [ofPair, highHalf, lowHalf]
  omega

end CodePoint

namespace Text

variable {c d : CodePoint} {t : Text}

/-! ## Halves -/

theorem isWellPaired_cons (h : c.isSurrogate = false) :
    isWellPaired (c :: t) = isWellPaired t := by
  rw [isWellPaired, isWellPaired.go, CodePoint.isLowSurrogate_eq_false h,
    CodePoint.isHighSurrogate_eq_false h]
  rfl

theorem isWellPaired_pair (hc : c.isHighSurrogate = true) (hd : d.isLowSurrogate = true) :
    isWellPaired (c :: d :: t) = isWellPaired t := by
  have hlow := CodePoint.isLowSurrogate_of_isHighSurrogate hc
  simp [isWellPaired, isWellPaired.go, hlow, hc, hd]

theorem splitPairs_cons (c : CodePoint) (t : Text) : splitPairs (c :: t) =
    (if c.val < 0x10000 then [c] else [c.highHalf, c.lowHalf]) ++ splitPairs t :=
  List.flatMap_cons

theorem isWellPaired_splitPairs (h : t.IsScalar) : t.splitPairs.isWellPaired = true := by
  induction t with
  | nil => rfl
  | cons c t ih =>
    obtain ⟨hc, ht⟩ := List.forall_mem_cons.1 h
    rw [splitPairs_cons]
    split_ifs
    · rw [List.singleton_append, isWellPaired_cons hc, ih ht]
    · exact (isWellPaired_pair c.isHighSurrogate_highHalf c.isLowSurrogate_lowHalf).trans (ih ht)

/-- Of a scalar text the halves that were split are joined, and nothing else. -/
theorem joinPairs_splitPairs (h : t.IsScalar) : t.splitPairs.joinPairs = t := by
  induction t with
  | nil => rfl
  | cons c t ih =>
    obtain ⟨hc, ht⟩ := List.forall_mem_cons.1 h
    rw [splitPairs_cons]
    split_ifs with hsmall
    · rw [List.singleton_append, joinPairs_cons (not_startsPair hc), ih ht]
    · have hpair : joinPairs ([c.highHalf, c.lowHalf] ++ splitPairs t) =
          .ofPair c.highHalf c.lowHalf :: (splitPairs t).joinPairs :=
        joinPairs_pair c.isHighSurrogate_highHalf c.isLowSurrogate_lowHalf
      rw [hpair, CodePoint.ofPair_halves (Nat.le_of_not_lt hsmall), ih ht]

end Text

namespace ModifiedUtf8

variable {c : CodePoint} {t : Text}

/-! ## Sequences -/

/-- The three bytes of a number below 0x10000. -/
def threeBytes (n : Nat) : Bytes :=
  [(0xE0 + n / 0x1000).toUInt8, (0x80 + n / 0x40 % 0x40).toUInt8, (0x80 + n % 0x40).toUInt8]

/-- The bytes of a character: two for U+0000, one up to U+007F, two up to U+07FF, three up to
U+FFFF, and beyond it three for each of the two surrogates. -/
def sequence (c : CodePoint) : Bytes :=
  let n := c.val
  if n = 0 then [0xC0, 0x80]
  else if n ≤ 0x7F then [n.toUInt8]
  else if n ≤ 0x7FF then [(0xC0 + n / 0x40).toUInt8, (0x80 + n % 0x40).toUInt8]
  else if n ≤ 0xFFFF then threeBytes n
  else threeBytes (0xD800 + (n - 0x10000) / 0x400) ++ threeBytes (0xDC00 + (n - 0x10000) % 0x400)

theorem bytesOf_eq_threeBytes (h : 0x7FF < c.val) (h' : c.val ≤ 0xFFFF) :
    bytesOf c = threeBytes c.val := by
  unfold bytesOf Utf8.bytesOf
  dsimp only
  rw [if_neg (by omega), if_neg (by omega), if_neg (by omega), if_pos (by omega), Nat.div_one]
  rfl

theorem bytesOf_eq_sequence (h : c.val < 0x10000) : bytesOf c = sequence c := by
  unfold bytesOf sequence
  dsimp only
  split_ifs with h₀ h₁ h₂ h₃
  · rfl
  · unfold Utf8.bytesOf
    exact if_pos (by omega)
  · unfold Utf8.bytesOf
    dsimp only
    rw [if_neg (by omega), if_pos (by omega), Nat.div_one]
  · have hbytes := bytesOf_eq_threeBytes (c := c) (by omega) h₃
    rwa [bytesOf, if_neg h₀] at hbytes
  · omega

theorem bytesOf_halves (h : 0x10000 ≤ c.val) :
    bytesOf c.highHalf ++ bytesOf c.lowHalf = sequence c := by
  have hlt := c.isLt
  have hhigh : c.highHalf.val = 0xD800 + (c.val - 0x10000) / 0x400 := by
    dsimp only [CodePoint.highHalf]
    omega
  have hlow : c.lowHalf.val = 0xDC00 + (c.val - 0x10000) % 0x400 := rfl
  rw [bytesOf_eq_threeBytes (by omega) (by omega), bytesOf_eq_threeBytes (by omega) (by omega),
    hhigh, hlow, sequence]
  rw [if_neg (by omega), if_neg (by omega), if_neg (by omega), if_neg (by omega)]

theorem encode_eq (t : Text) : encode t = t.splitPairs.flatMap bytesOf :=
  rfl

/-- The halves of a character have together the bytes of its sequence. -/
theorem flatMap_bytesOf_halves (c : CodePoint) :
    (if c.val < 0x10000 then [c] else [c.highHalf, c.lowHalf]).flatMap bytesOf = sequence c := by
  by_cases hsmall : c.val < 0x10000
  · rw [if_pos hsmall, List.flatMap_singleton, bytesOf_eq_sequence hsmall]
  · rw [if_neg hsmall, List.flatMap_cons, List.flatMap_singleton,
      bytesOf_halves (Nat.le_of_not_lt hsmall)]

theorem encode_eq_flatMap_sequence (t : Text) : encode t = t.flatMap sequence := by
  simp only [encode_eq, Text.splitPairs, List.flatMap_assoc, flatMap_bytesOf_halves]

/-- The bytes of a scalar text are the sequences of its characters, and decoding gives it back. -/
theorem decode?_encode (h : t.IsScalar) :
    encode t = t.flatMap sequence ∧ decode? (t.flatMap sequence) = some t := by
  rw [← encode_eq_flatMap_sequence]
  refine ⟨rfl, ?_⟩
  rw [encode_eq, decode?_flatMap, Text.isWellPaired_splitPairs h, Text.joinPairs_splitPairs h]
  rfl

/-- Two letters with U+0000 between them, and characters of two, three and six bytes. -/
def mixedText : Text := "A\x00@é€😀"

theorem decode?_encode_mixedText :
    Text.IsScalar mixedText ∧
      encode mixedText = [0x41, 0xC0, 0x80, 0x40, 0xC3, 0xA9, 0xE2, 0x82, 0xAC,
        0xED, 0xA0, 0xBD, 0xED, 0xB8, 0x80] ∧
      decode? [0x41, 0xC0, 0x80, 0x40, 0xC3, 0xA9, 0xE2, 0x82, 0xAC,
        0xED, 0xA0, 0xBD, 0xED, 0xB8, 0x80] = some mixedText := by
  have hscalar : Text.IsScalar mixedText := by decide
  obtain ⟨hencode, hdecode⟩ := decode?_encode hscalar
  have hbytes : mixedText.flatMap sequence = [0x41, 0xC0, 0x80, 0x40, 0xC3, 0xA9, 0xE2, 0x82, 0xAC,
      0xED, 0xA0, 0xBD, 0xED, 0xB8, 0x80] := by decide
  exact ⟨hscalar, hencode.trans hbytes, hbytes ▸ hdecode⟩

end ModifiedUtf8

end SubclassIndex
