import SubclassIndex.Proofs.Properties.Format
import SubclassIndex.Proofs.TextLemmas

/-!
# Entries by the format

A logical line in which each unit has its four digits is spelled sign by sign (`Format.Spells`), and
where its signs are cut the reader cuts it too. So the reader finds the entry that the format names
(`Format.entryOf_of_entry?`).
-/

namespace SubclassIndex.Properties

variable {line t rest : Text} {c d h₁ h₂ h₃ h₄ : CodePoint}

/-! ## Unescaping step by step -/

theorem unescape_go_eq_drop (n : Nat) (t : Text) : unescape.go n t = unescape (t.drop n) := by
  induction n generalizing t with
  | zero => rfl
  | succ n ih =>
    cases t with
    | nil => rfl
    | cons c t => exact ih t

theorem unescape_cons (hc : c ≠ '\\') : unescape (c :: t) = c :: unescape t := by
  cases t with
  | nil => rfl
  | cons d t => exact if_neg hc

theorem unescape_escape (d : CodePoint) (rest : Text) :
    unescape ('\\' :: d :: rest) =
      (escapeMeaning d rest).1 :: unescape ((d :: rest).drop (escapeMeaning d rest).2) := by
  rw [← unescape_go_eq_drop, unescape, unescape.go, if_pos rfl]

/-! ## Cutting step by step -/

theorem splitKey_cons_of_ends (h : (isSeparator c || isSpace c) = true) :
    splitKey (c :: rest) = ([], c :: rest) := by
  rw [splitKey, splitKey.go, Bool.not_false, Bool.true_and, if_pos h]

theorem splitKey_cons (h : (isSeparator c || isSpace c) = false) (hc : c ≠ '\\') :
    splitKey (c :: rest) = (c :: (splitKey rest).1, (splitKey rest).2) := by
  rw [splitKey, splitKey.go, h, Bool.and_false, if_neg Bool.false_ne_true, decide_eq_false hc]
  rfl

theorem splitKey_escape (d : CodePoint) (rest : Text) : splitKey (.ofChar '\\' :: d :: rest) =
    (.ofChar '\\' :: d :: (splitKey rest).1, (splitKey rest).2) := rfl

namespace Format

variable {v : Nat} {unit : CodePoint} {signs : List Sign}

/-! ## Digits of base sixteen -/

/-- What the lenient reader of integers sees in a digit of base sixteen, and that the digit ends
neither a key nor a sign. -/
structure HexDigit (c : CodePoint) (v : Nat) : Prop where
  digitValue : Text.digitValue? c = some v
  lt : v < 16
  not_blank : Text.isIntegerBlank c = false
  ne_minus : c ≠ '-'
  ne_plus : c ≠ '+'
  ne_underscore : c ≠ '_'
  ne_baseLetter : c.toLowerAscii ≠ 'x'
  not_separator : isSeparator c = false
  not_space : isSpace c = false
  ne_backslash : c ≠ '\\'
  printable : c.between ' ' '~' = true

theorem hexDigit (h : hexValue? c = some v) : HexDigit c v := by
  have hascii : c.val < 128 := by
    unfold hexValue? at h
    by_cases hrange : c.between '0' '9' = true ∨ c.between 'a' 'f' = true ∨ c.between 'A' 'F' = true
    · simp only [CodePoint.between, Bool.and_eq_true, decide_eq_true_eq] at hrange
      simp at hrange
      omega
    · simp only [not_or] at hrange
      rw [if_neg hrange.1, if_neg hrange.2.1, if_neg hrange.2.2] at h
      cases h
  have hall : ∀ n : Fin 128, ∀ c ∈ CodePoint.ofNat? n, ∀ v ∈ hexValue? c,
      Text.digitValue? c = some v ∧ v < 16 ∧ Text.isIntegerBlank c = false ∧
      c.val ∉ [45, 43, 95, 92] ∧ c.toLowerAscii.val ≠ 120 ∧ isSeparator c = false ∧
      isSpace c = false ∧ c.between ' ' '~' = true := by
    clear h hascii
    decide +kernel
  obtain ⟨hvalue, hlt, hblank, hsigns, hletter, hseparator, hspace, hprintable⟩ :=
    hall ⟨c.val, hascii⟩ c (dif_pos c.isLt) v h
  simp only [List.mem_cons, List.not_mem_nil, not_or, or_false] at hsigns
  exact {
    digitValue := hvalue, lt := hlt, not_blank := hblank
    ne_minus := fun heq => hsigns.1 (congrArg CodePoint.val heq)
    ne_plus := fun heq => hsigns.2.1 (congrArg CodePoint.val heq)
    ne_underscore := fun heq => hsigns.2.2.1 (congrArg CodePoint.val heq)
    ne_baseLetter := fun heq => hletter (congrArg CodePoint.val heq)
    not_separator := hseparator, not_space := hspace
    ne_backslash := fun heq => hsigns.2.2.2 (congrArg CodePoint.val heq)
    printable := hprintable }

theorem HexDigit.splitKey_cons (h : HexDigit c v) :
    splitKey (c :: rest) = (c :: (splitKey rest).1, (splitKey rest).2) :=
  Properties.splitKey_cons (by rw [h.not_separator, h.not_space]; rfl) h.ne_backslash

theorem digits?_go_cons {done : List Nat} {afterDigit : Bool} (h : HexDigit c v) :
    Text.digits?.go 16 afterDigit (c :: rest) done = Text.digits?.go 16 true rest (v :: done) := by
  rw [Text.digits?.go, if_neg h.ne_underscore, h.digitValue]
  exact if_pos h.lt

theorem unit?_cases (h : unit? h₁ h₂ h₃ h₄ = some unit) :
    ∃ v₁ v₂ v₃ v₄, HexDigit h₁ v₁ ∧ HexDigit h₂ v₂ ∧ HexDigit h₃ v₃ ∧ HexDigit h₄ v₄ ∧
      CodePoint.ofNat? (((v₁ * 16 + v₂) * 16 + v₃) * 16 + v₄) = some unit := by
  unfold unit? at h
  split at h
  · next v₁ v₂ v₃ v₄ hv₁ hv₂ hv₃ hv₄ =>
    exact ⟨v₁, v₂, v₃, v₄, hexDigit hv₁, hexDigit hv₂, hexDigit hv₃, hexDigit hv₄, h⟩
  · cases h

/-- Four digits are one number for the format and for the lenient reader of integers. -/
theorem unicodeEscape?_of_unit? (h : unit? h₁ h₂ h₃ h₄ = some unit) :
    unicodeEscape? [h₁, h₂, h₃, h₄] = some unit := by
  obtain ⟨v₁, v₂, v₃, v₄, hd₁, hd₂, hd₃, hd₄, hunit⟩ := unit?_cases h
  have htrim : Text.trim Text.isIntegerBlank [h₁, h₂, h₃, h₄] = [h₁, h₂, h₃, h₄] := by
    refine Text.trim_eq_self fun c hc => ?_
    simp only [List.mem_cons, List.not_mem_nil, or_false] at hc
    rcases hc with rfl | rfl | rfl | rfl
    · exact hd₁.not_blank
    · exact hd₂.not_blank
    · exact hd₃.not_blank
    · exact hd₄.not_blank
  have hprefix : Text.dropBasePrefix 16 [h₁, h₂, h₃, h₄] = [h₁, h₂, h₃, h₄] := by
    rw [Text.dropBasePrefix, if_neg]
    exact fun hletter => hd₂.ne_baseLetter (of_decide_eq_true hletter.2)
  have hdigits : Text.digits? 16 [h₁, h₂, h₃, h₄] = some [v₁, v₂, v₃, v₄] := by
    rw [Text.digits?, digits?_go_cons hd₁, digits?_go_cons hd₂, digits?_go_cons hd₃,
      digits?_go_cons hd₄]
    rfl
  have hvalue : Digits.value 16 [v₁, v₂, v₃, v₄] = ((v₁ * 16 + v₂) * 16 + v₃) * 16 + v₄ := by
    simp [Digits.value, Digits.backwardValue, Digits.joined]
    omega
  have hint : Text.toInt? 16 [h₁, h₂, h₃, h₄] =
      some (.ofNat (((v₁ * 16 + v₂) * 16 + v₃) * 16 + v₄)) := by
    simp only [Text.toInt?, htrim, hd₁.ne_minus, hd₁.ne_plus, if_false, hprefix, hdigits, hvalue]
    rw [if_neg (by simp)]
    rfl
  rw [unicodeEscape?, hint]
  exact hunit

/-! ## Signs -/

/-- A text is spelled by signs. -/
inductive Spells : Text → List Sign → Prop
  | nil : Spells [] []
  | lastBackslash : Spells ['\\'] [⟨'\\', false⟩]
  | point {c : CodePoint} {t : Text} {signs : List Sign} (hc : c ≠ '\\') (ht : Spells t signs) :
    Spells (c :: t) (⟨c, false⟩ :: signs)
  | letter {d : CodePoint} {t : Text} {signs : List Sign} (hd : d ≠ 'u') (ht : Spells t signs) :
    Spells ('\\' :: d :: t) (⟨letterMeaning d, true⟩ :: signs)
  | unit {h₁ h₂ h₃ h₄ unit : CodePoint} {t : Text} {signs : List Sign}
    (hunit : unit? h₁ h₂ h₃ h₄ = some unit) (ht : Spells t signs) :
    Spells ('\\' :: 'u' :: h₁ :: h₂ :: h₃ :: h₄ :: t) (⟨unit, true⟩ :: signs)

theorem spells_of_signs? (h : signs? t = some signs) : Spells t signs := by
  fun_induction signs? t generalizing signs with
  | case1 =>
    cases h
    exact .nil
  | case2 c =>
    cases h
    by_cases hc : c = '\\'
    · exact hc ▸ .lastBackslash
    · exact .point hc .nil
  | case3 h₁ h₂ h₃ h₄ rest unit signs' hsigns hunit ih =>
    cases h
    exact .unit hunit (ih hsigns)
  | case4 => cases h
  | case5 => cases h
  | case6 d rest hd ih =>
    obtain ⟨signs', hsigns, rfl⟩ := Option.map_eq_some_iff.1 h
    exact .letter hd (ih hsigns)
  | case7 c d rest hc ih =>
    obtain ⟨signs', hsigns, rfl⟩ := Option.map_eq_some_iff.1 h
    exact .point hc (ih hsigns)

theorem escapeMeaning_of_ne (hd : d ≠ 'u') : escapeMeaning d rest = (letterMeaning d, 1) := by
  have hu : ¬(d = 'u' ∧ 4 ≤ (rest.take 4).length) := fun hu => hd hu.1
  unfold escapeMeaning letterMeaning
  grind

/-- The text means the code points of its signs. -/
theorem Spells.unescape (h : Spells t signs) : unescape t = signs.map Sign.point := by
  induction h with
  | nil => rfl
  | lastBackslash => rfl
  | point hc ht ih => rw [unescape_cons hc, ih, List.map_cons]
  | @letter d t signs hd ht ih =>
    rw [unescape_escape, escapeMeaning_of_ne hd, List.map_cons, List.drop_one, List.tail_cons, ih]
  | @unit h₁ h₂ h₃ h₄ unit t signs hunit ht ih =>
    have hmeaning : escapeMeaning 'u' (h₁ :: h₂ :: h₃ :: h₄ :: t) = (unit, 5) := by
      have htake : List.take 4 (h₁ :: h₂ :: h₃ :: h₄ :: t) = [h₁, h₂, h₃, h₄] := rfl
      rw [escapeMeaning, htake, unicodeEscape?_of_unit? hunit]
      rfl
    rw [unescape_escape, hmeaning, List.map_cons, ← ih]
    rfl

/-- The reader cuts the key where its last sign ends. -/
theorem Spells.splitKey (h : Spells t signs) :
    Spells (splitKey t).1 (signs.takeWhile fun s => !s.endsKey) ∧
      Spells (splitKey t).2 (signs.dropWhile fun s => !s.endsKey) := by
  induction h with
  | nil => exact ⟨.nil, .nil⟩
  | lastBackslash => exact ⟨.lastBackslash, .nil⟩
  | @point c t signs hc ht ih =>
    have hends : Sign.endsKey ⟨c, false⟩ = (isSeparator c || isSpace c) := rfl
    cases hkey : isSeparator c || isSpace c with
    | true =>
      rw [splitKey_cons_of_ends hkey, List.takeWhile_cons, List.dropWhile_cons, hends, hkey]
      exact ⟨.nil, .point hc ht⟩
    | false =>
      rw [splitKey_cons hkey hc, List.takeWhile_cons, List.dropWhile_cons, hends, hkey]
      exact ⟨.point hc ih.1, ih.2⟩
  | letter hd ht ih => exact ⟨.letter hd ih.1, ih.2⟩
  | @unit h₁ h₂ h₃ h₄ unit t signs hunit ht ih =>
    obtain ⟨v₁, v₂, v₃, v₄, hd₁, hd₂, hd₃, hd₄, -⟩ := unit?_cases hunit
    rw [splitKey_escape, hd₁.splitKey_cons, hd₂.splitKey_cons, hd₃.splitKey_cons,
      hd₄.splitKey_cons]
    exact ⟨.unit hunit ih.1, ih.2⟩

theorem Spells.dropSpaces (h : Spells t signs) :
    Spells (t.dropWhile isSpace) (signs.dropWhile Sign.isSpace) := by
  induction h with
  | nil => exact .nil
  | lastBackslash => exact .lastBackslash
  | @point c t signs hc ht ih =>
    have hspace : Sign.isSpace ⟨c, false⟩ = isSpace c := rfl
    rw [List.dropWhile_cons, List.dropWhile_cons, hspace]
    cases isSpace c with
    | true => exact ih
    | false => exact .point hc ht
  | letter hd ht ih => exact .letter hd ht
  | unit hunit ht ih => exact .unit hunit ht

/-- The reader finds the value where its first sign begins. -/
theorem Spells.dropSeparator (h : Spells t signs) :
    Spells (dropSeparator t) (valueSigns signs) := by
  have hdrop := h.dropSpaces
  unfold Properties.dropSeparator valueSigns
  generalize t.dropWhile isSpace = t' at hdrop
  generalize signs.dropWhile Sign.isSpace = signs' at hdrop
  cases hdrop with
  | nil => exact .nil
  | lastBackslash => exact .lastBackslash
  | @point c t signs hc ht =>
    have hseparator : Sign.isSeparator ⟨c, false⟩ = isSeparator c := rfl
    dsimp only
    rw [hseparator]
    split
    · exact ht.dropSpaces
    · exact .point hc ht
  | letter hd ht => exact .letter hd ht
  | unit hunit ht => exact .unit hunit ht

/-- In a logical line with all digits of its units the reader finds the entry of the format. -/
theorem entryOf_of_entry? {entry : Text × Text} (h : entry? line = some entry) :
    entryOf line = entry := by
  obtain ⟨signs, hsigns, rfl⟩ := Option.map_eq_some_iff.1 h
  obtain ⟨hkey, hafter⟩ := (spells_of_signs? hsigns).splitKey
  exact Prod.ext hkey.unescape hafter.dropSeparator.unescape

end Format

end SubclassIndex.Properties
