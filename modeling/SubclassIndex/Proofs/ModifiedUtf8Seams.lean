import SubclassIndex.Proofs.ModifiedUtf8Exact
import SubclassIndex.Proofs.ModifiedUtf8RoundTrip

/-!
# Modified UTF-8 in two parts

No sequence reaches over the seam of two byte strings that are read each on its own, so together they
have the code points of both (`ModifiedUtf8.points?_append`). The pairs of surrogates, however, are
joined only if none of the whole text stands alone. So the parts of a text are read as each is read
on its own exactly if neither has a lone surrogate while the other has a pair to be joined
(`ModifiedUtf8.decode?_append_iff`): a lone surrogate leaves the halves of every pair apart, however
far away (`ModifiedUtf8.decode?_pairBesideLone`).
-/

namespace SubclassIndex

namespace Text

variable {c d high low : CodePoint} {t t' u v : Text}

/-! ## Paired texts -/

/-- A text in which every surrogate is one half of a pair. -/
inductive Paired : Text → Prop
  | nil : Paired []
  | single {c : CodePoint} {t : Text} : c.isSurrogate = false → Paired t → Paired (c :: t)
  | pair {high low : CodePoint} {t : Text} : high.isHighSurrogate = true →
    low.isLowSurrogate = true → Paired t → Paired (high :: low :: t)

theorem IsScalar.paired (h : t.IsScalar) : t.Paired := by
  induction t with
  | nil => exact .nil
  | cons c t ih =>
    obtain ⟨hc, ht⟩ := List.forall_mem_cons.1 h
    exact .single hc (ih ht)

/-- A high surrogate that the check holds makes up a paired text with what it accepts then. -/
theorem paired_of_isWellPaired_go (held : Option CodePoint)
    (hheld : ∀ high ∈ held, high.isHighSurrogate = true)
    (h : isWellPaired.go held.isSome t = true) : Paired (held.toList ++ t) := by
  induction t generalizing held with
  | nil =>
    cases held with
    | none => exact .nil
    | some high => cases h
  | cons c t ih =>
    rw [isWellPaired.go] at h
    cases hlow : c.isLowSurrogate with
    | true =>
      rw [hlow, if_pos rfl, Bool.and_eq_true] at h
      cases held with
      | none => cases h.1
      | some high => exact .pair (hheld high rfl) hlow (ih none (by simp) h.2)
    | false =>
      rw [hlow, if_neg Bool.false_ne_true, Bool.and_eq_true] at h
      cases held with
      | some high => cases h.1
      | none =>
        cases hhigh : c.isHighSurrogate with
        | true =>
          rw [hhigh] at h
          exact ih (some c) (by simpa using hhigh) h.2
        | false =>
          rw [hhigh] at h
          have hc : c.isSurrogate = false := CodePoint.isSurrogate_eq_false_iff.2 ⟨hhigh, hlow⟩
          exact .single hc (ih none (by simp) h.2)

theorem Paired.isWellPaired_append (h : t.Paired) (t' : Text) :
    isWellPaired (t ++ t') = isWellPaired t' := by
  induction h with
  | nil => rfl
  | single hc _ ih => exact (isWellPaired_cons hc).trans ih
  | pair hhigh hlow _ ih => exact (isWellPaired_pair hhigh hlow).trans ih

theorem isWellPaired_iff : t.isWellPaired = true ↔ t.Paired := by
  constructor
  · intro h
    exact paired_of_isWellPaired_go none (by simp) h
  · intro h
    have hnil := h.isWellPaired_append []
    rwa [List.append_nil] at hnil

instance (t : Text) : Decidable t.Paired := decidable_of_iff _ isWellPaired_iff

theorem Paired.append_iff (h : t.Paired) : Paired (t ++ t') ↔ t'.Paired := by
  rw [← isWellPaired_iff, h.isWellPaired_append, isWellPaired_iff]

theorem Paired.not_low (h : Paired (c :: t)) : c.isLowSurrogate = false := by
  cases h with
  | single hc _ => exact CodePoint.isLowSurrogate_eq_false hc
  | pair hhigh _ _ => exact CodePoint.isLowSurrogate_of_isHighSurrogate hhigh

/-- The halves of a code point meet where one text ends and another one begins. -/
def HalvesMeet (t t' : Text) : Prop :=
  (∃ high ∈ t.getLast?, high.isHighSurrogate = true) ∧
    ∃ low ∈ t'.head?, low.isLowSurrogate = true

theorem HalvesMeet.cons (h : HalvesMeet t t') (c : CodePoint) : HalvesMeet (c :: t) t' := by
  obtain ⟨⟨high, hlast, hhigh⟩, hlow⟩ := h
  refine ⟨⟨high, ?_, hhigh⟩, hlow⟩
  rw [List.getLast?_cons, Option.mem_def.1 hlast]
  rfl

/-- The front of a paired text is paired, unless the text is cut within a pair. -/
theorem Paired.front (h : Paired (t ++ t')) : t.Paired ∨ HalvesMeet t t' := by
  generalize hw : t ++ t' = w at h
  induction h generalizing t with
  | nil =>
    rw [(List.append_eq_nil_iff.1 hw).1]
    exact .inl .nil
  | single hc _ ih =>
    rcases List.append_eq_cons_iff.1 hw with ⟨rfl, _⟩ | ⟨front, rfl, hfront⟩
    · exact .inl .nil
    · exact (ih hfront.symm).imp (.single hc) fun hmeet => hmeet.cons _
  | @pair high low w hhigh hlow _ ih =>
    rcases List.append_eq_cons_iff.1 hw with ⟨rfl, _⟩ | ⟨rest, rfl, hrest⟩
    · exact .inl .nil
    · rcases List.append_eq_cons_iff.1 hrest.symm with ⟨rfl, rfl⟩ | ⟨front, rfl, hfront⟩
      · exact .inr ⟨⟨high, rfl, hhigh⟩, low, rfl, hlow⟩
      · exact (ih hfront.symm).imp (.pair hhigh hlow) fun hmeet => (hmeet.cons low).cons high

/-! ## Joined pairs -/

theorem Paired.joinPairs_append (h : t.Paired) (t' : Text) :
    joinPairs (t ++ t') = joinPairs t ++ joinPairs t' := by
  induction h with
  | nil => rfl
  | single hc _ ih =>
    rw [List.cons_append, joinPairs_cons (not_startsPair hc), joinPairs_cons (not_startsPair hc),
      ih, List.cons_append]
  | pair hhigh hlow _ ih =>
    rw [List.cons_append, List.cons_append, joinPairs_pair hhigh hlow, joinPairs_pair hhigh hlow,
      ih, List.cons_append]

theorem Paired.isScalar_joinPairs (h : t.Paired) : t.joinPairs.IsScalar := by
  induction h with
  | nil => exact fun c hc => absurd hc List.not_mem_nil
  | single hc _ ih =>
    rw [joinPairs_cons (not_startsPair hc)]
    exact List.forall_mem_cons.2 ⟨hc, ih⟩
  | pair hhigh hlow _ ih =>
    rw [joinPairs_pair hhigh hlow]
    exact List.forall_mem_cons.2 ⟨CodePoint.isSurrogate_ofPair _ _, ih⟩

/-- The text with its pairs joined, if none of its surrogates stands alone. -/
def joinIfPaired (t : Text) : Text := if t.isWellPaired then t.joinPairs else t

theorem joinIfPaired_of_paired (h : t.Paired) : t.joinIfPaired = t.joinPairs :=
  if_pos (isWellPaired_iff.2 h)

theorem joinIfPaired_of_not_paired (h : ¬t.Paired) : t.joinIfPaired = t :=
  if_neg fun hwell => h (isWellPaired_iff.1 hwell)

/-- A surrogate is left exactly where one stands alone. -/
theorem isScalar_joinIfPaired_iff : t.joinIfPaired.IsScalar ↔ t.Paired := by
  constructor
  · intro h
    apply Decidable.byContradiction
    intro hnot
    rw [joinIfPaired_of_not_paired hnot] at h
    exact hnot h.paired
  · intro h
    rw [joinIfPaired_of_paired h]
    exact h.isScalar_joinPairs

theorem not_paired_append (h : ¬u.Paired) (hseam : ¬HalvesMeet u.joinIfPaired v.joinIfPaired) :
    ¬Paired (u ++ v) := by
  intro hpaired
  obtain hfront | ⟨hhigh, low, hlow, hlow'⟩ := hpaired.front
  · exact h hfront
  · rw [joinIfPaired_of_not_paired h] at hseam
    obtain ⟨v, rfl⟩ := List.head?_eq_some_iff.1 hlow
    by_cases hv : Paired (low :: v)
    · rw [hv.not_low] at hlow'
      cases hlow'
    · rw [joinIfPaired_of_not_paired hv] at hseam
      exact hseam ⟨hhigh, low, hlow, hlow'⟩

/-- Two texts are joined together as each is on its own exactly if neither has a lone surrogate while
the other has a pair. -/
theorem joinIfPaired_append_iff (hseam : ¬HalvesMeet u.joinIfPaired v.joinIfPaired) :
    (u ++ v).joinIfPaired = u.joinIfPaired ++ v.joinIfPaired ↔
      (¬u.joinIfPaired.IsScalar → v = v.joinIfPaired) ∧
        (¬v.joinIfPaired.IsScalar → u = u.joinIfPaired) := by
  rw [isScalar_joinIfPaired_iff, isScalar_joinIfPaired_iff]
  by_cases hu : u.Paired
  · by_cases hv : v.Paired
    · rw [joinIfPaired_of_paired (hu.append_iff.2 hv), joinIfPaired_of_paired hu,
        joinIfPaired_of_paired hv, hu.joinPairs_append]
      exact iff_of_true rfl ⟨absurd hu, absurd hv⟩
    · have hnot : ¬Paired (u ++ v) := fun h => hv (hu.append_iff.1 h)
      rw [joinIfPaired_of_not_paired hnot, joinIfPaired_of_not_paired hv,
        List.append_left_inj]
      exact ⟨fun h => ⟨absurd hu, fun _ => h⟩, fun h => h.2 hv⟩
  · rw [joinIfPaired_of_not_paired (not_paired_append hu hseam), joinIfPaired_of_not_paired hu,
      List.append_right_inj]
    exact ⟨fun h => ⟨fun _ => h, fun _ => rfl⟩, fun h => h.1 hu⟩

end Text

namespace ModifiedUtf8

variable {bytes x y : Bytes} {s t u v : Text}

/-! ## Bytes -/

/-- The code points that some bytes write, each surrogate on its own. -/
def points? (bytes : Bytes) : Option Text := Utf8.decode? .codePoints (restoreNul bytes)

theorem decode?_eq (bytes : Bytes) : decode? bytes = (points? bytes).map Text.joinIfPaired := rfl

theorem points?_eq_some : points? bytes = some t ↔ t.flatMap Utf8.bytesOf = restoreNul bytes := by
  rw [points?, Utf8.decode?_eq_some]
  exact and_iff_right fun _ _ => .inl rfl

theorem Encoded.restoreNul_append (h : Encoded x) (y : Bytes) :
    restoreNul (x ++ y) = restoreNul x ++ restoreNul y := by
  induction h with
  | nil => rfl
  | zero _ ih =>
    rw [List.cons_append, List.cons_append, restoreNul_zero, restoreNul_zero, ih, List.cons_append]
  | point c _ ih =>
    have hlead : ∀ b ∈ Utf8.bytesOf c, b ≠ 0xC0 := fun b hb => ne_lead_of_mem hb
    rw [List.append_assoc, ModifiedUtf8.restoreNul_append hlead,
      ModifiedUtf8.restoreNul_append hlead, ih, List.append_assoc]

/-- Bytes in two parts have the code points of both. -/
theorem points?_append (hx : points? x = some u) (hy : points? y = some v) :
    points? (x ++ y) = some (u ++ v) := by
  rw [points?_eq_some] at hx hy ⊢
  have hencoded : Encoded x := encoded_of_restoreNul hx.symm
  rw [hencoded.restoreNul_append, List.flatMap_append, hx, hy]

/-- Of bytes in two parts, between which no halves meet, the text is that of the one part and then
that of the other exactly if next to a part with a lone surrogate the other one is left as its code
points are written. -/
theorem decode?_append_iff (hx : decode? x = some s) (hy : decode? y = some t)
    (hseam : ¬Text.HalvesMeet s t) : decode? (x ++ y) = some (s ++ t) ↔
      (¬s.IsScalar → points? y = some t) ∧ (¬t.IsScalar → points? x = some s) := by
  obtain ⟨u, hu, rfl⟩ := Option.map_eq_some_iff.1 hx
  obtain ⟨v, hv, rfl⟩ := Option.map_eq_some_iff.1 hy
  rw [decode?_eq, points?_append hu hv, Option.map_some]
  change points? x = some u at hu
  change points? y = some v at hv
  rw [hu, hv, Option.some.injEq, Option.some.injEq, Option.some.injEq]
  exact Text.joinIfPaired_append_iff hseam

/-! ## A pair and a lone surrogate -/

/-- A character as its two surrogates in three bytes each. -/
def pairBytes : Bytes := [0xED, 0xA0, 0xBD, 0xED, 0xB8, 0x80]

/-- A high surrogate in three bytes. -/
def loneBytes : Bytes := [0xED, 0xA0, 0x80]

def highSurrogate : CodePoint := ⟨0xD800, by decide⟩

theorem not_halvesMeet_pairAndLone :
    ¬Text.HalvesMeet "😀" [highSurrogate] ∧ ¬Text.HalvesMeet [highSurrogate] "😀" := by
  constructor
  · rintro ⟨_, low, hlow, hlow'⟩
    cases hlow
    cases hlow'
  · rintro ⟨_, low, hlow, hlow'⟩
    cases hlow
    cases hlow'

/-- A lone surrogate leaves a character in four bytes as it is, but not one that is a pair. -/
theorem decode?_append_iff_lone :
    decode? loneBytes = some [highSurrogate] ∧
    decode? [0xF0, 0x9F, 0x98, 0x80] = some ("😀" : Text) ∧
    decode? pairBytes = some ("😀" : Text) ∧ ¬Text.HalvesMeet [highSurrogate] "😀" ∧
    decode? (loneBytes ++ [0xF0, 0x9F, 0x98, 0x80]) = some ([highSurrogate] ++ ("😀" : Text)) ∧
    decode? (loneBytes ++ pairBytes) ≠ some ([highSurrogate] ++ ("😀" : Text)) := by
  have hlone : decode? loneBytes = some [highSurrogate] := by decide
  have hfour : decode? [0xF0, 0x9F, 0x98, 0x80] = some ("😀" : Text) := by decide
  have hpair : decode? pairBytes = some ("😀" : Text) := by decide
  have hseam := not_halvesMeet_pairAndLone.2
  refine ⟨hlone, hfour, hpair, hseam, ?_, ?_⟩
  · apply (decode?_append_iff hlone hfour hseam).2
    exact ⟨fun _ => by decide, fun h => absurd (by decide) h⟩
  · intro h
    have hkept := ((decode?_append_iff hlone hpair hseam).1 h).1 (by decide)
    exact absurd hkept (by decide)

/-- A lone surrogate that follows a pair is kept, but the pair is not joined any more. -/
theorem decode?_pairBesideLone : decode? pairBytes = some ("😀" : Text) ∧
    decode? loneBytes = some [highSurrogate] ∧ ¬Text.HalvesMeet "😀" [highSurrogate] ∧
    decode? (pairBytes ++ loneBytes) =
      some [⟨0xD83D, by decide⟩, ⟨0xDE00, by decide⟩, highSurrogate] ∧
    decode? (pairBytes ++ loneBytes) ≠ some (("😀" : Text) ++ [highSurrogate]) :=
  ⟨by decide, by decide, not_halvesMeet_pairAndLone.1, by decide, by decide⟩

end ModifiedUtf8

end SubclassIndex
