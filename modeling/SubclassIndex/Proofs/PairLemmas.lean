import SubclassIndex.Text.Surrogates

/-!
# Joined pairs

Joining the surrogates of a text goes by its first two code points (`Text.joinPairs_pair`,
`Text.joinPairs_cons`), and in a joined text no pair is left (`Text.joinPairs_joinPairs`).
-/

namespace SubclassIndex

namespace CodePoint

variable {c : CodePoint}

theorem isSurrogate_eq_false_iff :
    c.isSurrogate = false ↔ c.isHighSurrogate = false ∧ c.isLowSurrogate = false := by
  simp only [isSurrogate, isHighSurrogate, isLowSurrogate, Bool.and_eq_false_iff,
    decide_eq_false_iff_not]
  omega

theorem isHighSurrogate_eq_false (h : c.isSurrogate = false) : c.isHighSurrogate = false :=
  (isSurrogate_eq_false_iff.1 h).1

theorem isLowSurrogate_eq_false (h : c.isSurrogate = false) : c.isLowSurrogate = false :=
  (isSurrogate_eq_false_iff.1 h).2

theorem isLowSurrogate_of_isHighSurrogate (h : c.isHighSurrogate = true) :
    c.isLowSurrogate = false := by
  simp only [isHighSurrogate, isLowSurrogate, Bool.and_eq_true, Bool.and_eq_false_iff,
    decide_eq_true_eq, decide_eq_false_iff_not] at h ⊢
  omega

theorem le_val_ofPair (high low : CodePoint) : 0x10000 ≤ (ofPair high low).val := by
  unfold ofPair
  dsimp only
  omega

theorem isSurrogate_ofPair (high low : CodePoint) : (ofPair high low).isSurrogate = false := by
  have hval := le_val_ofPair high low
  rw [isSurrogate, decide_eq_false (by omega : ¬_ < _), Bool.and_false]

end CodePoint

namespace Text

variable {c d : CodePoint} {t : Text}

theorem joinPairs_go_done (held : Option CodePoint) (t done : Text) :
    joinPairs.go held t done = done.reverse ++ joinPairs.go held t [] := by
  induction t generalizing held done with
  | nil => simp [joinPairs.go]
  | cons c t ih =>
    unfold joinPairs.go
    cases held with
    | none =>
      dsimp only
      split
      · exact ih _ _
      · rw [ih, ih _ [c], List.reverse_cons, List.append_assoc]
        rfl
    | some high =>
      dsimp only
      split
      · rw [ih, ih _ [_], List.reverse_cons, List.append_assoc]
        rfl
      · split
        · rw [ih, ih _ [high], List.reverse_cons, List.append_assoc]
          rfl
        · rw [ih, ih _ [c, high], List.reverse_cons, List.reverse_cons, List.append_assoc,
            List.append_assoc]
          rfl

theorem joinPairs_pair (hc : c.isHighSurrogate = true) (hd : d.isLowSurrogate = true) :
    joinPairs (c :: d :: t) = .ofPair c d :: joinPairs t := by
  rw [joinPairs, joinPairs.go, if_pos hc, joinPairs.go, if_pos hd, joinPairs_go_done]
  rfl

/-- A code point and the one after it are the halves of another one. -/
def StartsPair (c : CodePoint) (t : Text) : Prop :=
  c.isHighSurrogate = true ∧ ∃ d ∈ t.head?, d.isLowSurrogate = true

theorem not_startsPair (h : c.isSurrogate = false) : ¬StartsPair c t := by
  rintro ⟨hhigh, _⟩
  rw [CodePoint.isHighSurrogate_eq_false h] at hhigh
  cases hhigh

theorem joinPairs_cons (h : ¬StartsPair c t) : joinPairs (c :: t) = c :: joinPairs t := by
  rw [joinPairs, joinPairs.go]
  cases hc : c.isHighSurrogate with
  | false => rw [if_neg Bool.false_ne_true, joinPairs_go_done]; rfl
  | true =>
    rw [if_pos rfl]
    cases t with
    | nil => rfl
    | cons d t =>
      have hd : d.isLowSurrogate = false := Bool.eq_false_iff.2 fun hd => h ⟨hc, d, rfl, hd⟩
      rw [joinPairs, joinPairs.go, joinPairs.go, if_neg (Bool.eq_false_iff.1 hd)]
      split
      · exact joinPairs_go_done _ _ _
      · rw [joinPairs_go_done, joinPairs_go_done none t [d]]
        rfl

/-- Joining does not bring a second half to the front. -/
theorem low_head_of_joinPairs (h : ∃ d ∈ (joinPairs t).head?, d.isLowSurrogate = true) :
    ∃ d ∈ t.head?, d.isLowSurrogate = true := by
  obtain ⟨d, hd, hlow⟩ := h
  cases t with
  | nil => cases hd
  | cons c t =>
    by_cases hpair : StartsPair c t
    · obtain ⟨hc, e, he, hlow'⟩ := hpair
      obtain ⟨t', rfl⟩ := List.head?_eq_some_iff.1 he
      rw [joinPairs_pair hc hlow'] at hd
      have hnot := CodePoint.isLowSurrogate_eq_false (CodePoint.isSurrogate_ofPair c e)
      rw [← Option.some.inj hd, hnot] at hlow
      cases hlow
    · rw [joinPairs_cons hpair] at hd
      exact ⟨d, hd, hlow⟩

theorem joinPairs_joinPairs (t : Text) : (joinPairs t).joinPairs = joinPairs t := by
  induction hlen : t.length using Nat.strongRecOn generalizing t with
  | ind n ih =>
    cases t with
    | nil => rfl
    | cons c t =>
      subst hlen
      by_cases hpair : StartsPair c t
      · obtain ⟨hc, d, hd, hlow⟩ := hpair
        obtain ⟨t', rfl⟩ := List.head?_eq_some_iff.1 hd
        have ih := ih t'.length (by simp only [List.length_cons]; omega) t' rfl
        rw [joinPairs_pair hc hlow, joinPairs_cons (not_startsPair (CodePoint.isSurrogate_ofPair c d)),
          ih]
      · have hhead : ¬StartsPair c (joinPairs t) :=
          fun h => hpair ⟨h.1, low_head_of_joinPairs h.2⟩
        have ih := ih t.length (Nat.lt_succ_self _) t rfl
        rw [joinPairs_cons hpair, joinPairs_cons hhead, ih]

end Text

end SubclassIndex
