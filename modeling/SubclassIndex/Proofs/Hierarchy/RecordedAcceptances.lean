import SubclassIndex.Proofs.Hierarchy.FreshQuestions
import SubclassIndex.Proofs.Hierarchy.SharedVerdicts

/-!
# Recorded acceptances

A question records its own verdict and changes none, so the classes that are found are those that
are recorded as accepted in the end (`mem_descendants_iff_recorded`). A climb records the same
verdict all along its way. So with a class its superclass is accepted too, unless that is the base
(`Verdicts.Closed`), and with a class its superclass is found, even where chains are too long for a
climb (`mem_descendants_of_extends`).
-/

namespace SubclassIndex

/-- With a class its superclass is recorded as accepted, unless that is the base. -/
def Verdicts.Closed (s : HeaderStore) (base : Text) (memo : Verdicts) : Prop :=
  ∀ name parent, memo.get? name = some true → Extends s name parent → parent ≠ base →
    memo.get? parent = some true

variable {s : HeaderStore} {base name parent : Text} {memo : Verdicts} {verdict : Bool}
  {budget between : Nat} {superclass : Option Text} {passed names : List Text} {found : NameSet}

/-! ## One climb -/

theorem mem_climb_of_mem (h : name ∈ passed) :
    name ∈ (climb s base memo budget superclass passed).1 := by
  fun_induction climb s base memo budget superclass passed with
  | case1 | case2 | case3 | case4 | case5 | case6 => exact List.mem_reverse.2 h
  | case7 _ _ _ _ _ _ _ _ ih => exact ih (List.mem_cons_of_mem _ h)

theorem get?_of_mem_climb (hp : ∀ n ∈ passed, memo.get? n = none)
    (h : name ∈ (climb s base memo budget superclass passed).1) : memo.get? name = none := by
  fun_induction climb s base memo budget superclass passed with
  | case1 | case2 | case3 | case4 | case5 | case6 => exact hp name (List.mem_reverse.1 h)
  | case7 _ _ _ _ _ hn _ _ ih => exact ih (List.forall_mem_cons.2 ⟨hn, hp⟩) h

/-- A climb that succeeds has gone on to each superclass, until it came to the base or to a recorded
acceptance. -/
theorem parent_mem_climb (hp : ∀ n ∈ passed, ∀ parent, Extends s n parent →
      parent ∈ passed ∨ superclass = some parent)
    (hv : (climb s base memo budget superclass passed).2 = true)
    (h : name ∈ (climb s base memo budget superclass passed).1) (hup : Extends s name parent)
    (hb : parent ≠ base) :
    parent ∈ (climb s base memo budget superclass passed).1 ∨ memo.get? parent = some true := by
  fun_induction climb s base memo budget superclass passed with
  | case1 | case2 | case4 | case6 => cases hv
  | case3 =>
    rcases hp name (List.mem_reverse.1 h) parent hup with hmem | heq
    · exact .inl (List.mem_reverse.2 hmem)
    · exact absurd (Option.some.inj heq).symm hb
  | case5 _ _ _ _ _ verdict hrecorded =>
    rcases hp name (List.mem_reverse.1 h) parent hup with hmem | heq
    · exact .inl (List.mem_reverse.2 hmem)
    · cases heq
      cases hv
      exact .inr hrecorded
  | case7 _ n _ _ _ _ header hc ih =>
    refine ih ?_ hv h
    intro n' hmem parent' hup'
    rcases List.mem_cons.1 hmem with rfl | hmem
    · obtain ⟨header', hc', hs⟩ := extends_iff.1 hup'
      cases hc.symm.trans hc'
      exact .inr hs
    · rcases hp n' hmem parent' hup' with hmem | heq
      · exact .inl (List.mem_cons_of_mem _ hmem)
      · cases heq
        exact .inl List.mem_cons_self

/-! ## One question -/

namespace Verdicts

theorem get?_isDescendant_of_recorded (n : Text) (h : memo.get? name = some verdict) :
    (isDescendant s base n memo).2.get? name = some verdict := by
  rcases isDescendant_cases s base n memo with
    ⟨_, _, heq⟩ | ⟨hn, _, heq⟩ | ⟨_, _, _, _, _, _, heq⟩
  · rwa [heq]
  · rw [heq, Table.get?_insert]
    split
    · next hname =>
      rw [← hname, hn] at h
      cases h
    · exact h
  · rw [heq, get?_settle, h, Option.some_or]

theorem get?_isDescendant_self (s : HeaderStore) (base name : Text) (memo : Verdicts) :
    (isDescendant s base name memo).2.get? name = some (isDescendant s base name memo).1 := by
  rcases isDescendant_cases s base name memo with
    ⟨_, hrecorded, heq⟩ | ⟨_, _, heq⟩ | ⟨header, passed, _, hn, _, hclimb, heq⟩
  · rw [heq]
    exact hrecorded
  · rw [heq, Table.get?_insert, if_pos rfl]
  · have hmem : name ∈ (climb s base memo (maxBetween + 1) header.superclass [name]).1 :=
      mem_climb_of_mem List.mem_cons_self
    rw [hclimb] at hmem
    rw [heq, get?_settle, hn, Option.none_or, if_pos hmem]

theorem closed_empty : Closed s base ∅ := by
  intro name parent h
  cases h

theorem Closed.insert_false (hm : memo.Closed s base) (hn : memo.get? name = none) :
    Closed s base (memo.insert name false) := by
  intro n parent h hup hb
  rw [Table.get?_insert] at h ⊢
  split at h
  · cases h
  · have hparent := hm n parent h hup hb
    rw [if_neg, hparent]
    rintro rfl
    rw [hn] at hparent
    cases hparent

/-- If a way is accepted, then each superclass is on it or is recorded as accepted. -/
theorem Closed.settle (hm : memo.Closed s base) (hnew : ∀ n ∈ passed, memo.get? n = none)
    (hway : verdict = true → ∀ n ∈ passed, ∀ parent, Extends s n parent → parent ≠ base →
      parent ∈ passed ∨ memo.get? parent = some true) :
    Closed s base (memo.settle passed verdict) := by
  intro n parent h hup hb
  rw [get?_settle] at h ⊢
  cases hbefore : memo.get? n with
  | some _ =>
    rw [hbefore, Option.some_or] at h
    cases h
    rw [hm n parent hbefore hup hb, Option.some_or]
  | none =>
    rw [hbefore, Option.none_or] at h
    split at h
    · next hmem =>
      cases h
      rcases hway rfl n hmem parent hup hb with hparent | hparent
      · rw [hnew parent hparent, Option.none_or, if_pos hparent]
      · rw [hparent, Option.some_or]
    · cases h

theorem Closed.isDescendant (hm : memo.Closed s base) (name : Text) :
    (isDescendant s base name memo).2.Closed s base := by
  rcases isDescendant_cases s base name memo with
    ⟨_, _, heq⟩ | ⟨hn, _, heq⟩ | ⟨header, passed, verdict, hn, hc, hclimb, heq⟩
  · rwa [heq]
  · rw [heq]
    exact hm.insert_false hn
  · have hfirst : ∀ n ∈ [name], ∀ parent, Extends s n parent →
        parent ∈ [name] ∨ header.superclass = some parent := by
      intro n hmem parent hup
      rw [List.mem_singleton.1 hmem] at hup
      obtain ⟨header', hc', hs⟩ := extends_iff.1 hup
      cases hc.symm.trans hc'
      exact .inr hs
    have hpassed : (climb s base memo (maxBetween + 1) header.superclass [name]).1 = passed := by
      rw [hclimb]
    have hverdict : (climb s base memo (maxBetween + 1) header.superclass [name]).2 = verdict := by
      rw [hclimb]
    rw [heq]
    apply hm.settle
    · intro n hmem
      apply get?_of_mem_climb (List.forall_mem_singleton.2 hn)
      rwa [hpassed]
    · intro hv n hmem parent hup hb
      rw [← hpassed] at hmem ⊢
      exact parent_mem_climb hfirst (hverdict.trans hv) hmem hup hb

end Verdicts

/-! ## All classes of a store -/

theorem get?_descendantsAmong_of_recorded (h : memo.get? name = some verdict) :
    (descendantsAmong s base names (found, memo)).2.get? name = some verdict := by
  induction names generalizing found memo with
  | nil => exact h
  | cons n names ih =>
    rw [descendantsAmong_cons]
    exact ih (Verdicts.get?_isDescendant_of_recorded n h)

theorem Verdicts.Closed.descendantsAmong (hm : memo.Closed s base) :
    (descendantsAmong s base names (found, memo)).2.Closed s base := by
  induction names generalizing found memo with
  | nil => exact hm
  | cons n names ih =>
    rw [descendantsAmong_cons]
    exact ih (hm.isDescendant n)

/-- Of the classes asked about those are found that are recorded as accepted in the end. -/
theorem mem_descendantsAmong_iff_recorded :
    name ∈ (descendantsAmong s base names (found, memo)).1 ↔ name ∈ found ∨ name ∈ names ∧
      (descendantsAmong s base names (found, memo)).2.get? name = some true := by
  induction names generalizing found memo with
  | nil => simp [descendantsAmong]
  | cons n names ih =>
    have hself := Verdicts.get?_isDescendant_self s base n memo
    rw [descendantsAmong_cons, ih, List.mem_cons]
    generalize isDescendant s base n memo = answer at hself ⊢
    obtain ⟨verdict, memo⟩ := answer
    -- what is recorded for this class now is what is recorded for it in the end
    cases verdict with
    | true =>
      have hkept : (descendantsAmong s base names (found.insert n, memo)).2.get? n = some true :=
        get?_descendantsAmong_of_recorded hself
      rw [if_pos rfl, NameSet.mem_insert]
      constructor
      · rintro ((rfl | hfound) | ⟨hmem, hrecorded⟩)
        · exact .inr ⟨.inl rfl, hkept⟩
        · exact .inl hfound
        · exact .inr ⟨.inr hmem, hrecorded⟩
      · rintro (hfound | ⟨rfl | hmem, hrecorded⟩)
        · exact .inl (.inr hfound)
        · exact .inl (.inl rfl)
        · exact .inr ⟨hmem, hrecorded⟩
    | false =>
      have hkept : (descendantsAmong s base names (found, memo)).2.get? n = some false :=
        get?_descendantsAmong_of_recorded hself
      rw [if_neg Bool.false_ne_true]
      refine or_congr_right (and_congr_left fun hrecorded => (or_iff_right ?_).symm)
      rintro rfl
      rw [hkept] at hrecorded
      cases hrecorded

theorem mem_descendants_iff_recorded : name ∈ (descendants s base ∅).1 ↔
    name ∈ concreteNames s ∧ (descendants s base ∅).2.get? name = some true := by
  rw [descendants, mem_descendantsAmong_iff_recorded]
  exact or_iff_right (NameSet.not_mem_empty name)

theorem Verdicts.Sound.descendantsAmong (hm : memo.Sound s base) :
    (descendantsAmong s base names (found, memo)).2.Sound s base := by
  induction names generalizing found memo with
  | nil => exact hm
  | cons n names ih =>
    rw [descendantsAmong_cons]
    exact ih (hm.isDescendant n).2

/-- Only linked classes are found. -/
theorem linked_of_mem_descendants (h : name ∈ (descendants s base ∅).1) : Linked s base name :=
  Verdicts.sound_empty.descendantsAmong name (mem_descendants_iff_recorded.1 h).2

/-- The superclass of a class that is found is the base, or it is found too. -/
theorem mem_descendants_of_extends (h : name ∈ (descendants s base ∅).1)
    (hup : Extends s name parent) (hb : parent ≠ base) : parent ∈ (descendants s base ∅).1 := by
  have hrecorded : (descendants s base ∅).2.get? parent = some true :=
    Verdicts.closed_empty.descendantsAmong name parent (mem_descendants_iff_recorded.1 h).2 hup hb
  have hlinked : Linked s base parent := Verdicts.sound_empty.descendantsAmong parent hrecorded
  exact mem_descendants_iff_recorded.2 ⟨hlinked.mem_concreteNames, hrecorded⟩

end SubclassIndex
