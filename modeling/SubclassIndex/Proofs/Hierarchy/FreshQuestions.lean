import SubclassIndex.Proofs.Hierarchy.Verdicts

/-!
# Questions with nothing recorded

Without recorded verdicts a climb accepts exactly the chains whose classes its budget suffices to
pass (`climb_empty_iff`). A chain is spelled out here by the sequence of its classes (`ChainAlong`),
and so is the acceptance of a question (`isDescendant_fresh_iff`): the base itself comes before the
root of all classes, a cycle never arrives, and the 257th class in between is one too many.
-/

namespace SubclassIndex

/-- A class that is known to be concrete and has a given superclass. -/
def Extends (s : HeaderStore) (name superclass : Text) : Prop :=
  ∃ header, s.header? name = some header ∧ header.isConcrete = true ∧
    header.superclass = some superclass

/-- The classes of a chain in their order, `k` of them after the first one. -/
structure ChainAlong (s : HeaderStore) (base : Text) (k : Nat) (classes : Nat → Text) : Prop where
  climbs : ∀ i < k, Extends s (classes i) (classes (i + 1))
  arrives : Extends s (classes k) base
  avoids : ∀ i, 0 < i → i ≤ k → classes i ≠ base ∧ classes i ≠ ClassName.object

variable {s : HeaderStore} {base name parent : Text} {k budget : Nat} {superclass : Option Text}
  {passed : List Text} {classes : Nat → Text}

/-! ## The classes of a chain -/

theorem extends_iff : Extends s name parent ↔
    ∃ header, s.concrete? name = some header ∧ header.superclass = some parent := by
  simp only [Extends, HeaderStore.concrete?_eq_some, and_assoc]

theorem chain_zero_iff : Chain s base 0 name ↔ Extends s name base := by
  rw [chain_iff, extends_iff]
  rfl

theorem chain_succ_iff : Chain s base (k + 1) name ↔ ∃ parent, Extends s name parent ∧
    parent ≠ base ∧ parent ≠ ClassName.object ∧ Chain s base k parent := by
  rw [chain_iff]
  simp only [extends_iff]
  constructor
  · rintro ⟨header, hc, parent, hs, hchain⟩
    exact ⟨parent, ⟨header, hc, hs⟩, hchain⟩
  · rintro ⟨parent, ⟨header, hc, hs⟩, hchain⟩
    exact ⟨header, hc, parent, hs, hchain⟩

namespace ChainAlong

theorem succ_iff : ChainAlong s base (k + 1) classes ↔ Extends s (classes 0) (classes 1) ∧
    classes 1 ≠ base ∧ classes 1 ≠ ClassName.object ∧
      ChainAlong s base k fun i => classes (i + 1) := by
  constructor
  · intro h
    obtain ⟨hb, ho⟩ := h.avoids 1 (by omega) (by omega)
    refine ⟨h.climbs 0 (by omega), hb, ho, ?_, h.arrives, ?_⟩
    · intro i hi
      exact h.climbs (i + 1) (by omega)
    · intro i _ hi
      exact h.avoids (i + 1) (by omega) (by omega)
  · rintro ⟨hfirst, hb, ho, h⟩
    refine ⟨?_, h.arrives, ?_⟩
    · intro i hi
      cases i with
      | zero => exact hfirst
      | succ i => exact h.climbs i (by omega)
    · intro i hpos hi
      match i with
      | 1 => exact ⟨hb, ho⟩
      | i + 2 => exact h.avoids (i + 1) (by omega) (by omega)

end ChainAlong

/-- A chain is the sequence of its classes. -/
theorem chain_iff_along : Chain s base k name ↔
    ∃ classes : Nat → Text, classes 0 = name ∧ ChainAlong s base k classes := by
  induction k generalizing name with
  | zero =>
    rw [chain_zero_iff]
    constructor
    · intro h
      refine ⟨fun _ => name, rfl, ?_, h, ?_⟩
      · intro i hi
        omega
      · intro i _ hi
        omega
    · rintro ⟨classes, rfl, h⟩
      exact h.arrives
  | succ k ih =>
    rw [chain_succ_iff]
    constructor
    · rintro ⟨parent, hfirst, hb, ho, hrest⟩
      obtain ⟨classes, rfl, halong⟩ := ih.1 hrest
      -- the class in question goes before those that follow it
      refine ⟨fun i => if i = 0 then name else classes (i - 1), rfl, ?_⟩
      exact ChainAlong.succ_iff.2 ⟨hfirst, hb, ho, halong⟩
    · rintro ⟨classes, rfl, h⟩
      obtain ⟨hfirst, hb, ho, h⟩ := ChainAlong.succ_iff.1 h
      exact ⟨classes 1, hfirst, hb, ho, ih.2 ⟨fun i => classes (i + 1), rfl, h⟩⟩

/-! ## Acceptance -/

/-- A climb that succeeds without recorded verdicts has passed fewer classes than its budget. -/
theorem leads_of_climb_empty (h : (climb s base ∅ budget superclass passed).2 = true) :
    ∃ between < budget, Leads s base between superclass := by
  fun_induction climb s base ∅ budget superclass passed with
  | case1 | case2 | case4 | case6 => cases h
  | case3 budget => exact ⟨0, Nat.succ_pos budget, rfl⟩
  | case5 _ _ _ _ _ verdict hv => cases hv
  | case7 budget parent _ hb ho _ header hc ih =>
    obtain ⟨between, hlt, hleads⟩ := ih h
    have hchain : Chain s base between parent := chain_iff.2 ⟨header, hc, hleads⟩
    exact ⟨between + 1, Nat.succ_lt_succ hlt, parent, rfl, hb, ho, hchain⟩

theorem climb_empty_iff : (climb s base ∅ budget superclass passed).2 = true ↔
    ∃ between < budget, Leads s base between superclass := by
  constructor
  · exact leads_of_climb_empty
  · rintro ⟨between, hlt, hleads⟩
    exact climb_of_leads (fun _ hrecorded => by cases hrecorded) hleads hlt

theorem isDescendant_empty (hc : s.concrete? name = some header) :
    (isDescendant s base name ∅).1 =
      (climb s base ∅ (maxBetween + 1) header.superclass [name]).2 := by
  rcases isDescendant_cases s base name ∅ with
    ⟨_, hrecorded, _⟩ | ⟨_, hnone, _⟩ | ⟨header', passed, verdict, _, hc', hclimb, h⟩
  · cases hrecorded
  · rw [hc] at hnone
    cases hnone
  · cases hc.symm.trans hc'
    rw [h, hclimb]

/-- A question with nothing recorded accepts exactly the chains with at most 256 classes in
between. -/
theorem isDescendant_fresh_iff (s : HeaderStore) (base name : Text) :
    (isDescendant s base name ∅).1 = true ↔
      ∃ k ≤ 256, ∃ classes : Nat → Text, classes 0 = name ∧ ChainAlong s base k classes := by
  have hchain : (isDescendant s base name ∅).1 = true ↔ ∃ k ≤ 256, Chain s base k name := by
    cases hc : s.concrete? name with
    | none =>
      have hrejected : (isDescendant s base name ∅).1 = false := by
        unfold isDescendant
        rw [hc]
        rfl
      rw [hrejected]
      refine iff_of_false Bool.false_ne_true ?_
      rintro ⟨k, -, h⟩
      exact not_linked_of_concrete?_eq_none hc ⟨k, h⟩
    | some header =>
      rw [isDescendant_empty hc, climb_empty_iff]
      refine exists_congr fun k => and_congr Nat.lt_succ_iff ?_
      rw [chain_iff]
      constructor
      · intro hleads
        exact ⟨header, hc, hleads⟩
      · rintro ⟨header', hc', hleads⟩
        cases hc.symm.trans hc'
        exact hleads
  rw [hchain]
  exact exists_congr fun k => and_congr_right fun _ => chain_iff_along

end SubclassIndex
