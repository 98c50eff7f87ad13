import Mathlib.Logic.Relation
import SubclassIndex.Proofs.Hierarchy.RecordedAcceptances

/-!
# Cycles of superclasses

A climb looks for the base on every class that it comes to, and only its budget keeps it from going
round in a cycle. So a cycle without the base is never found, nor is anything that leads into it,
but one that the base is on is found from the base itself on (`cyclic_descendants`). A class has one
superclass, and whoever is on a cycle comes back from wherever the superclasses lead
(`OnCycle.back`).
-/

namespace SubclassIndex

open Relation

/-- A class of the store and its superclass. -/
def Below (s : HeaderStore) (name superclass : Text) : Prop :=
  ∃ header, s.header? name = some header ∧ header.superclass = some superclass

/-- A class that its superclasses lead back to. -/
def OnCycle (s : HeaderStore) (name : Text) : Prop := TransGen (Below s) name name

/-- A concrete class that extends the base is on a cycle, and so the base is. -/
def Returns (s : HeaderStore) (base : Text) : Prop :=
  ∃ last, Extends s last base ∧ OnCycle s last

variable {s : HeaderStore} {base name parent last : Text}

/-! ## Around a cycle -/

theorem Extends.below (h : Extends s name parent) : Below s name parent := by
  obtain ⟨header, hheader, _, hsuperclass⟩ := h
  exact ⟨header, hheader, hsuperclass⟩

theorem below_rightUnique : Relator.RightUnique (Below s) := by
  intro name parent parent' h h'
  obtain ⟨header, hheader, hsuperclass⟩ := h
  obtain ⟨header', hheader', hsuperclass'⟩ := h'
  cases hheader.symm.trans hheader'
  exact Option.some.inj (hsuperclass.symm.trans hsuperclass')

theorem OnCycle.back (h : OnCycle s name) (hup : ReflTransGen (Below s) name last) :
    TransGen (Below s) last name := by
  induction hup with
  | refl => exact h
  | tail _ hstep ih =>
    -- the way back goes over the one superclass that there is
    obtain ⟨parent, hfirst, hrest⟩ := TransGen.head'_iff.1 ih
    cases below_rightUnique hstep hfirst
    exact .trans_right hrest h

theorem OnCycle.of_above (h : OnCycle s name) (hup : ReflTransGen (Below s) name last) :
    OnCycle s last :=
  (h.back hup).trans_left hup

theorem Returns.onCycle (h : Returns s base) : OnCycle s base := by
  obtain ⟨last, hlast, hcycle⟩ := h
  exact hcycle.of_above (.single hlast.below)

theorem not_onCycle_of_header?_eq_none (h : s.header? name = none) : ¬OnCycle s name := by
  intro hcycle
  obtain ⟨parent, ⟨header, hheader, _⟩, _⟩ := TransGen.head'_iff.1 hcycle
  rw [h] at hheader
  cases hheader

/-! ## What is found -/

/-- With a class the last one of its chain is found. -/
theorem exists_last_of_mem_descendants (h : name ∈ (descendants s base ∅).1) :
    ∃ last ∈ (descendants s base ∅).1, ReflTransGen (Below s) name last ∧ Extends s last base := by
  obtain ⟨between, hchain⟩ := linked_of_mem_descendants h
  induction hchain with
  | direct hc hs => exact ⟨_, h, .refl, extends_iff.2 ⟨_, hc, hs⟩⟩
  | step hc hs hb _ _ ih =>
    have hup := extends_iff.2 ⟨_, hc, hs⟩
    obtain ⟨last, hfound, hpath, hlast⟩ := ih (mem_descendants_of_extends h hup hb)
    exact ⟨last, hfound, .head hup.below hpath, hlast⟩

theorem mem_descendants_of_extends_base (hs : Shallow s base) (h : Extends s name base) :
    name ∈ (descendants s base ∅).1 :=
  (mem_descendants_iff hs).2 ⟨0, chain_zero_iff.2 h⟩

/-- A class on a cycle is found only if the base is on that cycle. The base and the classes on cycles
are not found unless a class on a cycle is found that extends the base, and where no chain is too
long, unless there is such a class. -/
theorem cyclic_descendants (s : HeaderStore) (base : Text) :
    (∀ name ∈ (descendants s base ∅).1, OnCycle s name → TransGen (Below s) base name) ∧
    ((base ∉ (descendants s base ∅).1 ∧ ∀ name ∈ (descendants s base ∅).1, ¬OnCycle s name) ↔
      ∀ last ∈ (descendants s base ∅).1, Extends s last base → ¬OnCycle s last) ∧
    (Shallow s base →
      ((base ∉ (descendants s base ∅).1 ∧ ∀ name ∈ (descendants s base ∅).1, ¬OnCycle s name) ↔
        ¬Returns s base)) := by
  have hiff : (base ∉ (descendants s base ∅).1 ∧
      ∀ name ∈ (descendants s base ∅).1, ¬OnCycle s name) ↔
        ∀ last ∈ (descendants s base ∅).1, Extends s last base → ¬OnCycle s last := by
    constructor
    · rintro ⟨_, hcycles⟩ last hfound _
      exact hcycles last hfound
    · intro hlasts
      constructor
      · intro hbase
        obtain ⟨last, hfound, hpath, hlast⟩ := exists_last_of_mem_descendants hbase
        exact hlasts last hfound hlast (.head' hlast.below hpath)
      · intro name hname hcycle
        obtain ⟨last, hfound, hpath, hlast⟩ := exists_last_of_mem_descendants hname
        exact hlasts last hfound hlast (hcycle.of_above hpath)
  refine ⟨?_, hiff, ?_⟩
  · intro name hname hcycle
    obtain ⟨last, _, hpath, hlast⟩ := exists_last_of_mem_descendants hname
    exact hcycle.back (hpath.tail hlast.below)
  · intro hs
    rw [hiff]
    constructor
    · rintro hlasts ⟨last, hlast, hcycle⟩
      exact hlasts last (mem_descendants_of_extends_base hs hlast) hlast hcycle
    · intro hreturns last _ hlast hcycle
      exact hreturns ⟨last, hlast, hcycle⟩

/-- Two classes that extend each other. -/
def mutualClasses : HeaderStore :=
  .ofSources [⟨"app", [("a/B", ⟨33, some "a/C"⟩), ("a/C", ⟨33, some "a/B"⟩)]⟩]

theorem extends_mutualClasses :
    Extends mutualClasses "a/C" "a/B" ∧ Extends mutualClasses "a/B" "a/C" := by
  constructor
  · exact ⟨⟨33, some "a/B"⟩, by decide +kernel, rfl, rfl⟩
  · exact ⟨⟨33, some "a/C"⟩, by decide +kernel, rfl, rfl⟩

theorem onCycle_mutualClasses : OnCycle mutualClasses "a/C" :=
  .tail (.single extends_mutualClasses.1.below) extends_mutualClasses.2.below

theorem shallow_mutualClasses : Shallow mutualClasses "a/B" :=
  shallow_of_length_le (by decide +kernel)

theorem mem_descendants_mutualClasses : ("a/C" : Text) ∈ (descendants mutualClasses "a/B" ∅).1 :=
  mem_descendants_of_extends_base shallow_mutualClasses extends_mutualClasses.1

/-- A cycle beside the base is not found, and one that the base is on is. -/
theorem cyclic_descendants_twoCycles :
    (¬Returns branchesAndCycle "a/B" ∧ ("a/C" : Text) ∈ (descendants branchesAndCycle "a/B" ∅).1 ∧
      ("a/B" : Text) ∉ (descendants branchesAndCycle "a/B" ∅).1 ∧
      ¬OnCycle branchesAndCycle "a/C") ∧
    Shallow mutualClasses "a/B" ∧ ("a/C" : Text) ∈ (descendants mutualClasses "a/B" ∅).1 ∧
      OnCycle mutualClasses "a/C" ∧ TransGen (Below mutualClasses) "a/B" "a/C" ∧
      ¬(("a/B" : Text) ∉ (descendants mutualClasses "a/B" ∅).1 ∧
        ∀ name ∈ (descendants mutualClasses "a/B" ∅).1, ¬OnCycle mutualClasses name) := by
  constructor
  · have hreturns : ¬Returns branchesAndCycle "a/B" := by
      intro h
      exact not_onCycle_of_header?_eq_none (by decide +kernel) h.onCycle
    have hs : Shallow branchesAndCycle "a/B" := shallow_of_length_le (by decide +kernel)
    have hchild : Extends branchesAndCycle "a/C" "a/B" :=
      ⟨⟨33, some "a/B"⟩, by decide +kernel, rfl, rfl⟩
    have hfound := mem_descendants_of_extends_base hs hchild
    obtain ⟨_, hiff, _⟩ := cyclic_descendants branchesAndCycle "a/B"
    obtain ⟨hbase, hcycles⟩ := hiff.2 fun last _ hlast hcycle => hreturns ⟨last, hlast, hcycle⟩
    exact ⟨hreturns, hfound, hbase, hcycles "a/C" hfound⟩
  · have hfound := mem_descendants_mutualClasses
    have hcycle := onCycle_mutualClasses
    obtain ⟨hback, _, hiff⟩ := cyclic_descendants mutualClasses "a/B"
    refine ⟨shallow_mutualClasses, hfound, hcycle, hback "a/C" hfound hcycle, ?_⟩
    intro hnone
    exact (hiff shallow_mutualClasses).1 hnone ⟨"a/C", extends_mutualClasses.1, hcycle⟩

/-- The base is found below itself, and so is the other class of its cycle. -/
theorem descendants_mutualClasses : ("a/B" : Text) ∈ (descendants mutualClasses "a/B" ∅).1 ∧
    ("a/C" : Text) ∈ (descendants mutualClasses "a/B" ∅).1 ∧ OnCycle mutualClasses "a/C" := by
  have hchain : Chain mutualClasses "a/B" 1 "a/B" := by
    apply chain_succ_iff.2
    refine ⟨"a/C", extends_mutualClasses.2, by decide, by decide, ?_⟩
    exact chain_zero_iff.2 extends_mutualClasses.1
  refine ⟨?_, mem_descendants_mutualClasses, onCycle_mutualClasses⟩
  exact (mem_descendants_iff shallow_mutualClasses).2 ⟨1, hchain⟩

end SubclassIndex
