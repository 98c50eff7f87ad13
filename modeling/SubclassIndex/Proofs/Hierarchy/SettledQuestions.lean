import Mathlib.Logic.Relation
import SubclassIndex.Proofs.Hierarchy.RecordedAcceptances

/-!
# What a question leaves behind

Whatever is recorded before a question stays, and what the question adds is its own verdict, for the
class that was asked about and for superclasses of it only. Asked again, it is answered from the
record (`isDescendant_record`). A climb goes on from concrete classes to their superclasses, so each
class that it passes is reached from the one it began with (`path_of_mem_climb`).
-/

namespace SubclassIndex

open Relation

variable {s : HeaderStore} {base name parent : Text} {memo : Verdicts} {verdict : Bool}
  {budget : Nat} {superclass : Option Text} {passed : List Text}

/-- A climb passes only classes to which superclasses of concrete classes lead. -/
theorem path_of_mem_climb (h : name ∈ (climb s base memo budget superclass passed).1) :
    name ∈ passed ∨ ∃ parent, superclass = some parent ∧ ReflTransGen (Extends s) parent name := by
  fun_induction climb s base memo budget superclass passed with
  | case1 | case2 | case3 | case4 | case5 | case6 => exact .inl (List.mem_reverse.1 h)
  | case7 budget parent passed _ _ _ header hc ih =>
    rcases ih h with hmem | ⟨grandparent, hs, hpath⟩
    · rcases List.mem_cons.1 hmem with rfl | hmem
      · exact .inr ⟨name, rfl, .refl⟩
      · exact .inl hmem
    · have hfirst : Extends s parent grandparent := extends_iff.2 ⟨header, hc, hs⟩
      exact .inr ⟨parent, rfl, .head hfirst hpath⟩

namespace Verdicts

/-- Only the class in question and its superclasses get a verdict from a question. -/
theorem path_of_isDescendant {n : Text} (hnew : memo.get? n = none)
    (h : (isDescendant s base name memo).2.get? n = some verdict) :
    ReflTransGen (Extends s) name n := by
  rcases isDescendant_cases s base name memo with
    ⟨_, _, heq⟩ | ⟨_, _, heq⟩ | ⟨header, passed, _, _, hc, hclimb, heq⟩
  · rw [heq, hnew] at h
    cases h
  · rw [heq, Table.get?_insert] at h
    split at h
    · next hname =>
      rw [hname]
    · rw [hnew] at h
      cases h
  · rw [heq, get?_settle, hnew, Option.none_or] at h
    split at h
    · next hmem =>
      have hpassed : n ∈ (climb s base memo (maxBetween + 1) header.superclass [name]).1 := by
        rwa [hclimb]
      rcases path_of_mem_climb hpassed with hself | ⟨parent, hs, hpath⟩
      · rw [List.mem_singleton.1 hself]
      · have hfirst : Extends s name parent := extends_iff.2 ⟨header, hc, hs⟩
        exact .head hfirst hpath
    · cases h

end Verdicts

/-- A question changes no recorded verdict. It records its own for the class in question and
otherwise only for classes without a verdict to which superclasses of concrete classes lead from it.
Asked again with what is recorded then, it gives the same answer and records nothing. -/
theorem isDescendant_record (s : HeaderStore) (base name : Text) (memo : Verdicts) :
    (∀ n verdict, memo.get? n = some verdict →
      (isDescendant s base name memo).2.get? n = some verdict) ∧
    (isDescendant s base name memo).2.get? name = some (isDescendant s base name memo).1 ∧
    (∀ n verdict, memo.get? n = none →
      (isDescendant s base name memo).2.get? n = some verdict →
        verdict = (isDescendant s base name memo).1 ∧ ReflTransGen (Extends s) name n) ∧
    isDescendant s base name (isDescendant s base name memo).2 = isDescendant s base name memo := by
  have hself := Verdicts.get?_isDescendant_self s base name memo
  refine ⟨fun n verdict => Verdicts.get?_isDescendant_of_recorded name, hself, ?_, ?_⟩
  · intro n verdict hnew hrecorded
    refine ⟨?_, Verdicts.path_of_isDescendant hnew hrecorded⟩
    rcases Verdicts.get?_isDescendant hrecorded with hold | ⟨hverdict, _⟩
    · rw [hnew] at hold
      cases hold
    · exact hverdict
  · exact isDescendant_of_recorded hself

/-- A question about a cycle passes each of its classes again and again, and settles each once. -/
example : (isDescendant branchesAndCycle "a/B" "x/X" ∅).2.entries =
    [(("x/X" : Text), false), ("x/Y", false)] := by
  decide +kernel

end SubclassIndex
