import SubclassIndex.Proofs.Hierarchy.Verdicts

/-!
# Questions that share their verdicts

Questions about one base are asked one after another, each with the verdicts that those before it
recorded. Whatever the order, a class that is accepted is linked to the base, and where no chain is
too long for a climb a class is accepted exactly if it is linked (`answers_linked`). What carries
this is that a question records its own verdict only, and only for classes that are linked exactly
if the one that was asked about is (`Verdicts.get?_isDescendant`).
-/

namespace SubclassIndex

/-- The answers to questions that are asked one after another, and the verdicts recorded in the
end. -/
def answers (s : HeaderStore) (base : Text) :
    List Text → Verdicts → List (Text × Bool) × Verdicts
  | [], memo => ([], memo)
  | name :: names, memo =>
    let (verdict, memo) := isDescendant s base name memo
    let (rest, memo) := answers s base names memo
    ((name, verdict) :: rest, memo)

variable {s : HeaderStore} {base name : Text} {memo : Verdicts} {names : List Text}

theorem answers_cons : answers s base (name :: names) memo =
    ((name, (isDescendant s base name memo).1) ::
        (answers s base names (isDescendant s base name memo).2).1,
      (answers s base names (isDescendant s base name memo).2).2) := rfl

theorem map_fst_answers (memo : Verdicts) :
    (answers s base names memo).1.map Prod.fst = names := by
  induction names generalizing memo with
  | nil => rfl
  | cons name names ih => rw [answers_cons, List.map_cons, ih]

/-- What each question answers and keeps, all questions answer and keep that are asked one after
another. -/
theorem answers_of_step (Right : Text → Bool → Prop) {Kept : Verdicts → Prop}
    (hstep : ∀ memo name, Kept memo → Right name (isDescendant s base name memo).1 ∧
      Kept (isDescendant s base name memo).2) (hm : Kept memo) (names : List Text) :
    (∀ answer ∈ (answers s base names memo).1, Right answer.1 answer.2) ∧
      Kept (answers s base names memo).2 := by
  induction names generalizing memo with
  | nil => exact ⟨fun _ h => absurd h List.not_mem_nil, hm⟩
  | cons name names ih =>
    obtain ⟨hfirst, hm⟩ := hstep memo name hm
    obtain ⟨hrest, hm⟩ := ih hm
    rw [answers_cons]
    exact ⟨List.forall_mem_cons.2 ⟨hfirst, hrest⟩, hm⟩

namespace Verdicts

/-- Every recorded acceptance is right. -/
def Sound (s : HeaderStore) (base : Text) (memo : Verdicts) : Prop :=
  ∀ name, memo.get? name = some true → Linked s base name

theorem sound_empty : Verdicts.Sound s base ∅ := by
  intro name h
  cases h

/-- A question accepts only linked classes and records no other acceptance. -/
theorem Sound.isDescendant (hm : memo.Sound s base) (name : Text) :
    ((isDescendant s base name memo).1 = true → Linked s base name) ∧
      (isDescendant s base name memo).2.Sound s base := by
  have hverdict : (SubclassIndex.isDescendant s base name memo).1 = true → Linked s base name := by
    intro h
    rcases isDescendant_cases s base name memo with
      ⟨_, hrecorded, heq⟩ | ⟨_, _, heq⟩ | ⟨header, passed, v, _, hc, hclimb, heq⟩
    · rw [heq] at h
      exact hm name (h ▸ hrecorded)
    · rw [heq] at h
      cases h
    · have hsucceeded : (climb s base memo (maxBetween + 1) header.superclass [name]).2 = true := by
        rw [hclimb]
        rwa [heq] at h
      exact (linked_iff hc).2 (reaches_of_climb hm hsucceeded)
  refine ⟨hverdict, ?_⟩
  intro n hn
  rcases get?_isDescendant hn with hrecorded | ⟨haccepted, hlinked⟩
  · exact hm n hrecorded
  · exact hlinked.2 (hverdict haccepted.symm)

end Verdicts

/-- Of questions that begin with nothing recorded each is answered, no class is accepted or recorded
as accepted that is not linked to the base, and where no chain is too long all answers and all
recorded verdicts are right. -/
theorem answers_linked (s : HeaderStore) (base : Text) (names : List Text) :
    (answers s base names ∅).1.map Prod.fst = names ∧
    (∀ answer ∈ (answers s base names ∅).1, answer.2 = true → Linked s base answer.1) ∧
    (∀ name, (answers s base names ∅).2.get? name = some true → Linked s base name) ∧
    (Shallow s base →
      (∀ answer ∈ (answers s base names ∅).1, answer.2 = true ↔ Linked s base answer.1) ∧
      ∀ name verdict, (answers s base names ∅).2.get? name = some verdict →
        (verdict = true ↔ Linked s base name)) := by
  obtain ⟨haccepted, hrecorded⟩ :=
    answers_of_step (fun name verdict => verdict = true → Linked s base name)
      (fun _ name hm => hm.isDescendant name) Verdicts.sound_empty names
  refine ⟨map_fst_answers ∅, haccepted, hrecorded, ?_⟩
  intro hs
  exact answers_of_step (fun name verdict => verdict = true ↔ Linked s base name)
    (fun _ name hm => hm.isDescendant hs name) Verdicts.exact_empty names

/-- Questions about two branches and a cycle, from the middle of a branch to its end and with a
repetition. -/
theorem answers_linked_branchesAndCycle : Shallow branchesAndCycle "a/B" ∧
    ∀ answer ∈ (answers branchesAndCycle "a/B" ["x/Y", "a/C", "a/D", "x/X", "a/C"] ∅).1,
      answer.2 = true ↔ Linked branchesAndCycle "a/B" answer.1 :=
  have hs : Shallow branchesAndCycle "a/B" := shallow_of_length_le (by decide +kernel)
  ⟨hs, ((answers_linked branchesAndCycle "a/B" ["x/Y", "a/C", "a/D", "x/X", "a/C"]).2.2.2 hs).1⟩

end SubclassIndex
