/-!
# Digits

The number that digits of a base write, the first digit counting most. Neighbouring digits are
joined to digits of the squared base until one digit is left, so that also very long numbers are
read quickly.
-/

namespace SubclassIndex.Digits

/-- Neighbouring digits joined to digits of the squared base. The last digit comes first, and `done`
holds what was joined before, backwards. -/
def joined (base : Nat) : List Nat → List Nat → List Nat
  | low :: high :: rest, done => joined base rest ((high * base + low) :: done)
  | rest, done => done.reverse ++ rest

theorem length_joined (base : Nat) (ds done : List Nat) :
    (joined base ds done).length = done.length + (ds.length + 1) / 2 := by
  fun_induction joined base ds done with
  | case1 low high rest done ih => simp only [ih, List.length_cons]; omega
  | case2 rest done h =>
    match rest with
    | [] => simp
    | [d] => simp
    | low :: high :: rest => exact (h low high rest rfl).elim

/-- The number that digits write, the last digit first. -/
def backwardValue (base : Nat) : List Nat → Nat
  | [] => 0
  | [d] => d
  | low :: high :: rest => backwardValue (base * base) (joined base (low :: high :: rest) [])
termination_by ds => ds.length
decreasing_by simp only [length_joined, List.length_cons, List.length_nil]; omega

/-- The number that digits write. -/
def value (base : Nat) (ds : List Nat) : Nat := backwardValue base ds.reverse

end SubclassIndex.Digits
