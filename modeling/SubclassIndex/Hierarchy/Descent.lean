import SubclassIndex.ClassName
import SubclassIndex.Hierarchy.HeaderStore
import SubclassIndex.NameSet

/-!
# Descent from a base

A class descends from a base if a chain of superclasses leads from it to the base and every class of
the chain is concrete. `Chain` says so with the number of classes between the two; `isDescendant`
climbs the chain, remembers the verdict for every class it passes and gives up after `maxBetween`
classes. An abstract class or an interface in between ends the climb, even where the base lies
further up.
-/

namespace SubclassIndex

/-- A class with a number of others between it and a base: all of them are concrete, and none in
between is the base or the root of all classes. -/
inductive Chain (s : HeaderStore) (base : Text) : Nat → Text → Prop
  | direct {name : Text} {header : Header} : s.concrete? name = some header →
    header.superclass = some base → Chain s base 0 name
  | step {between : Nat} {name parent : Text} {header : Header} :
    s.concrete? name = some header → header.superclass = some parent → parent ≠ base →
    parent ≠ ClassName.object → Chain s base between parent → Chain s base (between + 1) name

/-- A class that descends from a base, with however many classes in between. -/
def Linked (s : HeaderStore) (base name : Text) : Prop := ∃ between, Chain s base between name

/-- Verdicts about one base: which classes descend from it and which do not. -/
abbrev Verdicts := Table Text Bool

namespace Verdicts

/-- Records one verdict for several classes. What is already recorded stays. -/
def settle (memo : Verdicts) (names : List Text) (verdict : Bool) : Verdicts :=
  names.foldl (fun memo name => memo.insertNew name verdict) memo

end Verdicts

/-- The most classes that may lie between a class and a base. -/
def maxBetween : Nat := 256

/-- The climb from a superclass: the classes passed and the verdict. `budget` bounds the number of
superclasses looked at, and `passed` holds those passed so far, backwards. -/
def climb (s : HeaderStore) (base : Text) (memo : Verdicts) :
    (budget : Nat) → (superclass : Option Text) → (passed : List Text) → List Text × Bool
  | _, none, passed => (passed.reverse, false)
  | 0, some _, passed => (passed.reverse, false)
  | budget + 1, some name, passed =>
    if name = base then (passed.reverse, true)
    else if name = ClassName.object then (passed.reverse, false)
    else
      match memo.get? name with
      | some verdict => (passed.reverse, verdict)
      | none =>
        match s.concrete? name with
        | none => (passed.reverse, false)
        | some header => climb s base memo budget header.superclass (name :: passed)

/-- Whether a class descends from the base, and the verdicts known afterwards. -/
def isDescendant (s : HeaderStore) (base name : Text) (memo : Verdicts) : Bool × Verdicts :=
  match memo.get? name with
  | some verdict => (verdict, memo)
  | none =>
    match s.concrete? name with
    | none => (false, memo.insert name false)
    | some header =>
      let (passed, verdict) := climb s base memo (maxBetween + 1) header.superclass [name]
      (verdict, memo.settle passed verdict)

/-- The descendants of a base among some classes, added to those found before. -/
def descendantsAmong (s : HeaderStore) (base : Text) (names : List Text)
    (found : NameSet × Verdicts) : NameSet × Verdicts :=
  names.foldl (fun (found, memo) name =>
    let (verdict, memo) := isDescendant s base name memo
    (if verdict then found.insert name else found, memo)) found

/-- The concrete classes of a store in its order. -/
def concreteNames (s : HeaderStore) : List Text :=
  (s.entries.filter fun e => e.2.header.isConcrete).map Prod.fst

/-- All classes of the store that descend from a base, and the verdicts known afterwards. -/
def descendants (s : HeaderStore) (base : Text) (memo : Verdicts) : NameSet × Verdicts :=
  descendantsAmong s base (concreteNames s) (∅, memo)

end SubclassIndex
