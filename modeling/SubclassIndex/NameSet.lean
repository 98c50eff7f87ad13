import SubclassIndex.Text.Basic

/-!
# Sets of names

A finite set of texts is kept as its strictly ascending list, so two sets with the same members are
equal and a set is printed as it stands.
-/

namespace SubclassIndex

namespace Text

instance : Trans (α := CodePoint) (· < ·) (· < ·) (· < ·) := ⟨CodePoint.lt_trans⟩

theorem lt_trans {a b c : Text} (h : a < b) (h' : b < c) : a < c := List.lt_trans h h'

theorem lt_irrefl (a : Text) : ¬a < a :=
  haveI : Std.Irrefl (α := CodePoint) (· < ·) := ⟨CodePoint.lt_irrefl⟩
  List.lt_irrefl a

theorem eq_of_not_lt {a b : Text} (h : ¬a < b) (h' : ¬b < a) : a = b := by
  induction a generalizing b with
  | nil =>
    cases b with
    | nil => rfl
    | cons d b => exact absurd (List.nil_lt_cons d b) h
  | cons c a ih =>
    cases b with
    | nil => exact absurd (List.nil_lt_cons c a) h'
    | cons d b =>
      simp only [List.cons_lt_cons_iff, not_or, not_and] at h h'
      cases CodePoint.eq_of_not_lt h.1 h'.1
      rw [ih (h.2 rfl) (h'.2 rfl)]

end Text

/-- A finite set of texts. -/
structure NameSet where
  names : List Text
  ascending : names.Pairwise (· < ·)

namespace NameSet

@[ext] theorem ext {a b : NameSet} (h : a.names = b.names) : a = b := by
  cases a; cases b; cases h; rfl

instance : DecidableEq NameSet := fun _ _ => decidable_of_iff _ ⟨ext, congrArg _⟩

/-- The set without members. -/
def empty : NameSet := ⟨[], .nil⟩

instance : EmptyCollection NameSet := ⟨empty⟩

instance : Membership Text NameSet := ⟨fun s n => n ∈ s.names⟩

theorem mem_def {s : NameSet} {n : Text} : n ∈ s ↔ n ∈ s.names := Iff.rfl

instance (n : Text) (s : NameSet) : Decidable (n ∈ s) := inferInstanceAs (Decidable (n ∈ s.names))

theorem not_mem_empty (n : Text) : n ∉ (∅ : NameSet) := List.not_mem_nil

/-- A strictly ascending list with one more member. -/
def place (n : Text) : List Text → List Text
  | [] => [n]
  | m :: rest => if n < m then n :: m :: rest else if m < n then m :: place n rest else m :: rest

theorem mem_place {n x : Text} {l : List Text} : x ∈ place n l ↔ x = n ∨ x ∈ l := by
  induction l with
  | nil => simp [place]
  | cons m rest ih =>
    unfold place
    split
    · simp
    · split
      · simp only [List.mem_cons, ih]; grind
      · next h h' => simp [Text.eq_of_not_lt h h']

theorem ascending_place {n : Text} {l : List Text} (h : l.Pairwise (· < ·)) :
    (place n l).Pairwise (· < ·) := by
  induction l with
  | nil => simp [place]
  | cons m rest ih =>
    have ⟨hm, hrest⟩ := List.pairwise_cons.1 h
    unfold place
    split
    · next hn =>
      refine List.pairwise_cons.2 ⟨fun x hx => ?_, h⟩
      rcases List.mem_cons.1 hx with rfl | hx
      · exact hn
      · exact Text.lt_trans hn (hm x hx)
    · split
      · next hn =>
        refine List.pairwise_cons.2 ⟨fun x hx => ?_, ih hrest⟩
        rcases mem_place.1 hx with rfl | hx
        · exact hn
        · exact hm x hx
      · exact h

/-- The set with one more member. -/
def insert (n : Text) (s : NameSet) : NameSet := ⟨place n s.names, ascending_place s.ascending⟩

theorem mem_insert {n x : Text} {s : NameSet} : x ∈ s.insert n ↔ x = n ∨ x ∈ s := mem_place

/-- The set with the members of a list added. -/
def insertAll (ns : List Text) (s : NameSet) : NameSet := ns.foldl (fun s n => s.insert n) s

theorem mem_insertAll {ns : List Text} {x : Text} {s : NameSet} :
    x ∈ s.insertAll ns ↔ x ∈ ns ∨ x ∈ s := by
  induction ns generalizing s with
  | nil => simp [insertAll]
  | cons n ns ih =>
    rw [insertAll, List.foldl_cons, ← insertAll, ih, mem_insert, List.mem_cons]; grind

/-- The members of a list. -/
def ofList (ns : List Text) : NameSet := empty.insertAll ns

theorem mem_ofList {ns : List Text} {x : Text} : x ∈ ofList ns ↔ x ∈ ns := by
  rw [ofList, mem_insertAll]
  exact or_iff_left (not_mem_empty x)

/-- The members of either set. -/
def union (a b : NameSet) : NameSet := a.insertAll b.names

theorem mem_union {a b : NameSet} {x : Text} : x ∈ a.union b ↔ x ∈ a ∨ x ∈ b := by
  rw [union, mem_insertAll]; exact or_comm

/-- The number of members. -/
def size (s : NameSet) : Nat := s.names.length

end NameSet

end SubclassIndex
