import SubclassIndex.ClassName
import SubclassIndex.Proofs.TextLemmas
import SubclassIndex.Properties.Reader

/-!
# Plain names

A name is plain if the readers of an index take none of its code points for anything but itself.
Dotting a plain name leaves it plain, and a name without dots is found again from its dotted form.
-/

namespace SubclassIndex

/-- A code point that stands for itself in an index: no blank, and none of the signs that separate
or escape. -/
def CodePoint.isPlain (c : CodePoint) : Bool :=
  !(c.isBlank || c = ',' || c = '\\' || c = '=' || c = ':')

/-- A name that an index can hold: plain code points, of which the first opens no comment. -/
structure ClassName.Plain (name : Text) : Prop where
  ne_nil : name ≠ []
  points : ∀ c ∈ name, c.isPlain = true
  head : ∀ c ∈ name.head?, Properties.isCommentSign c = false

instance (name : Text) : Decidable (ClassName.Plain name) :=
  decidable_of_iff (name ≠ [] ∧ (∀ c ∈ name, c.isPlain = true) ∧
      name.head?.all (fun c => !Properties.isCommentSign c) = true)
    ⟨fun ⟨ne_nil, points, head⟩ => ⟨ne_nil, points, fun c hc => by
        rw [Option.mem_def.1 hc] at head
        simpa using head⟩,
      fun ⟨ne_nil, points, head⟩ => ⟨ne_nil, points, by
        cases hd : name.head? with
        | none => rfl
        | some c => simpa using head c hd⟩⟩

namespace CodePoint

variable {c : CodePoint}

theorem isBlank_of_isLineEnd (h : c.isLineEnd = true) : c.isBlank = true := by
  simp only [isLineEnd, Bool.or_eq_true, Bool.and_eq_true, decide_eq_true_eq, beq_iff_eq] at h
  simp only [isBlank, blankRanges, List.any_cons, List.any_nil, Bool.or_eq_true,
    Bool.and_eq_true, decide_eq_true_eq]
  omega

theorem isBlank_of_isSpace (h : Properties.isSpace c = true) : c.isBlank = true := by
  simp only [Properties.isSpace, Bool.or_eq_true, decide_eq_true_eq] at h
  rcases h with (rfl | rfl) | rfl <;> decide

theorem isPlain_iff : c.isPlain = true ↔
    c.isBlank = false ∧ c ≠ ',' ∧ c ≠ '\\' ∧ c ≠ '=' ∧ c ≠ ':' := by
  simp [isPlain, and_assoc]

theorem isLineEnd_of_isPlain (h : c.isPlain = true) : c.isLineEnd = false :=
  Bool.eq_false_iff.2 fun he => Bool.eq_false_iff.1 (isPlain_iff.1 h).1 (isBlank_of_isLineEnd he)

theorem isSpace_of_isPlain (h : c.isPlain = true) : Properties.isSpace c = false :=
  Bool.eq_false_iff.2 fun he => Bool.eq_false_iff.1 (isPlain_iff.1 h).1 (isBlank_of_isSpace he)

theorem isSeparator_of_isPlain (h : c.isPlain = true) : Properties.isSeparator c = false := by
  obtain ⟨_, _, _, heq, hcolon⟩ := isPlain_iff.1 h
  simp [Properties.isSeparator, heq, hcolon]

end CodePoint

namespace ClassName

variable {name name' : Text} {names : List Text} {c c' : CodePoint}

/-! ## Dotted names -/

theorem dottedPoint_lt (h : c ≠ '.') (h' : c' ≠ '.') (hlt : c < c') :
    (if c = '/' then CodePoint.ofChar '.' else c) <
      if c' = '/' then CodePoint.ofChar '.' else c' := by
  have hdot : ∀ c : CodePoint, c ≠ '.' → c.val ≠ 46 := fun c h heq => h (CodePoint.ext heq)
  have hslash : ∀ c : CodePoint, c ≠ '/' → c.val ≠ 47 := fun c h heq => h (CodePoint.ext heq)
  have hval : (CodePoint.ofChar '.').val = 46 ∧ (CodePoint.ofChar '/').val = 47 := ⟨rfl, rfl⟩
  have hc := hdot c h
  have hc' := hdot c' h'
  rw [CodePoint.lt_def] at hlt ⊢
  split <;> split
  · next hcs hcs' =>
    subst hcs hcs'
    omega
  · next hcs _ =>
    subst hcs
    omega
  · next hcs' =>
    subst hcs'
    omega
  · exact hlt

theorem internal_eq_self (h : CodePoint.ofChar '.' ∉ name) : internal name = name :=
  Text.replacePoint_eq_self h

/-- A name without dots is found again from its dotted form. -/
theorem internal_dotted_eq_self (h : CodePoint.ofChar '.' ∉ name) :
    internal (dotted name) = name := by
  rw [internal_dotted, internal_eq_self h]

theorem dotted_inj (h : CodePoint.ofChar '.' ∉ name) (h' : CodePoint.ofChar '.' ∉ name')
    (heq : dotted name = dotted name') : name = name' := by
  rw [← internal_dotted_eq_self h, heq, internal_dotted_eq_self h']

theorem not_mem_internal : CodePoint.ofChar '.' ∉ internal name :=
  Text.not_mem_replacePoint (by decide)

/-- Only a name with slashes is changed by dotting it. -/
theorem dotted_eq_self_iff : dotted name = name ↔ CodePoint.ofChar '/' ∉ name := by
  constructor
  · intro h
    rw [← h]
    exact Text.not_mem_replacePoint (by decide)
  · exact Text.replacePoint_eq_self

/-- Dotting keeps the order of names without dots: no code point lies between a dot and a slash. -/
theorem dotted_lt_dotted (h : CodePoint.ofChar '.' ∉ name) (h' : CodePoint.ofChar '.' ∉ name')
    (hlt : name < name') : dotted name < dotted name' := by
  induction name generalizing name' with
  | nil =>
    cases name' with
    | nil => exact absurd hlt (List.not_lt_nil _)
    | cons c' name' => exact List.nil_lt_cons _ _
  | cons c name ih =>
    cases name' with
    | nil => exact absurd hlt (List.not_lt_nil _)
    | cons c' name' =>
      obtain ⟨hc, hname⟩ := List.ne_and_not_mem_of_not_mem_cons h
      obtain ⟨hc', hname'⟩ := List.ne_and_not_mem_of_not_mem_cons h'
      refine List.cons_lt_cons_iff.2 ?_
      rcases List.cons_lt_cons_iff.1 hlt with hpoint | ⟨rfl, hrest⟩
      · exact .inl (dottedPoint_lt hc.symm hc'.symm hpoint)
      · exact .inr ⟨rfl, ih hname hname' hrest⟩

/-! ## Lists of names without dots -/

theorem nodup_map_dotted (hd : names.Nodup) (hdot : ∀ n ∈ names, CodePoint.ofChar '.' ∉ n) :
    (names.map dotted).Nodup := by
  refine List.pairwise_map.2 (List.Pairwise.imp_of_mem ?_ hd)
  intro n n' hn hn' hne heq
  exact hne (dotted_inj (hdot n hn) (hdot n' hn') heq)

/-- Ascending names without dots are still ascending when they are dotted. -/
theorem pairwise_map_dotted (ha : names.Pairwise (· < ·))
    (hdot : ∀ n ∈ names, CodePoint.ofChar '.' ∉ n) : (names.map dotted).Pairwise (· < ·) := by
  refine List.pairwise_map.2 (ha.imp_of_mem ?_)
  exact fun hn hn' => dotted_lt_dotted (hdot _ hn) (hdot _ hn')

/-! ## Plain names -/

namespace Plain

/-- A plain name stays plain with one sign turned into another, if the new one is plain. -/
theorem replacePoint {old new : CodePoint} (h : Plain name) (hnew : new.isPlain = true)
    (hhead : Properties.isCommentSign new = false) : Plain (name.replacePoint old new) where
  ne_nil := fun heq => h.ne_nil (List.map_eq_nil_iff.1 heq)
  points := fun c hc => by
    rcases Text.mem_replacePoint hc with hc | rfl
    · exact h.points c hc
    · exact hnew
  head := fun c hc => by
    obtain ⟨ne_nil, points, head⟩ := h
    cases name with
    | nil => cases hc
    | cons c' name =>
      cases hc
      dsimp only
      split
      · exact hhead
      · exact head c' rfl

theorem dotted (h : Plain name) : Plain (dotted name) := h.replacePoint (by decide) (by decide)

theorem internal (h : Plain name) : Plain (internal name) := h.replacePoint (by decide) (by decide)

theorem not_mem_of_isPlain (h : Plain name) (hc : c.isPlain = false) : c ∉ name :=
  fun hmem => Bool.eq_false_iff.1 hc (h.points c hmem)

theorem isBlank (h : Plain name) : ∀ c ∈ name, c.isBlank = false :=
  fun c hc => (CodePoint.isPlain_iff.1 (h.points c hc)).1

end Plain

end ClassName

end SubclassIndex
