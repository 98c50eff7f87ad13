import SubclassIndex.Properties.Reader

/-!
# Lines without backslashes

Where no backslash occurs, each natural line that is not skipped is a logical line
(`logicalLines_eq_self`) and a key and a value mean what is written (`entryOf_append`).
-/

namespace SubclassIndex.Properties

variable {line key value t : Text} {lines : List Text} {c : CodePoint}

theorem continues_eq_false (h : CodePoint.ofChar '\\' ∉ line) : continues line = false := by
  have hnone : line.reverse.takeWhile (fun c : CodePoint => c = '\\') = [] := by
    cases hl : line.reverse with
    | nil => rfl
    | cons c rest =>
      have hc : c ∈ line := List.mem_reverse.1 (hl ▸ List.mem_cons_self)
      rw [List.takeWhile_cons, if_neg]
      exact fun heq => h (of_decide_eq_true heq ▸ hc)
  rw [continues, hnone]
  rfl

/-- Lines that begin with neither white space nor a comment sign are logical lines as they are. -/
theorem logicalLines_eq_self (h : ∀ line ∈ lines, CodePoint.ofChar '\\' ∉ line ∧
      ∃ c, line.head? = some c ∧ isSpace c = false ∧ isCommentSign c = false) :
    logicalLines lines = lines := by
  induction lines with
  | nil => rfl
  | cons line lines ih =>
    obtain ⟨hline, c, hhead, hspace, hsign⟩ := h line List.mem_cons_self
    have ih := ih fun line' h' => h line' (List.mem_cons_of_mem _ h')
    have hdrop : line.dropWhile isSpace = line ∧ isSkipped line = false := by
      cases line with
      | nil => cases hhead
      | cons c' line =>
        cases hhead
        exact ⟨by simp [hspace], hsign⟩
    rw [logicalLines] at ih ⊢
    rw [logicalLines.go]
    simp only [hdrop.1, hdrop.2, continues_eq_false hline, Bool.false_eq_true, if_false, ih]

theorem unescape_eq_self (h : CodePoint.ofChar '\\' ∉ t) : unescape t = t := by
  unfold unescape
  induction t with
  | nil => rfl
  | cons c t ih =>
    obtain ⟨hc, ht⟩ := List.ne_and_not_mem_of_not_mem_cons h
    cases t with
    | nil => rfl
    | cons d t => rw [unescape.go, if_neg (Ne.symm hc), ih ht]

theorem splitKey_append (h : ∀ c ∈ key, isSeparator c = false ∧ isSpace c = false ∧ c ≠ '\\')
    (hc : isSeparator c = true) : splitKey (key ++ c :: t) = (key, c :: t) := by
  unfold splitKey
  induction key with
  | nil => simp [splitKey.go, hc]
  | cons c' key ih =>
    obtain ⟨hsep, hspace, hne⟩ := h c' List.mem_cons_self
    have ih := ih fun c h' => h c (List.mem_cons_of_mem _ h')
    rw [List.cons_append, splitKey.go]
    simp [hsep, hspace, hne, ih]

/-- An entry whose key and value mean what is written. -/
theorem entryOf_append (hkey : ∀ c ∈ key, isSeparator c = false ∧ isSpace c = false ∧ c ≠ '\\')
    (hvalue : CodePoint.ofChar '\\' ∉ value) (hhead : ∀ c ∈ value.head?, isSpace c = false) :
    entryOf (key ++ "=" ++ value) = (key, value) := by
  have hsplit : splitKey (key ++ "=" ++ value) = (key, "=" ++ value) := by
    rw [List.append_assoc]
    exact splitKey_append hkey rfl
  have hdrop : dropSeparator ("=" ++ value) = value := by
    cases value with
    | nil => rfl
    | cons c value =>
      have hc := hhead c rfl
      change (c :: value).dropWhile isSpace = c :: value
      simp [hc]
  have hkey' : CodePoint.ofChar '\\' ∉ key := fun h => (hkey _ h).2.2 rfl
  rw [entryOf, hsplit]
  simp only [hdrop, unescape_eq_self hkey', unescape_eq_self hvalue]

end SubclassIndex.Properties
