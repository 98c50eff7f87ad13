import SubclassIndex.Proofs.Properties.FormatLines
import SubclassIndex.Proofs.TableLemmas

/-!
# Texts one after another

A text that follows another one on lines of its own is read as if it stood alone, and its entries
override those of the text before it (`read_append`). The only thing that can reach over the line
feed between the two is a logical line that is still open (`endsOpen`): whether one is, is all that
the joining of natural lines remembers of a text (`logicalLines_go_append`).
-/

namespace SubclassIndex.Properties

variable {t t' : Text} {line : Text} {lines : List Text} {held : Option Text}

/-- Whether a logical line is open after a natural line. It was open before or begins here, in a line
that is neither blank nor a comment, and the natural line ends in an odd number of backslashes. -/
def openAfter (isOpen : Bool) (line : Text) : Bool :=
  let line := line.dropWhile isSpace
  (isOpen || !isSkipped line) && continues line

/-- Whether a text ends in a logical line that goes on. -/
def endsOpen (t : Text) : Bool := t.lines.foldl openAfter false

theorem openAfter_of_counts (h : Counts held (line.dropWhile isSpace)) :
    openAfter held.isSome line = continues (line.dropWhile isSpace) := by
  cases held with
  | none => rw [openAfter, h rfl]; rfl
  | some front => rfl

/-- Natural lines after which no logical line is open are joined apart from those that follow. -/
theorem logicalLines_go_append (held : Option Text)
    (h : lines.foldl openAfter held.isSome = false) (lines' : List Text) :
    logicalLines.go held (lines ++ lines') =
      logicalLines.go held lines ++ logicalLines.go none lines' := by
  induction lines generalizing held with
  | nil =>
    cases held with
    | none => rfl
    | some front => cases h
  | cons line lines ih =>
    rw [List.foldl_cons] at h
    rw [List.cons_append]
    by_cases hcounts : Counts held (line.dropWhile isSpace)
    · rw [openAfter_of_counts hcounts] at h
      cases hgoes : continues (line.dropWhile isSpace) with
      | true =>
        rw [hgoes] at h
        rw [logicalLines_go_of_continues rfl hcounts hgoes,
          logicalLines_go_of_continues rfl hcounts hgoes]
        exact ih _ h
      | false =>
        rw [hgoes] at h
        rw [logicalLines_go_of_ends rfl hcounts hgoes, logicalLines_go_of_ends rfl hcounts hgoes,
          List.cons_append]
        exact congrArg _ (ih none h)
    · obtain ⟨rfl, hskipped⟩ : held = none ∧ isSkipped (line.dropWhile isSpace) = true := by
        simpa [Counts] using hcounts
      rw [logicalLines_go_skipped hskipped, logicalLines_go_skipped hskipped]
      refine ih none ?_
      rwa [openAfter, hskipped] at h

theorem entries_append (h : endsOpen t = false) (t' : Text) :
    entries (t ++ "\n" ++ t') = entries t ++ entries t' := by
  obtain ⟨blank, hblank, hlines⟩ := Text.lines_append_feed t t'
  have hskip : logicalLines.go none (blank ++ t'.lines) = logicalLines t'.lines := by
    rcases hblank with rfl | rfl
    · rfl
    · exact logicalLines_go_skipped rfl
  have hjoined : logicalLines (t ++ "\n" ++ t').lines =
      logicalLines t.lines ++ logicalLines t'.lines := by
    rw [hlines, List.append_assoc, logicalLines, logicalLines_go_append none h, hskip]
    rfl
  rw [entries, hjoined, List.map_append]
  rfl

/-- A text after another one that ends in no open logical line, with a line feed between the two:
the keys of the first come first, in their order and with the values that the second has for them,
then the other keys of the second with theirs. -/
theorem read_append (h : endsOpen t = false) (t' : Text) :
    read (t ++ "\n" ++ t') = (read t).overriddenBy (read t') := by
  rw [read, entries_append h, Table.ofList_append]
  rfl

/-- A value over two lines, a comment that ends in a backslash, and a carriage return that the line
feed belongs to; in the second text a key of the first one and a line that is open at the end. -/
theorem read_append_commentedText :
    endsOpen "a=1\\\r\n  2\nb=3\n#c\\\r" = false ∧
    read ("a=1\\\r\n  2\nb=3\n#c\\\r" ++ "\n" ++ "c=4\na=5\\") =
      (read "a=1\\\r\n  2\nb=3\n#c\\\r").overriddenBy (read "c=4\na=5\\") ∧
    (read ("a=1\\\r\n  2\nb=3\n#c\\\r" ++ "\n" ++ "c=4\na=5\\")).entries =
      [(("a" : Text), ("5" : Text)), ("b", "3"), ("c", "4")] := by
  have hclosed : endsOpen "a=1\\\r\n  2\nb=3\n#c\\\r" = false := by decide
  have hread := read_append hclosed "c=4\na=5\\"
  exact ⟨hclosed, hread, by decide +kernel⟩

/-- What follows an open logical line belongs to it. -/
example : endsOpen "a=\\" = true ∧
    (read ("a=\\" ++ "\n" ++ "b=1")).entries = [(("a" : Text), ("b=1" : Text))] := by
  decide

end SubclassIndex.Properties
