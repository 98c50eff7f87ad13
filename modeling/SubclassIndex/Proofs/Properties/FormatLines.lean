import SubclassIndex.Proofs.Properties.Format
import SubclassIndex.Proofs.TextLemmas

/-!
# Logical lines by the format

The reader cuts a text into natural lines and joins those that go on; the format reads one code
point after another. By the conventions of the reader both give the same logical lines
(`Format.lines_eq_logicalLines`). So do both conventions on a text whose lines end as the format has
it and in which no line is a mere backslash (`Format.lines_ofReader`).
-/

namespace SubclassIndex.Properties

variable {line body t : Text} {lines : List Text} {held : Option Text} {c : CodePoint}

/-! ## Natural lines that go on -/

/-- One more backslash turns a line that goes on into one that does not, and the other way. -/
theorem continues_append_singleton (line : Text) (c : CodePoint) :
    continues (line ++ [c]) = (decide (c = '\\') && !continues line) := by
  unfold continues
  rw [List.reverse_append, List.reverse_singleton, List.singleton_append, List.takeWhile_cons]
  by_cases hc : c = '\\'
  · have hparity (n : Nat) : decide ((n + 1) % 2 = 1) = !decide (n % 2 = 1) := by
      by_cases hn : n % 2 = 1 <;> simp [hn] <;> omega
    simp only [hc, decide_true, if_true, List.length_cons, Bool.true_and]
    exact hparity _
  · simp [hc]

theorem eq_append_of_continues (h : continues line = true) :
    line = line.dropLast ++ [CodePoint.ofChar '\\'] := by
  obtain rfl | ⟨front, c, rfl⟩ := List.eq_nil_or_concat line
  · cases h
  · rw [List.concat_eq_append, continues_append_singleton, Bool.and_eq_true] at h
    rw [List.concat_eq_append, List.dropLast_concat, of_decide_eq_true h.1]

/-- A natural line adds something to what is held: where nothing is held it is not skipped. -/
def Counts (held : Option Text) (body : Text) : Prop := held = none → isSkipped body = false

theorem counts_some (front body : Text) : Counts (some front) body := nofun

theorem Counts.append (h : Counts held body) (hne : body ≠ []) : Counts held (body ++ [c]) := by
  cases body with
  | nil => exact absurd rfl hne
  | cons c' body => exact h

/-! ## The front of a natural line -/

/-- A natural line, read backwards, with one more code point after its leading white space. -/
theorem body_cons (hbody : line.reverse.dropWhile isSpace = body) (hne : body ≠ [])
    (c : CodePoint) : (c :: line).reverse.dropWhile isSpace = body ++ [c] := by
  rw [List.reverse_cons, List.dropWhile_append, hbody, if_neg (by simpa using hne)]

theorem body_cons_of_blank (hbody : line.reverse.dropWhile isSpace = []) (c : CodePoint) :
    (c :: line).reverse.dropWhile isSpace = if isSpace c then [] else [c] := by
  rw [List.reverse_cons, List.dropWhile_append, hbody, if_pos List.isEmpty_nil, List.dropWhile_cons,
    List.dropWhile_nil]

/-! ## The end of a natural line -/

theorem logicalLines_go_skipped (h : isSkipped (line.dropWhile isSpace) = true) :
    logicalLines.go none (line :: lines) = logicalLines.go none lines := by
  rw [logicalLines.go]
  simp only [h, if_true]

theorem logicalLines_go_of_continues (hbody : line.dropWhile isSpace = body)
    (hcounts : Counts held body) (hgoes : continues body = true) :
    logicalLines.go held (line :: lines) =
      logicalLines.go (some (held.getD [] ++ body.dropLast)) lines := by
  subst hbody
  cases held with
  | none => simp [logicalLines.go, hcounts rfl, hgoes]
  | some front => simp [logicalLines.go, hgoes]

theorem logicalLines_go_of_ends (hbody : line.dropWhile isSpace = body)
    (hcounts : Counts held body) (hends : continues body = false) :
    logicalLines.go held (line :: lines) =
      (held.getD [] ++ body) :: logicalLines.go none lines := by
  subst hbody
  cases held with
  | none => simp [logicalLines.go, hcounts rfl, hends]
  | some front => simp [logicalLines.go, hends]

namespace Format

variable {p : Position} {afterReturn : Bool}

/-- The conventions of the reader. -/
def Conventions.ofReader : Conventions := ⟨CodePoint.isLineEnd, false⟩

open Conventions (ofReader)

/-- The position of the format where the cutting reader stands: `held` is what it keeps of the
natural lines before, `line` is the natural line that it reads, backwards. -/
inductive Stands : Position → Option Text → Bool → Text → Prop
  | between {afterReturn : Bool} {line : Text} (hbody : line.reverse.dropWhile isSpace = []) :
    Stands .between none afterReturn line
  | comment {line body : Text} {c : CodePoint}
    (hbody : line.reverse.dropWhile isSpace = c :: body) (hsign : isCommentSign c = true) :
    Stands .comment none false line
  | within {held : Option Text} {line body : Text}
    (hbody : line.reverse.dropWhile isSpace = body) (hne : body ≠ []) (hcounts : Counts held body)
    (hends : continues body = false) :
    Stands (.within (held.getD [] ++ body).reverse) held false line
  | escaping {held : Option Text} {line body : Text}
    (hbody : line.reverse.dropWhile isSpace = body) (hcounts : Counts held body)
    (hgoes : continues body = true) :
    Stands (.escaping (held.getD [] ++ body.dropLast).reverse) held false line
  | resumed {front line : Text} {afterReturn : Bool}
    (hbody : line.reverse.dropWhile isSpace = []) :
    Stands (.resumed afterReturn front.reverse) (some front) afterReturn line

/-- One more code point in a logical line that no backslash escapes. -/
theorem Stands.enter (held : Option Text) (body : Text)
    (hbody : (c :: line).reverse.dropWhile isSpace = body ++ [c])
    (hcounts : Counts held (body ++ [c])) (hends : continues body = false) :
    Stands (Position.enter (held.getD [] ++ body).reverse c) held false (c :: line) := by
  have hcontinues := continues_append_singleton body c
  rw [hends, Bool.not_false, Bool.and_true] at hcontinues
  unfold Position.enter
  split
  · next hc =>
    have h := Stands.escaping hbody hcounts (hcontinues.trans (decide_eq_true hc))
    rwa [List.dropLast_concat] at h
  · next hc =>
    have h := Stands.within hbody (by simp) hcounts (hcontinues.trans (decide_eq_false hc))
    rwa [← List.append_assoc, List.reverse_append] at h

/-! ## One more code point -/

/-- A line feed after a carriage return changes nothing. -/
theorem Stands.feed (h : Stands p held true line) :
    Stands (p.next ofReader '\n').1 held false [] ∧ (p.next ofReader '\n').2 = none := by
  cases h with
  | between hbody => exact ⟨.between rfl, rfl⟩
  | resumed hbody => exact ⟨.resumed rfl, rfl⟩

/-- At the end of a natural line the two have read the same logical line, or none. -/
theorem Stands.lineEnd (h : Stands p held afterReturn line)
    (hfeed : (afterReturn && decide (c = '\n')) = false) (hc : c.isLineEnd = true) :
    ∃ held', Stands (p.next ofReader c).1 held' (c = '\r') [] ∧
      ∀ lines, logicalLines.go held (line.reverse :: lines) =
        (p.next ofReader c).2.toList ++ logicalLines.go held' lines := by
  cases h with
  | between hbody =>
    simp only [Position.next, Position.start, ofReader, hc, Bool.true_or, if_true]
    exact ⟨none, .between rfl, fun lines => logicalLines_go_skipped (by rw [hbody]; rfl)⟩
  | comment hbody hsign =>
    simp only [Position.next, ofReader, hc, if_true]
    exact ⟨none, .between rfl, fun lines => logicalLines_go_skipped (by rw [hbody]; exact hsign)⟩
  | within hbody hne hcounts hends =>
    simp only [Position.next, ofReader, hc, if_true]
    refine ⟨none, .between rfl, fun lines => ?_⟩
    rw [logicalLines_go_of_ends hbody hcounts hends, List.reverse_reverse]
    rfl
  | escaping hbody hcounts hgoes =>
    simp only [Position.next, ofReader, hc, if_true]
    exact ⟨_, .resumed rfl, fun lines => logicalLines_go_of_continues hbody hcounts hgoes⟩
  | resumed hbody =>
    simp only [Position.next, ofReader, hfeed, hc, Bool.false_and, Bool.false_eq_true, if_false,
      if_true]
    refine ⟨none, .between rfl, fun lines => ?_⟩
    rw [logicalLines_go_of_ends hbody (counts_some _ _) rfl, List.append_nil, List.reverse_reverse]
    rfl

/-- Within a natural line the two go on together. -/
theorem Stands.point (h : Stands p held afterReturn line)
    (hfeed : (afterReturn && decide (c = '\n')) = false) (hc : c.isLineEnd = false) :
    Stands (p.next ofReader c).1 held false (c :: line) ∧ (p.next ofReader c).2 = none := by
  cases h with
  | between hbody =>
    have hgrown := body_cons_of_blank hbody c
    simp only [Position.next, Position.start, ofReader, hc, Bool.false_or]
    cases hspace : isSpace c with
    | true => exact ⟨.between (hgrown.trans (if_pos hspace)), trivial⟩
    | false =>
      rw [hspace, if_neg Bool.false_ne_true] at hgrown
      rw [if_neg Bool.false_ne_true]
      cases hsign : isCommentSign c with
      | true => exact ⟨.comment hgrown hsign, trivial⟩
      | false =>
        rw [if_neg Bool.false_ne_true]
        exact ⟨.enter none [] hgrown (fun _ => hsign) rfl, trivial⟩
  | comment hbody hsign =>
    simp only [Position.next, ofReader, hc, Bool.false_eq_true, if_false]
    exact ⟨.comment (body_cons hbody nofun c) hsign, trivial⟩
  | within hbody hne hcounts hends =>
    simp only [Position.next, ofReader, hc, Bool.false_eq_true, if_false]
    exact ⟨.enter _ _ (body_cons hbody hne c) (hcounts.append hne) hends, trivial⟩
  | @escaping held line body hbody hcounts hgoes =>
    simp only [Position.next, ofReader, hc, Bool.false_eq_true, if_false]
    have hne : body ≠ [] := fun hnil => by rw [hnil] at hgoes; cases hgoes
    have hends : continues (body ++ [c]) = false := by
      rw [continues_append_singleton, hgoes, Bool.not_true, Bool.and_false]
    have hwithin := Stands.within (body_cons hbody hne c) (by simp) (hcounts.append hne) hends
    rw [eq_append_of_continues hgoes] at hwithin
    simpa using hwithin
  | @resumed front line afterReturn hbody =>
    have hgrown := body_cons_of_blank hbody c
    simp only [Position.next, ofReader, hfeed, hc, Bool.false_and, Bool.false_eq_true, if_false]
    cases hspace : isSpace c with
    | true => exact ⟨.resumed (hgrown.trans (if_pos hspace)), rfl⟩
    | false =>
      rw [hspace, if_neg Bool.false_ne_true] at hgrown
      have henter := Stands.enter (some front) [] hgrown (counts_some _ _) rfl
      rw [List.append_nil] at henter
      exact ⟨henter, rfl⟩

theorem logicalLines_go_lines_nil (held : Option Text) (afterReturn : Bool) (line : Text) :
    logicalLines.go held (Text.lines.go afterReturn [] line) =
      logicalLines.go held [line.reverse] := by
  cases line with
  | cons c line => rfl
  | nil =>
    cases held with
    | none => rfl
    | some front => exact congrArg (fun front => [front]) (List.append_nil front).symm

/-- At the end of the text the two have read the same logical line, or none. -/
theorem Stands.textEnd (h : Stands p held afterReturn line) :
    p.line?.toList = logicalLines.go held (Text.lines.go afterReturn [] line) := by
  rw [logicalLines_go_lines_nil]
  cases h with
  | between hbody => rw [logicalLines_go_skipped (by rw [hbody]; rfl)]; rfl
  | comment hbody hsign => rw [logicalLines_go_skipped (by rw [hbody]; exact hsign)]; rfl
  | within hbody hne hcounts hends =>
    rw [logicalLines_go_of_ends hbody hcounts hends, Position.line?, List.reverse_reverse]
    rfl
  | escaping hbody hcounts hgoes =>
    rw [logicalLines_go_of_continues hbody hcounts hgoes, Position.line?, List.reverse_reverse]
    rfl
  | resumed hbody =>
    rw [logicalLines_go_of_ends hbody (counts_some _ _) rfl, List.append_nil, Position.line?,
      List.reverse_reverse]
    rfl

/-! ## Runs -/

theorem linesFrom_eq_go (h : Stands p held afterReturn line) (t : Text) :
    linesFrom ofReader p t = logicalLines.go held (Text.lines.go afterReturn t line) := by
  induction t generalizing p held afterReturn line with
  | nil => exact h.textEnd
  | cons c t ih =>
    rw [linesFrom, Text.lines.go]
    dsimp only
    cases hfeed : afterReturn && decide (c = '\n') with
    | true =>
      rw [Bool.and_eq_true] at hfeed
      obtain ⟨rfl, hc⟩ := hfeed
      obtain rfl := of_decide_eq_true hc
      obtain ⟨hnext, hnone⟩ := h.feed
      rw [hnone, ih hnext]
      rfl
    | false =>
      rw [if_neg Bool.false_ne_true]
      cases hc : c.isLineEnd with
      | true =>
        obtain ⟨held', hnext, hgo⟩ := h.lineEnd hfeed hc
        rw [if_pos rfl, hgo, ih hnext]
      | false =>
        obtain ⟨hnext, hnone⟩ := h.point hfeed hc
        rw [if_neg Bool.false_ne_true, hnone, ih hnext]
        rfl

/-- By the conventions of the reader, the format and the reader have the same logical lines. -/
theorem lines_eq_logicalLines (t : Text) :
    Format.lines ofReader t = logicalLines t.lines :=
  linesFrom_eq_go (.between rfl) t

/-! ## Where the conventions agree -/

/-- Something is kept of the logical line, if one goes on here. -/
def Position.Keeps : Position → Prop
  | resumed _ line => line ≠ []
  | _ => True

theorem next_ofReader (h : p.Keeps) (hc : c.isLineEnd = isTerminator c) :
    p.next ofReader c = p.next conventions c := by
  have hend : ofReader.isEnd c = conventions.isEnd c := hc
  cases p with
  | resumed afterReturn line =>
    have hline : line.isEmpty = false := List.isEmpty_eq_false_iff.2 h
    simp only [Position.next, hline, Bool.and_false, Bool.false_eq_true, if_false]
    rw [hend]
  | _ =>
    simp only [Position.next, Position.start]
    rw [hend]

theorem Position.keeps_enter (line : Text) (c : CodePoint) : (enter line c).Keeps := by
  unfold enter
  split <;> trivial

theorem Position.keeps_start (conv : Conventions) (c : CodePoint) : (start conv c).Keeps := by
  unfold start
  split
  · trivial
  · split
    · trivial
    · exact keeps_enter [] c

/-- Only a mere backslash at the end of a natural line keeps nothing of a line that goes on. -/
theorem Position.Keeps.next (h : p.Keeps) (hbare : p = .escaping [] → c.isLineEnd = false) :
    (p.next ofReader c).1.Keeps := by
  cases p with
  | between => exact keeps_start ofReader c
  | comment =>
    dsimp only [Position.next]
    split <;> trivial
  | within line =>
    dsimp only [Position.next]
    split
    · trivial
    · exact keeps_enter line c
  | escaping line =>
    dsimp only [Position.next]
    split
    · next hc =>
      rintro rfl
      exact Bool.false_ne_true ((hbare rfl).symm.trans hc)
    · trivial
  | resumed afterReturn line =>
    dsimp only [Position.next]
    split
    · exact keeps_start ofReader c
    · split
      · exact h
      · split
        · trivial
        · split
          · exact h
          · exact keeps_enter line c

/-- The natural line of which the format has read but one backslash is a mere backslash. -/
theorem Stands.bare (h : Stands (.escaping []) held afterReturn line) :
    line.reverse.dropWhile isSpace = [CodePoint.ofChar '\\'] := by
  generalize hp : Position.escaping [] = p at h
  cases h with
  | escaping hbody hcounts hgoes =>
    have hnil := List.reverse_eq_nil_iff.1 (Position.escaping.inj hp).symm
    rw [hbody, eq_append_of_continues hgoes, (List.append_eq_nil_iff.1 hnil).2, List.nil_append]
  | _ => cases hp

theorem Stands.ne_escaping (h : Stands p held true line) (front : Text) : p ≠ .escaping front := by
  cases h <;> nofun

theorem linesFrom_ofReader (h : Stands p held afterReturn line) (hkeeps : p.Keeps)
    (hends : ∀ c ∈ t, c.isLineEnd = isTerminator c)
    (hbare : ∀ natural ∈ Text.lines.go afterReturn t line,
      natural.dropWhile isSpace ≠ [CodePoint.ofChar '\\']) :
    linesFrom ofReader p t = linesFrom conventions p t := by
  induction t generalizing p held afterReturn line with
  | nil => rfl
  | cons c t ih =>
    obtain ⟨hc, ht⟩ := List.forall_mem_cons.1 hends
    rw [linesFrom, linesFrom, ← next_ofReader hkeeps hc]
    refine congrArg (_ ++ ·) ?_
    rw [Text.lines.go] at hbare
    cases hfeed : afterReturn && decide (c = '\n') with
    | true =>
      rw [hfeed, if_pos rfl] at hbare
      rw [Bool.and_eq_true] at hfeed
      obtain ⟨rfl, hfeed⟩ := hfeed
      obtain rfl := of_decide_eq_true hfeed
      exact ih h.feed.1 (hkeeps.next fun hp => absurd hp (h.ne_escaping [])) ht hbare
    | false =>
      rw [hfeed, if_neg Bool.false_ne_true] at hbare
      cases hend : c.isLineEnd with
      | true =>
        rw [hend, if_pos rfl, List.forall_mem_cons] at hbare
        obtain ⟨held', hnext, -⟩ := h.lineEnd hfeed hend
        exact ih hnext (hkeeps.next fun hp => absurd (hp ▸ h).bare hbare.1) ht hbare.2
      | false =>
        rw [hend, if_neg Bool.false_ne_true] at hbare
        exact ih (h.point hfeed hend).1 (hkeeps.next fun _ => hend) ht hbare

/-- The conventions agree on a text whose lines end as the format has it and in which no line is a
mere backslash. -/
theorem lines_ofReader (hends : ∀ c ∈ t, c.isLineEnd = isTerminator c)
    (hbare : ∀ natural ∈ t.lines, natural.dropWhile isSpace ≠ [CodePoint.ofChar '\\']) :
    Format.lines ofReader t = Format.lines conventions t :=
  linesFrom_ofReader (.between rfl) trivial hends hbare

end Format

end SubclassIndex.Properties
