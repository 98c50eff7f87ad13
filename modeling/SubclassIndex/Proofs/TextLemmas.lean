import SubclassIndex.Text.Blank
import SubclassIndex.Text.Lines

/-!
# Pieces and lines

Splitting a text undoes joining its pieces (`Text.splitOnPoint_join`), and the lines of a text that
is put together from lines are these lines (`Text.lines_flatMap_break`, `Text.lines_join`).
-/

namespace SubclassIndex.Text

variable {separator : CodePoint} {piece rest t : Text} {ts : List Text} {p : CodePoint → Bool}

/-! ## Replaced points -/

section
variable {c old new : CodePoint}

theorem replacePoint_eq_self (h : old ∉ t) : t.replacePoint old new = t := by
  refine (List.map_congr_left fun c hc => if_neg fun heq => ?_).trans (List.map_id t)
  exact h (heq ▸ hc)

theorem mem_replacePoint (h : c ∈ t.replacePoint old new) : c ∈ t ∨ c = new := by
  obtain ⟨c', hc', heq⟩ := List.mem_map.1 h
  split at heq
  · exact .inr heq.symm
  · exact .inl (heq ▸ hc')

theorem not_mem_replacePoint (hne : new ≠ old) : old ∉ t.replacePoint old new := by
  intro h
  obtain ⟨c, _, heq⟩ := List.mem_map.1 h
  split at heq
  · exact hne heq
  · next hc => exact hc heq

end

/-! ## Trimming -/

theorem dropWhile_eq_self (h : ∀ c ∈ t.head?, p c = false) : t.dropWhile p = t := by
  cases t with
  | nil => rfl
  | cons c t => simp [h c rfl]

theorem trim_eq_self (h : ∀ c ∈ t, p c = false) : t.trim p = t := by
  rw [trim, dropEndWhile, dropWhile_eq_self fun c hc => h c (List.mem_of_mem_head? hc),
    dropWhile_eq_self fun c hc => h c (List.mem_reverse.1 (List.mem_of_mem_head? hc)),
    List.reverse_reverse]

/-- A text without blanks has none to be trimmed. -/
theorem strip_eq_self (h : ∀ c ∈ t, c.isBlank = false) : t.strip = t := trim_eq_self h

theorem strip_sublist (t : Text) : t.strip.Sublist t := by
  have hfront : (t.dropWhile CodePoint.isBlank).Sublist t := List.dropWhile_sublist _
  refine List.Sublist.trans ?_ hfront
  exact (List.reverse_reverse (t.dropWhile CodePoint.isBlank)) ▸
    (List.dropWhile_sublist _).reverse

theorem head?_dropWhile (p : CodePoint → Bool) (t : Text) :
    ∀ c ∈ (t.dropWhile p).head?, p c = false := by
  intro c hc
  have h := List.head?_dropWhile_not p t
  rw [Option.mem_def.1 hc] at h
  exact h

theorem trim_trim (p : CodePoint → Bool) (t : Text) : (t.trim p).trim p = t.trim p := by
  have hfront : ∀ c ∈ (t.trim p).head?, p c = false := by
    intro c hc
    have hprefix : t.trim p <+: t.dropWhile p := by
      rw [← List.reverse_suffix, trim, dropEndWhile, List.reverse_reverse]
      exact List.dropWhile_suffix p
    obtain ⟨rest, hrest⟩ := hprefix
    refine head?_dropWhile p t c ?_
    rw [← hrest, List.head?_append, Option.mem_def.1 hc]
    rfl
  rw [trim, dropWhile_eq_self hfront, dropEndWhile, dropWhile_eq_self, List.reverse_reverse]
  rw [trim, dropEndWhile, List.reverse_reverse]
  exact head?_dropWhile p _

theorem strip_strip (t : Text) : t.strip.strip = t.strip := trim_trim _ t

/-- What is trimmed is the same for texts with the same trimmed points in the same places. -/
theorem trim_map {f : CodePoint → CodePoint} (h : ∀ c, p (f c) = p c) (t : Text) :
    trim p (t.map f) = (t.trim p).map f := by
  have hcomp : p ∘ f = p := funext h
  rw [trim, trim, dropEndWhile, dropEndWhile, List.dropWhile_map, ← List.map_reverse,
    List.dropWhile_map, List.map_reverse, hcomp]

/-! ## Pieces -/

theorem join_singleton : join piece [t] = t := by simp [join]

theorem join_cons (hne : ts ≠ []) : join piece (t :: ts) = t ++ piece ++ join piece ts := by
  cases ts with
  | nil => exact absurd rfl hne
  | cons t' ts => simp [join, List.append_assoc]

theorem mem_join {c : CodePoint} (h : c ∈ join piece ts) : c ∈ piece ∨ ∃ t ∈ ts, c ∈ t := by
  induction ts with
  | nil => cases h
  | cons t ts ih =>
    by_cases hne : ts = []
    · subst hne
      rw [join_singleton] at h
      exact .inr ⟨t, List.mem_cons_self, h⟩
    · rw [join_cons hne, List.mem_append, List.mem_append] at h
      rcases h with (h | h) | h
      · exact .inr ⟨t, List.mem_cons_self, h⟩
      · exact .inl h
      · exact (ih h).imp_right fun ⟨t', ht', hc⟩ => ⟨t', List.mem_cons_of_mem _ ht', hc⟩

theorem splitOnPoint_go_done (t line : Text) (done : List Text) :
    splitOnPoint.go separator t line done =
      done.reverse ++ splitOnPoint.go separator t line [] := by
  induction t generalizing line done with
  | nil => simp [splitOnPoint.go]
  | cons c t ih =>
    unfold splitOnPoint.go
    split
    · rw [ih, ih _ [line.reverse], List.reverse_cons, List.append_assoc]
      rfl
    · exact ih _ _

theorem splitOnPoint_go_append (h : separator ∉ piece) (rest line : Text) (done : List Text) :
    splitOnPoint.go separator (piece ++ rest) line done =
      splitOnPoint.go separator rest (piece.reverse ++ line) done := by
  induction piece generalizing line with
  | nil => rfl
  | cons c piece ih =>
    obtain ⟨hc, hpiece⟩ := List.ne_and_not_mem_of_not_mem_cons h
    rw [List.cons_append, splitOnPoint.go, if_neg (Ne.symm hc), ih hpiece, List.reverse_cons,
      List.append_assoc]
    rfl

theorem splitOnPoint_of_not_mem (h : separator ∉ piece) :
    piece.splitOnPoint separator = [piece] := by
  have hgo := splitOnPoint_go_append h [] [] []
  rw [List.append_nil, List.append_nil] at hgo
  rw [splitOnPoint, hgo, splitOnPoint.go, List.reverse_reverse]
  rfl

theorem splitOnPoint_append (h : separator ∉ piece) :
    (piece ++ [separator] ++ rest).splitOnPoint separator =
      piece :: rest.splitOnPoint separator := by
  rw [splitOnPoint, List.append_assoc, splitOnPoint_go_append h, List.append_nil,
    List.singleton_append, splitOnPoint.go, if_pos rfl, splitOnPoint_go_done,
    List.reverse_reverse]
  rfl

/-- Pieces that do not hold the separator are found again after they have been joined. -/
theorem splitOnPoint_join (hne : ts ≠ []) (h : ∀ t ∈ ts, separator ∉ t) :
    (join [separator] ts).splitOnPoint separator = ts := by
  induction ts with
  | nil => exact absurd rfl hne
  | cons t ts ih =>
    have ht := h t List.mem_cons_self
    by_cases hts : ts = []
    · subst hts
      rw [join_singleton, splitOnPoint_of_not_mem ht]
    · rw [join_cons hts, splitOnPoint_append ht,
        ih hts fun t' ht' => h t' (List.mem_cons_of_mem _ ht')]

theorem eq_nil_of_join_eq_nil (h : ∀ t ∈ ts, t ≠ []) (hjoin : join piece ts = []) : ts = [] := by
  cases ts with
  | nil => rfl
  | cons t ts =>
    refine absurd ?_ (h t List.mem_cons_self)
    by_cases hts : ts = []
    · rwa [hts, join_singleton] at hjoin
    · rw [join_cons hts, List.append_assoc] at hjoin
      exact (List.append_eq_nil_iff.1 hjoin).1

/-- Pieces that are not empty and do not hold the separator are determined by the joined text. -/
theorem join_inj {ts' : List Text} (h : ∀ t ∈ ts, t ≠ [] ∧ separator ∉ t)
    (h' : ∀ t ∈ ts', t ≠ [] ∧ separator ∉ t) (heq : join [separator] ts = join [separator] ts') :
    ts = ts' := by
  by_cases hts : ts = []
  · subst hts
    exact (eq_nil_of_join_eq_nil (fun t ht => (h' t ht).1) heq.symm).symm
  · by_cases hts' : ts' = []
    · subst hts'
      exact eq_nil_of_join_eq_nil (fun t ht => (h t ht).1) heq
    · rw [← splitOnPoint_join hts fun t ht => (h t ht).2, heq,
        splitOnPoint_join hts' fun t ht => (h' t ht).2]

/-- What stands before the first separator, and what after it. -/
theorem append_separator_inj {piece' rest' : Text} (h : separator ∉ piece)
    (h' : separator ∉ piece')
    (heq : piece ++ [separator] ++ rest = piece' ++ [separator] ++ rest') :
    piece = piece' ∧ rest = rest' := by
  have hsplit := congrArg (splitOnPoint separator) heq
  rw [splitOnPoint_append h, splitOnPoint_append h'] at hsplit
  obtain rfl := (List.cons.inj hsplit).1
  exact ⟨rfl, List.append_cancel_left heq⟩

theorem subset_of_mem_splitOnPoint (h : piece ∈ t.splitOnPoint separator) : piece ⊆ t := by
  suffices hgo : ∀ (line : Text) (done : List Text), piece ∈ splitOnPoint.go separator t line done →
      piece ∈ done ∨ ∀ c ∈ piece, c ∈ line ∨ c ∈ t by
    intro c hc
    rcases hgo [] [] h with hdone | hpiece
    · cases hdone
    · exact (hpiece c hc).resolve_left List.not_mem_nil
  clear h
  induction t with
  | nil =>
    intro line done h
    rcases List.mem_cons.1 (List.mem_reverse.1 h) with rfl | h
    · exact .inr fun c hc => .inl (List.mem_reverse.1 hc)
    · exact .inl h
  | cons c₀ t ih =>
    intro line done h
    unfold splitOnPoint.go at h
    split at h
    · rcases ih _ _ h with hdone | hpiece
      · rcases List.mem_cons.1 hdone with rfl | hdone
        · exact .inr fun c hc => .inl (List.mem_reverse.1 hc)
        · exact .inl hdone
      · refine .inr fun c hc => .inr (List.mem_cons_of_mem _ ?_)
        exact (hpiece c hc).resolve_left List.not_mem_nil
    · refine (ih _ _ h).imp_right fun hpiece c hc => ?_
      rcases hpiece c hc with hline | ht
      · rcases List.mem_cons.1 hline with rfl | hline
        · exact .inr List.mem_cons_self
        · exact .inl hline
      · exact .inr (List.mem_cons_of_mem _ ht)

/-! ## Lines -/

theorem subset_of_mem_lines (h : piece ∈ t.lines) : piece ⊆ t := by
  suffices hgo : ∀ (afterReturn : Bool) (line : Text), piece ∈ lines.go afterReturn t line →
      ∀ c ∈ piece, c ∈ line ∨ c ∈ t from
    fun c hc => (hgo false [] h c hc).resolve_left List.not_mem_nil
  clear h
  induction t with
  | nil =>
    intro afterReturn line h c hc
    cases line with
    | nil => cases h
    | cons c' line =>
      rw [List.mem_singleton.1 h] at hc
      exact .inl (List.mem_reverse.1 hc)
  | cons c₀ t ih =>
    intro afterReturn line h c hc
    unfold lines.go at h
    split at h
    · exact .inr (List.mem_cons_of_mem _ ((ih _ _ h c hc).resolve_left List.not_mem_nil))
    · split at h
      · rcases List.mem_cons.1 h with rfl | h
        · exact .inl (List.mem_reverse.1 hc)
        · exact .inr (List.mem_cons_of_mem _ ((ih _ _ h c hc).resolve_left List.not_mem_nil))
      · rcases ih _ _ h c hc with hline | ht
        · rcases List.mem_cons.1 hline with rfl | hline
          · exact .inr List.mem_cons_self
          · exact .inl hline
        · exact .inr (List.mem_cons_of_mem _ ht)

theorem lines_go_append (h : ∀ c ∈ piece, c.isLineEnd = false) (rest line : Text) :
    lines.go false (piece ++ rest) line = lines.go false rest (piece.reverse ++ line) := by
  induction piece generalizing line with
  | nil => rfl
  | cons c piece ih =>
    have hc := h c List.mem_cons_self
    rw [List.cons_append, lines.go, Bool.false_and, if_neg Bool.false_ne_true, hc,
      if_neg Bool.false_ne_true, ih fun c' hc' => h c' (List.mem_cons_of_mem _ hc'),
      List.reverse_cons, List.append_assoc]
    rfl

theorem lines_append_break (h : ∀ c ∈ piece, c.isLineEnd = false) :
    (piece ++ "\n" ++ rest).lines = piece :: rest.lines := by
  rw [lines, List.append_assoc, lines_go_append h, List.append_nil]
  exact congrArg (· :: _) (List.reverse_reverse piece)

theorem lines_of_no_end (hne : piece ≠ []) (h : ∀ c ∈ piece, c.isLineEnd = false) :
    piece.lines = [piece] := by
  have hgo := lines_go_append h [] []
  rw [List.append_nil, List.append_nil] at hgo
  rw [lines, hgo]
  cases hp : piece.reverse with
  | nil => exact absurd (List.reverse_eq_nil_iff.1 hp) hne
  | cons c line =>
    rw [lines.go, ← hp, List.reverse_reverse]
    exact List.cons_ne_nil _ _

/-- Lines of which each is followed by a line feed. -/
theorem lines_flatMap_break (h : ∀ t ∈ ts, ∀ c ∈ t, c.isLineEnd = false) :
    lines (ts.flatMap fun t => t ++ ("\n" : Text)) = ts := by
  induction ts with
  | nil => rfl
  | cons t ts ih =>
    rw [List.flatMap_cons, lines_append_break (h t List.mem_cons_self),
      ih fun t' ht' => h t' (List.mem_cons_of_mem _ ht')]

/-- Lines with a line feed between neighbours. -/
theorem lines_join (h : ∀ t ∈ ts, t ≠ [] ∧ ∀ c ∈ t, c.isLineEnd = false) :
    (join "\n" ts).lines = ts := by
  induction ts with
  | nil => rfl
  | cons t ts ih =>
    obtain ⟨hne, ht⟩ := h t List.mem_cons_self
    by_cases hts : ts = []
    · subst hts
      rw [join_singleton, lines_of_no_end hne ht]
    · rw [join_cons hts, lines_append_break ht, ih fun t' ht' => h t' (List.mem_cons_of_mem _ ht')]

/-- A line feed between two texts ends the last line of the first one, or else a blank line. -/
theorem lines_append_feed (t rest : Text) : ∃ blank : List Text, (blank = [] ∨ blank = [[]]) ∧
    (t ++ "\n" ++ rest).lines = t.lines ++ blank ++ rest.lines := by
  suffices hgo : ∀ (afterReturn : Bool) (line : Text), (afterReturn = true → line = []) →
      ∃ blank : List Text, (blank = [] ∨ blank = [[]]) ∧
        lines.go afterReturn (t ++ "\n" ++ rest) line =
          lines.go afterReturn t line ++ blank ++ rest.lines from hgo false [] nofun
  induction t with
  | nil =>
    intro afterReturn line hline
    cases afterReturn with
    | true => exact ⟨[], .inl rfl, by rw [hline rfl]; rfl⟩
    | false =>
      cases line with
      | nil => exact ⟨[[]], .inr rfl, rfl⟩
      | cons c line => exact ⟨[], .inl rfl, rfl⟩
  | cons c t ih =>
    intro afterReturn line _
    rw [List.cons_append, List.cons_append, lines.go, lines.go]
    split
    · exact ih false [] nofun
    · split
      · obtain ⟨blank, hblank, hgo⟩ := ih (c = '\r') [] fun _ => rfl
        exact ⟨blank, hblank, by rw [hgo]; rfl⟩
      · exact ih false (c :: line) nofun

/-! ## Line ends -/

theorem normalizeNewlines_go (h : CodePoint.ofChar '\r' ∉ t) (done : Text) :
    normalizeNewlines.go false t done = done.reverse ++ t := by
  induction t generalizing done with
  | nil => exact (List.append_nil _).symm
  | cons c t ih =>
    obtain ⟨hc, ht⟩ := List.ne_and_not_mem_of_not_mem_cons h
    rw [normalizeNewlines.go, if_neg (Ne.symm hc), Bool.and_false, if_neg Bool.false_ne_true,
      ih ht, List.reverse_cons, List.append_assoc]
    rfl

/-- Without carriage returns there is nothing to normalize. -/
theorem normalizeNewlines_eq_self (h : CodePoint.ofChar '\r' ∉ t) : t.normalizeNewlines = t :=
  normalizeNewlines_go h []

theorem normalizeNewlines_go_done (afterReturn : Bool) (t done : Text) :
    normalizeNewlines.go afterReturn t done =
      done.reverse ++ normalizeNewlines.go afterReturn t [] := by
  induction t generalizing afterReturn done with
  | nil => exact (List.append_nil _).symm
  | cons c t ih =>
    unfold normalizeNewlines.go
    split
    · rw [ih, ih true [_], List.reverse_cons, List.append_assoc]
      rfl
    · split
      · exact ih _ _
      · rw [ih, ih false [c], List.reverse_cons, List.append_assoc]
        rfl

/-- Line ends that are spelled otherwise end the same lines. -/
theorem lines_normalizeNewlines (t : Text) : t.normalizeNewlines.lines = t.lines := by
  suffices hgo : ∀ (afterReturn : Bool) (line : Text), (afterReturn = true → line = []) →
      lines.go false (normalizeNewlines.go afterReturn t []) line = lines.go afterReturn t line from
    hgo false [] nofun
  induction t with
  | nil => intro afterReturn line _; cases line <;> rfl
  | cons c t ih =>
    intro afterReturn line hline
    unfold normalizeNewlines.go
    split
    · next hc =>
      subst hc
      rw [normalizeNewlines_go_done]
      change line.reverse :: lines.go false (normalizeNewlines.go true t []) [] = _
      rw [ih true [] fun _ => rfl, lines.go, if_neg (by simp [CodePoint.ofChar_inj])]
      rfl
    · next hc =>
      rw [Bool.and_comm]
      split
      · next hfeed =>
        rw [lines.go, if_pos hfeed, hline ((Bool.and_eq_true _ _).mp hfeed).1]
        exact ih false [] nofun
      · next hfeed =>
        rw [normalizeNewlines_go_done, List.reverse_singleton, List.singleton_append, lines.go,
          lines.go, if_neg hfeed, if_neg (by simp), decide_eq_false hc]
        split
        · rw [ih false [] nofun]
        · exact ih false _ nofun

/-! ## Numbers -/

theorem ofNatPadded_inj {width m n : Nat} (h : ofNatPadded width m = ofNatPadded width n) :
    m = n := by
  have hd := (List.map_inj_right fun _ _ => CodePoint.ofChar_inj.1).1 h
  have hval : ∀ k n : Nat,
      Nat.ofDigitChars 10 (List.replicate k '0' ++ Nat.toDigits 10 n) 0 = n := by
    intro k n
    rw [Nat.ofDigitChars_append, Nat.ofDigitChars_replicate_zero, Nat.mul_zero,
      Nat.ofDigitChars_ten_toDigits]
  rw [← hval (width - (Nat.toDigits 10 m).length) m, hd, hval]

end SubclassIndex.Text
