import Mathlib.Tactic.SplitIfs
import SubclassIndex.Proofs.Properties.FormatReading
import SubclassIndex.Properties.Writer

/-!
# Files in the written form

Each code point of a key or a value is written as one sign that means it (`Format.Piece`,
`Format.exists_piece_escapePoint`), so whatever they hold, the format finds the key and the value in
the line of their entry (`Format.entry?_entryLine`). It reads a line of a file up to its end
(`Format.linesFrom_fileLine`), and so the entries of a file are read back (`read_fileText`).
-/

namespace SubclassIndex.Properties

variable {letters : HexLetters} {c d : CodePoint} {t line piece key value : Text} {file : File}

namespace FileLine

/-- A line that a file may hold: an entry in code points up to U+FFFF, a comment of printable ASCII,
or white space. -/
def IsProper : FileLine → Prop
  | entry key value => (∀ c ∈ key, c.val ≤ 0xFFFF) ∧ ∀ c ∈ value, c.val ≤ 0xFFFF
  | comment line =>
    (∀ c ∈ line, c.between ' ' '~' = true) ∧ ∃ c ∈ (line.dropWhile isSpace).head?, isCommentSign c
  | blank line => ∀ c ∈ line, isSpace c = true

instance : (line : FileLine) → Decidable line.IsProper
  | entry key value =>
    inferInstanceAs (Decidable ((∀ c ∈ key, c.val ≤ 0xFFFF) ∧ ∀ c ∈ value, c.val ≤ 0xFFFF))
  | comment line => inferInstanceAs (Decidable ((∀ c ∈ line, c.between ' ' '~' = true) ∧
      ∃ c ∈ (line.dropWhile isSpace).head?, isCommentSign c))
  | blank line => inferInstanceAs (Decidable (∀ c ∈ line, isSpace c = true))

end FileLine

namespace Format

variable {s : Sign} {signs : List Sign} {conv : Conventions} {p q : Position}

/-! ## Code points as signs -/

theorem hexValue?_digit (letters : HexLetters) {n : Nat} (h : n < 16) :
    hexValue? (letters.digit n) = some n := by
  have hall : ∀ n : Fin 16, hexValue? (letters.digit n) = some n.val := by
    cases letters <;> decide
  exact hall ⟨n, h⟩

theorem unit?_digits (letters : HexLetters) (h : c.val ≤ 0xFFFF) :
    unit? (letters.digit (c.val / 0x1000 % 16)) (letters.digit (c.val / 0x100 % 16))
      (letters.digit (c.val / 0x10 % 16)) (letters.digit (c.val / 1 % 16)) = some c := by
  have hvalue : ((c.val / 0x1000 % 16 * 16 + c.val / 0x100 % 16) * 16 + c.val / 0x10 % 16) * 16 +
      c.val / 1 % 16 = c.val := by omega
  simp only [unit?, hexValue?_digit letters (Nat.mod_lt _ (by decide : 0 < 16)), hvalue]
  exact dif_pos c.isLt

/-- A text of printable ASCII that is one sign. -/
inductive Piece : Text → Sign → Prop
  | point {c : CodePoint} (hc : c ≠ '\\') (hprintable : c.between ' ' '~' = true) :
    Piece [c] ⟨c, false⟩
  | letter {d : CodePoint} (hd : d ≠ 'u') (hprintable : d.between ' ' '~' = true) :
    Piece ['\\', d] ⟨letterMeaning d, true⟩
  | unit {h₁ h₂ h₃ h₄ unit : CodePoint} (hunit : unit? h₁ h₂ h₃ h₄ = some unit) :
    Piece ['\\', 'u', h₁, h₂, h₃, h₄] ⟨unit, true⟩

/-- A logical line can begin with a sign: it is not passed over, nor is the line for its sake. -/
def Sign.CanBegin (s : Sign) : Prop :=
  s.escaped = false → Properties.isSpace s.point = false ∧ isCommentSign s.point = false

theorem exists_piece_letter (hd : d ≠ 'u') (hprintable : d.between ' ' '~' = true)
    (hc : letterMeaning d = c) :
    ∃ s, Piece ['\\', d] s ∧ s.point = c ∧ s.endsKey = false ∧ s.CanBegin :=
  ⟨_, .letter hd hprintable, hc, rfl, nofun⟩

theorem exists_piece_escapePoint (letters : HexLetters) (h : c.val ≤ 0xFFFF) (hspace : c ≠ ' ') :
    ∃ s, Piece (escapePoint letters c) s ∧ s.point = c ∧ s.endsKey = false ∧ s.CanBegin := by
  unfold escapePoint
  split_ifs with htab hfeed hreturn hform hsign hprintable
  · exact exists_piece_letter (d := 't') (by decide) (by decide) htab.symm
  · exact exists_piece_letter (d := 'n') (by decide) (by decide) hfeed.symm
  · exact exists_piece_letter (d := 'r') (by decide) (by decide) hreturn.symm
  · exact exists_piece_letter (d := 'f') (by decide) (by decide) hform.symm
  · rcases hsign with rfl | rfl | rfl | rfl | rfl
    all_goals exact exists_piece_letter (by decide) (by decide) rfl
  · obtain ⟨hbackslash, hequals, hcolon, hhash, hmark⟩ := by simpa only [not_or] using hsign
    have hseparator : isSeparator c = false := by simp [isSeparator, hequals, hcolon]
    have hblank : isSpace c = false := by simp [isSpace, hspace, htab, hform]
    refine ⟨⟨c, false⟩, .point hbackslash hprintable, rfl, ?_, fun _ => ⟨hblank, ?_⟩⟩
    · simp [Sign.endsKey, Sign.isSeparator, Sign.isSpace, hseparator, hblank]
    · simp [isCommentSign, hhash, hmark]
  · exact ⟨⟨c, true⟩, .unit (unit?_digits letters h), rfl, rfl, nofun⟩

theorem exists_piece_escapeAny (letters : HexLetters) (h : c.val ≤ 0xFFFF) :
    ∃ s, Piece (escapeAny letters c) s ∧ s.point = c ∧ s.endsKey = false ∧ s.CanBegin := by
  unfold escapeAny
  split_ifs with hspace
  · exact exists_piece_letter (by decide) (by decide) hspace.symm
  · exact exists_piece_escapePoint letters h hspace

/-- Within a value a space may be written as it is. -/
theorem exists_piece_inValue (letters : HexLetters) (h : c.val ≤ 0xFFFF) :
    ∃ s, Piece (escapePoint letters c) s ∧ s.point = c := by
  by_cases hspace : c = ' '
  · subst hspace
    exact ⟨⟨' ', false⟩, .point (by decide) (by decide), rfl⟩
  · obtain ⟨s, hpiece, hpoint, -⟩ := exists_piece_escapePoint letters h hspace
    exact ⟨s, hpiece, hpoint⟩

theorem Piece.signs?_append (h : Piece piece s) (ht : signs? t = some signs) :
    signs? (piece ++ t) = some (s :: signs) := by
  cases h with
  | point hc hprintable =>
    cases t with
    | nil => cases ht; rfl
    | cons d t =>
      rw [List.singleton_append]
      unfold Format.signs?
      rw [if_neg hc, ht]
      rfl
  | @letter d hd hprintable =>
    change Format.signs? ('\\' :: d :: t) = _
    unfold Format.signs?
    rw [if_pos rfl, if_neg hd, ht]
    rfl
  | @unit h₁ h₂ h₃ h₄ unit hunit =>
    change Format.signs? ('\\' :: 'u' :: h₁ :: h₂ :: h₃ :: h₄ :: t) = _
    rw [Format.signs?, if_pos rfl, if_pos rfl]
    simp only [hunit, ht]

/-! ## Texts as signs -/

/-- A text of printable ASCII that is these signs. -/
inductive Writes : Text → List Sign → Prop
  | nil : Writes [] []
  | cons {piece t : Text} {s : Sign} {signs : List Sign} (hpiece : Piece piece s)
    (ht : Writes t signs) : Writes (piece ++ t) (s :: signs)

theorem Writes.append {signs' : List Sign} {t' : Text} (h : Writes t signs)
    (h' : Writes t' signs') : Writes (t ++ t') (signs ++ signs') := by
  induction h with
  | nil => exact h'
  | cons hpiece ht ih =>
    rw [List.append_assoc]
    exact .cons hpiece ih

theorem Writes.signs? (h : Writes t signs) : signs? t = some signs := by
  induction h with
  | nil => rfl
  | cons hpiece ht ih => exact hpiece.signs?_append ih

theorem exists_writes_flatMap {f : CodePoint → Text} {P : Sign → Prop}
    (h : ∀ c ∈ t, ∃ s, Piece (f c) s ∧ s.point = c ∧ P s) :
    ∃ signs, Writes (t.flatMap f) signs ∧ signs.map Sign.point = t ∧ ∀ s ∈ signs, P s := by
  induction t with
  | nil => exact ⟨[], .nil, rfl, nofun⟩
  | cons c t ih =>
    obtain ⟨⟨s, hpiece, hpoint, hs⟩, ht⟩ := List.forall_mem_cons.1 h
    obtain ⟨signs, hwrites, hpoints, hsigns⟩ := ih ht
    exact ⟨s :: signs, .cons hpiece hwrites, by rw [List.map_cons, hpoint, hpoints],
      List.forall_mem_cons.2 ⟨hs, hsigns⟩⟩

/-- No sign of a written key ends it. -/
theorem exists_writes_escapeKey (letters : HexLetters) (h : ∀ c ∈ key, c.val ≤ 0xFFFF) :
    ∃ signs, Writes (escapeKey letters key) signs ∧ signs.map Sign.point = key ∧
      ∀ s ∈ signs, s.endsKey = false ∧ s.CanBegin :=
  exists_writes_flatMap fun c hc => exists_piece_escapeAny letters (h c hc)

/-- The first sign of a written value is no white space. -/
theorem exists_writes_escapeValue (letters : HexLetters) (h : ∀ c ∈ value, c.val ≤ 0xFFFF) :
    ∃ signs, Writes (escapeValue letters value) signs ∧ signs.map Sign.point = value ∧
      ∀ s ∈ signs.head?, s.isSpace = false := by
  cases value with
  | nil => exact ⟨[], .nil, rfl, nofun⟩
  | cons c value =>
    obtain ⟨hc, hvalue⟩ := List.forall_mem_cons.1 h
    obtain ⟨s, hpiece, hpoint, hends, -⟩ := exists_piece_escapeAny letters hc
    obtain ⟨signs, hwrites, hpoints, -⟩ := exists_writes_flatMap (P := fun _ => True)
      fun c hc => (exists_piece_inValue letters (hvalue c hc)).imp
        fun s hs => ⟨hs.1, hs.2, trivial⟩
    refine ⟨s :: signs, .cons hpiece hwrites, by rw [List.map_cons, hpoint, hpoints], ?_⟩
    intro s' hs'
    cases hs'
    exact (Bool.or_eq_false_iff.1 hends).2

/-! ## The line of an entry -/

/-- The sign between a key and its value. -/
def equalsSign : Sign := ⟨'=', false⟩

/-- The line of an entry in signs: the key, the equals sign and the value. -/
theorem exists_writes_entryLine (letters : HexLetters) (h : (FileLine.entry key value).IsProper) :
    ∃ keySigns valueSigns,
      Writes (entryLine letters key value) (keySigns ++ equalsSign :: valueSigns) ∧
      (keySigns.map Sign.point = key ∧ ∀ s ∈ keySigns, s.endsKey = false ∧ s.CanBegin) ∧
      valueSigns.map Sign.point = value ∧ ∀ s ∈ valueSigns.head?, s.isSpace = false := by
  obtain ⟨keySigns, hwritesKey, hkeySigns⟩ := exists_writes_escapeKey letters h.1
  obtain ⟨valueSigns, hwritesValue, hvalueSigns⟩ := exists_writes_escapeValue letters h.2
  have hequals : Writes "=" [equalsSign] := .cons (.point (by decide) (by decide)) .nil
  have hwrites := (hwritesKey.append hequals).append hwritesValue
  exact ⟨keySigns, valueSigns, List.append_cons keySigns _ _ ▸ hwrites, hkeySigns, hvalueSigns⟩

theorem entry?_entryLine (letters : HexLetters) (h : (FileLine.entry key value).IsProper) :
    entry? (entryLine letters key value) = some (key, value) := by
  obtain ⟨keySigns, valueSigns, hwrites, ⟨hkeyPoints, hplain⟩, hvaluePoints, hfirst⟩ :=
    exists_writes_entryLine letters h
  have hplain : ∀ s ∈ keySigns, (!s.endsKey) = true := fun s hs => by rw [(hplain s hs).1]; rfl
  have htake : (keySigns ++ equalsSign :: valueSigns).takeWhile (fun s => !s.endsKey) =
      keySigns := by
    rw [List.takeWhile_append_of_pos hplain]
    exact List.append_nil _
  have hdrop : (keySigns ++ equalsSign :: valueSigns).dropWhile (fun s => !s.endsKey) =
      equalsSign :: valueSigns := List.dropWhile_append_of_pos hplain
  have hvalueSigns : Format.valueSigns (equalsSign :: valueSigns) = valueSigns := by
    change valueSigns.dropWhile Sign.isSpace = valueSigns
    cases valueSigns with
    | nil => rfl
    | cons s valueSigns => rw [List.dropWhile_cons, hfirst s rfl, if_neg Bool.false_ne_true]
  unfold entry?
  rw [hwrites.signs?, Option.map_some, htake, hdrop, hvalueSigns, hkeyPoints, hvaluePoints]

/-! ## Natural lines -/

/-- Line feeds and carriage returns end lines, and printable ASCII does not. -/
structure Conventions.IsUsual (conv : Conventions) : Prop where
  feed : conv.isEnd '\n' = true
  carriageReturn : conv.isEnd '\r' = true
  printable : ∀ c : CodePoint, c.between ' ' '~' = true → conv.isEnd c = false

theorem isUsual_ofReader : Conventions.ofReader.IsUsual where
  feed := rfl
  carriageReturn := rfl
  printable c h := by
    simp only [CodePoint.between, Bool.and_eq_true, decide_eq_true_eq] at h
    simp [Conventions.ofReader, CodePoint.isLineEnd] at h ⊢
    omega

theorem isUsual_conventions : conventions.IsUsual where
  feed := rfl
  carriageReturn := rfl
  printable c h := Bool.eq_false_iff.2 fun hend => Bool.false_ne_true
    ((isUsual_ofReader.printable c h).symm.trans (isLineEnd_of_isTerminator hend))

theorem linesFrom_of_next (h : p.next conv c = (q, none)) :
    linesFrom conv p (c :: t) = linesFrom conv q t := by
  rw [linesFrom, h]
  rfl

theorem linesFrom_within_cons (hend : conv.isEnd c = false) (hc : c ≠ '\\') (line t : Text) :
    linesFrom conv (.within line) (c :: t) = linesFrom conv (.within (c :: line)) t :=
  linesFrom_of_next (by simp [Position.next, Position.enter, hend, hc])

theorem linesFrom_within_escape (hconv : conv.IsUsual) (hend : conv.isEnd d = false)
    (line t : Text) : linesFrom conv (.within line) ('\\' :: d :: t) =
      linesFrom conv (.within (d :: '\\' :: line)) t := by
  have hbackslash : conv.isEnd '\\' = false := hconv.printable _ (by decide)
  rw [linesFrom_of_next (q := .escaping line) (by simp [Position.next, Position.enter, hbackslash])]
  exact linesFrom_of_next (by simp [Position.next, hend])

theorem Piece.linesFrom_within (hconv : conv.IsUsual) (h : Piece piece s) (line t : Text) :
    linesFrom conv (.within line) (piece ++ t) =
      linesFrom conv (.within (piece.reverse ++ line)) t := by
  cases h with
  | point hc hprintable => exact linesFrom_within_cons (hconv.printable _ hprintable) hc line t
  | letter hd hprintable =>
    exact linesFrom_within_escape hconv (hconv.printable _ hprintable) line t
  | @unit h₁ h₂ h₃ h₄ unit hunit =>
    obtain ⟨v₁, v₂, v₃, v₄, hd₁, hd₂, hd₃, hd₄, -⟩ := unit?_cases hunit
    have hdigit : ∀ {c v}, HexDigit c v → ∀ line t, linesFrom conv (.within line) (c :: t) =
        linesFrom conv (.within (c :: line)) t := fun hd =>
      linesFrom_within_cons (hconv.printable _ hd.printable) hd.ne_backslash
    change linesFrom conv _ ('\\' :: 'u' :: h₁ :: h₂ :: h₃ :: h₄ :: t) = _
    rw [linesFrom_within_escape hconv (hconv.printable _ (by decide)), hdigit hd₁, hdigit hd₂,
      hdigit hd₃, hdigit hd₄]
    rfl

theorem Writes.linesFrom_within (hconv : conv.IsUsual) (h : Writes t signs) (line rest : Text) :
    linesFrom conv (.within line) (t ++ rest) =
      linesFrom conv (.within (t.reverse ++ line)) rest := by
  induction h generalizing line with
  | nil => rfl
  | cons hpiece ht ih =>
    rw [List.append_assoc, hpiece.linesFrom_within hconv, ih, List.reverse_append,
      List.append_assoc]

/-- Where a logical line can begin, its first sign begins it. -/
theorem Writes.linesFrom_between (hconv : conv.IsUsual) (h : Writes t (s :: signs))
    (hs : s.CanBegin) (rest : Text) :
    linesFrom conv .between (t ++ rest) = linesFrom conv (.within t.reverse) rest := by
  have hbegin : ∀ {c t}, conv.isEnd c = false → isSpace c = false → isCommentSign c = false →
      linesFrom conv .between (c :: t) = linesFrom conv (.within []) (c :: t) := by
    intro c t hend hspace hsign
    have hnext : Position.between.next conv c = (Position.within []).next conv c := by
      simp [Position.next, Position.start, hend, hspace, hsign]
    rw [linesFrom, linesFrom, hnext]
  have hwithin := h.linesFrom_within hconv [] rest
  rw [List.append_nil] at hwithin
  rw [← hwithin]
  cases h with
  | cons hpiece ht =>
    cases hpiece with
    | point hc hprintable =>
      exact hbegin (hconv.printable _ hprintable) (hs rfl).1 (hs rfl).2
    | letter hd hprintable => exact hbegin (hconv.printable _ (by decide)) rfl rfl
    | unit hunit => exact hbegin (hconv.printable _ (by decide)) rfl rfl

theorem linesFrom_entryLine (hconv : conv.IsUsual) (h : (FileLine.entry key value).IsProper)
    (t : Text) :
    linesFrom conv .between (entryLine letters key value ++ t) =
      linesFrom conv (.within (entryLine letters key value).reverse) t := by
  obtain ⟨keySigns, valueSigns, hwrites, ⟨-, hplain⟩, -⟩ := exists_writes_entryLine letters h
  cases keySigns with
  | nil => exact hwrites.linesFrom_between hconv (fun _ => ⟨rfl, rfl⟩) t
  | cons s keySigns => exact hwrites.linesFrom_between hconv (hplain s List.mem_cons_self).2 t

theorem linesFrom_blank (h : ∀ c ∈ line, isSpace c = true) (t : Text) :
    linesFrom conv .between (line ++ t) = linesFrom conv .between t := by
  induction line with
  | nil => rfl
  | cons c line ih =>
    obtain ⟨hc, hline⟩ := List.forall_mem_cons.1 h
    exact (linesFrom_of_next (by simp [Position.next, Position.start, hc])).trans (ih hline)

theorem linesFrom_comment (hend : ∀ c ∈ line, conv.isEnd c = false) (t : Text) :
    linesFrom conv .comment (line ++ t) = linesFrom conv .comment t := by
  induction line with
  | nil => rfl
  | cons c line ih =>
    obtain ⟨hc, hline⟩ := List.forall_mem_cons.1 hend
    exact (linesFrom_of_next (by simp [Position.next, hc])).trans (ih hline)

theorem linesFrom_commentLine (hend : ∀ c ∈ line, conv.isEnd c = false)
    (hsign : ∃ c ∈ (line.dropWhile isSpace).head?, isCommentSign c) (t : Text) :
    linesFrom conv .between (line ++ t) = linesFrom conv .comment t := by
  induction line with
  | nil =>
    obtain ⟨c, hc, -⟩ := hsign
    cases hc
  | cons c line ih =>
    obtain ⟨hc, hline⟩ := List.forall_mem_cons.1 hend
    rw [List.dropWhile_cons] at hsign
    split at hsign
    · next hspace =>
      exact (linesFrom_of_next (by simp [Position.next, Position.start, hspace])).trans
        (ih hline hsign)
    · next hspace =>
      obtain ⟨c', hc', hsign⟩ := hsign
      cases hc'
      exact (linesFrom_of_next (by simp [Position.next, Position.start, hspace, hsign, hc])).trans
        (linesFrom_comment hline t)

/-! ## Files -/

/-- Where no line goes on, each line end ends the line that has been read, if any. -/
theorem linesFrom_lineEnd (hconv : conv.IsUsual)
    (hp : ∀ c, conv.isEnd c = true → p.next conv c = (.between, p.line?)) (lineEnd : LineEnd)
    (t : Text) :
    linesFrom conv p (lineEnd.text ++ t) = p.line?.toList ++ linesFrom conv .between t := by
  have hend : ∀ c t, conv.isEnd c = true →
      linesFrom conv p (c :: t) = p.line?.toList ++ linesFrom conv .between t := by
    intro c t hc
    rw [linesFrom, hp c hc]
  cases lineEnd with
  | feed => exact hend _ _ hconv.feed
  | carriageReturn => exact hend _ _ hconv.carriageReturn
  | returnAndFeed =>
    -- after the carriage return the line feed ends a line that is blank
    have hblank : linesFrom conv .between ('\n' :: t) = linesFrom conv .between t :=
      linesFrom_of_next (by simp [Position.next, Position.start, hconv.feed])
    exact (hend _ _ hconv.carriageReturn).trans (congrArg _ hblank)

theorem linesFrom_fileLine (hconv : conv.IsUsual) {fileLine : FileLine} (h : fileLine.IsProper)
    (lineEnd : LineEnd) (t : Text) :
    linesFrom conv .between (fileLine.text letters ++ (lineEnd.text ++ t)) =
      (fileLine.keyAndValue?.map fun e => entryLine letters e.1 e.2).toList ++
        linesFrom conv .between t := by
  cases fileLine with
  | entry key value =>
    refine (linesFrom_entryLine hconv h _).trans
      ((linesFrom_lineEnd hconv (fun c hc => ?_) lineEnd t).trans ?_)
    · simp [Position.next, Position.line?, hc]
    · rw [Position.line?, List.reverse_reverse]
      rfl
  | comment line =>
    have hend : ∀ c ∈ line, conv.isEnd c = false := fun c hc => hconv.printable c (h.1 c hc)
    refine (linesFrom_commentLine hend h.2 _).trans
      (linesFrom_lineEnd hconv (fun c hc => ?_) lineEnd t)
    simp [Position.next, Position.line?, hc]
  | blank line =>
    refine (linesFrom_blank h _).trans (linesFrom_lineEnd hconv (fun c hc => ?_) lineEnd t)
    simp [Position.next, Position.start, Position.line?, hc]

/-- A file means its entries. -/
theorem load?_fileText (hconv : conv.IsUsual) (letters : HexLetters)
    (h : ∀ line ∈ file, line.1.IsProper) :
    load? conv (fileText letters file) = some (fileEntries file) := by
  induction file with
  | nil => rfl
  | cons line file ih =>
    obtain ⟨hline, hfile⟩ := List.forall_mem_cons.1 h
    have hlines : Format.lines conv (fileText letters (line :: file)) =
        (line.1.keyAndValue?.map fun e => entryLine letters e.1 e.2).toList ++
          Format.lines conv (fileText letters file) := by
      rw [fileText, List.flatMap_cons, List.append_assoc]
      exact linesFrom_fileLine hconv hline _ _
    have ih := ih hfile
    rw [load?] at ih
    rw [load?, hlines, List.mapM_append, ih]
    obtain ⟨fileLine, lineEnd⟩ := line
    cases fileLine with
    | entry key value =>
      have hentry := entry?_entryLine letters hline
      simp [FileLine.keyAndValue?, hentry, fileEntries]
    | _ => rfl

end Format

open Format

/-- A file has its entries by the rules of the format, and the reader finds them in their order. -/
theorem read_fileText (letters : HexLetters) (hproper : ∀ line ∈ file, line.1.IsProper)
    (hkeys : ((fileEntries file).map Prod.fst).Nodup) :
    load? conventions (fileText letters file) = some (fileEntries file) ∧
      (read (fileText letters file)).entries = fileEntries file := by
  refine ⟨load?_fileText isUsual_conventions letters hproper, ?_⟩
  rw [read, entries_of_load? (load?_fileText isUsual_ofReader letters hproper),
    Table.entries_ofList hkeys]

/-- A file with an empty key, a key of separators and comment signs, values that begin with a space
or end in backslashes, a comment that ends in one, and lines that end in all three ways. -/
def mixedFile : File :=
  [(.comment " # a=b\\", .feed), (.entry [] "\\\\", .carriageReturn), (.blank [], .feed),
    (.entry "#! =:" "  u\\", .returnAndFeed), (.blank " \t\x0c", .returnAndFeed),
    (.entry "\n\u20ac" "\t \x00", .feed)]

def mixedText : Text :=
  " # a=b\\\n" ++ "=\\\\\\\\\r\n" ++ "\\#\\!\\ \\=\\:=\\  u\\\\\r\n" ++ " \t\x0c\r\n" ++
    "\\n\\u20AC=\\t \\u0000\n"

theorem read_fileText_mixedFile :
    (∀ line ∈ mixedFile, line.1.IsProper) ∧ fileText .capital mixedFile = mixedText ∧
      (read mixedText).entries =
        ([([], "\\\\"), ("#! =:", "  u\\"), ("\n\u20ac", "\t \x00")] : List (Text × Text)) := by
  have hproper : ∀ line ∈ mixedFile, line.1.IsProper := by decide
  have hkeys : ((fileEntries mixedFile).map Prod.fst).Nodup := by decide
  have htext : fileText .capital mixedFile = mixedText := by decide
  obtain ⟨-, hread⟩ := read_fileText .capital hproper hkeys
  exact ⟨hproper, htext, htext ▸ hread⟩

end SubclassIndex.Properties
