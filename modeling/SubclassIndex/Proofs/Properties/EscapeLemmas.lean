import SubclassIndex.Proofs.Index.EmbeddedLemmas
import SubclassIndex.Proofs.ScalarLemmas

/-!
# Escaped surrogates

The only way to a surrogate in what properties text means is an escape that names it: where no
logical line has one, the entries of a scalar text are scalar (`Properties.isScalar_entryOf`) and so
are all names that it lists (`Index.isScalar_of_mem_listedFor`).
-/

namespace SubclassIndex

namespace Properties

variable {t line : Text} {lines : List Text} {c : CodePoint}

/-- A backslash, the letter u and four digits that are the number of a surrogate occur in a text. -/
def NamesSurrogate (t : Text) : Prop :=
  ∃ digits c, digits.length = 4 ∧ unicodeEscape? digits = some c ∧ c.isSurrogate = true ∧
    ("\\u" ++ digits : Text) <:+: t

theorem NamesSurrogate.mono {t' : Text} (h : NamesSurrogate t) (hwithin : t <:+: t') :
    NamesSurrogate t' := by
  obtain ⟨digits, c, hlen, hdigits, hc, hmem⟩ := h
  exact ⟨digits, c, hlen, hdigits, hc, hmem.trans hwithin⟩

theorem not_namesSurrogate (h : CodePoint.ofChar '\\' ∉ t) : ¬NamesSurrogate t := by
  rintro ⟨digits, c, _, _, _, hmem⟩
  exact h (hmem.subset List.mem_cons_self)

/-! ## Unescaping -/

theorem escapeMeaning_cases (c : CodePoint) (rest : Text) :
    (escapeMeaning c rest).1.isSurrogate = false ∨ (escapeMeaning c rest).1 = c ∨
      c = 'u' ∧ (rest.take 4).length = 4 ∧
        unicodeEscape? (rest.take 4) = some (escapeMeaning c rest).1 := by
  unfold escapeMeaning
  split_ifs with h₁ h₂ h₃ h₄ h₅
  · exact .inl (by decide)
  · exact .inl (by decide)
  · exact .inl (by decide)
  · exact .inl (by decide)
  · split
    · next named hnamed =>
      have hlen := List.length_take_le 4 rest
      exact .inr (.inr ⟨h₅.1, Nat.le_antisymm hlen h₅.2, hnamed⟩)
    · exact .inr (.inl rfl)
  · exact .inr (.inl rfl)

theorem isScalar_unescape (ht : t.IsScalar) (h : ¬NamesSurrogate t) : (unescape t).IsScalar := by
  suffices hgo : ∀ skip, (unescape.go skip t).IsScalar from hgo 0
  induction t with
  | nil => intro skip; cases skip <;> exact fun c hc => nomatch hc
  | cons c t ih =>
    have hrest := ih (ht.subset (List.subset_cons_self c t))
      fun hs => h (hs.mono (List.suffix_cons c t).isInfix)
    intro skip
    cases skip with
    | succ skip => exact hrest skip
    | zero =>
      cases t with
      | nil => exact ht
      | cons d t =>
        unfold unescape.go
        dsimp only
        split
        · next hc =>
          refine List.forall_mem_cons.2 ⟨?_, hrest _⟩
          rcases escapeMeaning_cases d t with hscalar | heq | ⟨rfl, hlen, hnamed⟩
          · exact hscalar
          · rw [heq]
            exact ht d (by simp)
          · refine Bool.eq_false_iff.2 fun hsurrogate =>
              h ⟨_, _, hlen, hnamed, hsurrogate, [], t.drop 4, ?_⟩
            rw [List.nil_append, List.append_assoc, List.take_append_drop, hc]
            rfl
        · exact List.forall_mem_cons.2 ⟨ht c (by simp), hrest _⟩

/-! ## Entries -/

theorem splitKey_fst_append_snd (line : Text) : (splitKey line).1 ++ (splitKey line).2 = line := by
  suffices hgo : ∀ escaped, (splitKey.go escaped line).1 ++ (splitKey.go escaped line).2 = line from
    hgo false
  induction line with
  | nil => exact fun _ => rfl
  | cons c line ih =>
    intro escaped
    unfold splitKey.go
    split
    · rfl
    · exact congrArg (c :: ·) (ih _)

theorem dropSeparator_suffix (after : Text) : dropSeparator after <:+ after := by
  have hdrop := List.dropWhile_suffix isSpace (l := after)
  unfold dropSeparator
  split
  · next c rest heq =>
    rw [heq] at hdrop
    split
    · exact (List.dropWhile_suffix _).trans ((List.suffix_cons c rest).trans hdrop)
    · exact hdrop
  · exact List.nil_suffix

theorem isScalar_entryOf (hline : line.IsScalar) (h : ¬NamesSurrogate line) :
    (entryOf line).1.IsScalar ∧ (entryOf line).2.IsScalar := by
  have hpart : ∀ {part : Text}, part <:+: line → (unescape part).IsScalar := fun hwithin =>
    isScalar_unescape (hline.subset hwithin.subset) fun hs => h (hs.mono hwithin)
  have heq := splitKey_fst_append_snd line
  refine ⟨hpart ⟨[], (splitKey line).2, heq⟩, hpart ?_⟩
  exact (dropSeparator_suffix _).isInfix.trans
    ⟨(splitKey line).1, [], (List.append_nil _).trans heq⟩

theorem isScalar_of_mem_logicalLines (h : ∀ line ∈ lines, line.IsScalar) :
    ∀ line ∈ logicalLines lines, line.IsScalar := by
  suffices hgo : ∀ held, (∀ front ∈ held, front.IsScalar) →
      ∀ line ∈ logicalLines.go held lines, line.IsScalar from hgo none nofun
  induction lines with
  | nil =>
    intro held hheld line hline
    exact hheld line (Option.mem_toList.1 hline)
  | cons line lines ih =>
    obtain ⟨hline, hlines⟩ := List.forall_mem_cons.1 h
    have ih := ih hlines
    have hdrop : Text.IsScalar (line.dropWhile isSpace) :=
      hline.subset (List.dropWhile_suffix _).subset
    have hdropLast : Text.IsScalar (line.dropWhile isSpace).dropLast :=
      hdrop.subset (List.dropLast_subset _)
    intro held hheld
    unfold logicalLines.go
    dsimp only
    split
    · split
      · exact ih none nofun
      · split
        · exact ih _ fun front hfront => Option.some.inj hfront ▸ hdropLast
        · exact List.forall_mem_cons.2 ⟨hdrop, ih none nofun⟩
    · next front =>
      have hfront := hheld front rfl
      split
      · refine ih _ fun front' hfront' => ?_
        exact Option.some.inj hfront' ▸ Text.isScalar_append.2 ⟨hfront, hdropLast⟩
      · exact List.forall_mem_cons.2 ⟨Text.isScalar_append.2 ⟨hfront, hdrop⟩, ih none nofun⟩

end Properties

/-! ## Listed names -/

namespace Index

open Properties

variable {value text base name : Text}

theorem isScalar_of_mem_listedNames (h : value.IsScalar) (hn : name ∈ listedNames value) :
    name.IsScalar := by
  obtain ⟨piece, hpiece, hname⟩ := List.mem_filterMap.1 hn
  obtain ⟨untrimmed, hsplit, rfl⟩ := List.mem_map.1 hpiece
  split at hname
  · cases hname
  · cases hname
    refine Text.isScalar_internal.2 (h.subset ?_)
    exact List.Subset.trans (Text.strip_sublist _).subset (Text.subset_of_mem_splitOnPoint hsplit)

theorem isScalar_of_mem_flatNames (h : text.IsScalar) (hn : name ∈ flatNames text) :
    name.IsScalar := by
  obtain ⟨line, hline, hname⟩ := List.mem_filterMap.1 hn
  obtain ⟨untrimmed, huntrimmed, rfl⟩ := List.mem_map.1 hline
  have hscalar : untrimmed.strip.IsScalar :=
    h.subset
      (List.Subset.trans (Text.strip_sublist _).subset (Text.subset_of_mem_lines huntrimmed))
  split at hname
  · cases hname
  · next c rest heq =>
    split at hname
    · cases hname
    · cases hname
      exact Text.isScalar_internal.2 hscalar

/-- The names that a scalar text lists are scalar unless an escape names a surrogate. -/
theorem isScalar_of_mem_listedFor {shape : Shape} (h : text.IsScalar)
    (hescapes : ∀ line ∈ logicalLines text.lines, ¬NamesSurrogate line)
    (hn : name ∈ listedFor shape text base) : name.IsScalar := by
  cases shape with
  | flat => exact isScalar_of_mem_flatNames h hn
  | properties =>
    obtain ⟨row, hrow, -, hname⟩ := mem_listedFor_properties.1 hn
    obtain ⟨⟨key, value⟩, hentry, rfl⟩ := List.mem_map.1 hrow
    obtain ⟨line, hline, heq⟩ := List.mem_map.1 (Table.mem_of_mem_ofList hentry)
    have hlines : ∀ line ∈ text.lines, line.IsScalar :=
      fun line hline => h.subset (Text.subset_of_mem_lines hline)
    have hvalue := (isScalar_entryOf (isScalar_of_mem_logicalLines hlines line hline)
      (hescapes line hline)).2
    rw [heq] at hvalue
    exact isScalar_of_mem_listedNames hvalue hname

end Index

end SubclassIndex
