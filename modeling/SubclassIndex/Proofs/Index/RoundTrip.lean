import SubclassIndex.Index.Render
import SubclassIndex.Proofs.ClassNameLemmas
import SubclassIndex.Proofs.Index.EmbeddedLemmas
import SubclassIndex.Proofs.Properties.UnescapedLemmas
import SubclassIndex.Proofs.TextLemmas

/-!
# Reading back a rendered index

Rows of plain names without dots survive being written: the rows that are read from the rendered
text are the rows that were rendered (`keyedRows_renderKeyed`), and so it lists and covers what they
do, in either shape (`mem_listedFor_render`, `covers_render`).
-/

namespace SubclassIndex.Index

open ClassName

/-- Rows that an index can hold: all names plain and without dots. -/
structure PlainRows (rows : Rows) : Prop where
  bases : ∀ row ∈ rows.entries, Plain row.1 ∧ CodePoint.ofChar '.' ∉ row.1
  names : ∀ row ∈ rows.entries, ∀ name ∈ row.2, Plain name ∧ CodePoint.ofChar '.' ∉ name

variable {rows : Rows} {names requested : List Text} {base name : Text} {shape : Shape}

/-! ## Lists of names -/

theorem mem_dottedSorted : name ∈ dottedSorted names ↔ ∃ n ∈ names, dotted n = name := by
  rw [dottedSorted, Text.sort, List.mem_mergeSort, List.mem_map]

theorem plain_of_mem_dottedSorted (h : ∀ n ∈ names, Plain n) (hn : name ∈ dottedSorted names) :
    Plain name := by
  obtain ⟨n, hmem, rfl⟩ := mem_dottedSorted.1 hn
  exact (h n hmem).dotted

/-- Written and read, names without dots are the same names. -/
theorem mem_map_internal_dottedSorted (h : ∀ n ∈ names, CodePoint.ofChar '.' ∉ n) :
    name ∈ (dottedSorted names).map internal ↔ name ∈ names := by
  simp only [List.mem_map, mem_dottedSorted]
  constructor
  · rintro ⟨_, ⟨n, hn, rfl⟩, rfl⟩
    rwa [internal_dotted_eq_self (h n hn)]
  · exact fun hn => ⟨_, ⟨name, hn, rfl⟩, internal_dotted_eq_self (h name hn)⟩

theorem filterMap_eq_map {f : Text → Option Text} {g : Text → Text}
    (h : ∀ n ∈ names, f n = some (g n)) : names.filterMap f = names.map g := by
  induction names with
  | nil => rfl
  | cons n names ih =>
    rw [List.filterMap_cons, h n List.mem_cons_self, List.map_cons,
      ih fun n' hn' => h n' (List.mem_cons_of_mem _ hn')]

theorem map_strip (h : ∀ n ∈ names, Plain n) : names.map Text.strip = names :=
  (List.map_congr_left fun n hn => Text.strip_eq_self (h n hn).isBlank).trans (List.map_id names)

theorem listedNames_join (h : ∀ n ∈ names, Plain n) :
    listedNames (Text.join "," names) = names.map internal := by
  by_cases hne : names = []
  · subst hne
    rfl
  · have hsplit : (Text.join "," names).splitOnPoint ',' = names :=
      Text.splitOnPoint_join hne fun n hn => (h n hn).not_mem_of_isPlain (by decide)
    rw [listedNames, hsplit, map_strip h]
    exact filterMap_eq_map fun n hn => if_neg fun he => (h n hn).ne_nil (List.isEmpty_iff.1 he)

/-! ## Lines -/

/-- The line of a row, without its end. -/
def rowText (row : Text × List Text) : Text :=
  dotted row.1 ++ "=" ++ Text.join "," (dottedSorted row.2)

theorem renderKeyed_eq (rows : Rows) :
    renderKeyed rows = (rows.entries.map rowText).flatMap fun line => line ++ ("\n" : Text) := by
  rw [renderKeyed, List.flatMap_map]
  rfl

variable {row : Text × List Text} {c : CodePoint}

theorem mem_rowText (h : c ∈ rowText row) (hbase : Plain row.1) (hnames : ∀ n ∈ row.2, Plain n) :
    c.isPlain = true ∨ c = '=' ∨ c = ',' := by
  rw [rowText, List.mem_append, List.mem_append] at h
  rcases h with (h | h) | h
  · exact .inl (hbase.dotted.points c h)
  · exact .inr (.inl (List.mem_singleton.1 h))
  · rcases Text.mem_join h with h | ⟨n, hn, h⟩
    · exact .inr (.inr (List.mem_singleton.1 h))
    · exact .inl ((plain_of_mem_dottedSorted hnames hn).points c h)

theorem isLineEnd_of_mem_rowText (h : c ∈ rowText row) (hbase : Plain row.1)
    (hnames : ∀ n ∈ row.2, Plain n) : c.isLineEnd = false := by
  rcases mem_rowText h hbase hnames with h | rfl | rfl
  · exact CodePoint.isLineEnd_of_isPlain h
  · decide
  · decide

theorem not_mem_rowText (hbase : Plain row.1) (hnames : ∀ n ∈ row.2, Plain n) :
    CodePoint.ofChar '\\' ∉ rowText row := by
  intro h
  rcases mem_rowText h hbase hnames with h | h | h <;> revert h <;> decide

theorem head?_rowText (hbase : Plain row.1) : ∃ c, (rowText row).head? = some c ∧
    Properties.isSpace c = false ∧ Properties.isCommentSign c = false := by
  have h := hbase.dotted
  unfold rowText
  cases hd : dotted row.1 with
  | nil => exact absurd hd h.ne_nil
  | cons c rest =>
    rw [hd] at h
    exact ⟨c, rfl, CodePoint.isSpace_of_isPlain (h.points c List.mem_cons_self), h.head c rfl⟩

theorem entryOf_rowText (hbase : Plain row.1) (hnames : ∀ n ∈ row.2, Plain n) :
    Properties.entryOf (rowText row) = (dotted row.1, Text.join "," (dottedSorted row.2)) := by
  refine Properties.entryOf_append (fun c hc => ?_) (fun hmem => ?_) fun c hc => ?_
  · have hc := hbase.dotted.points c hc
    exact ⟨CodePoint.isSeparator_of_isPlain hc, CodePoint.isSpace_of_isPlain hc,
      (CodePoint.isPlain_iff.1 hc).2.2.1⟩
  · exact not_mem_rowText hbase hnames (List.mem_append_right _ hmem)
  -- the value begins with a name or is empty
  · rcases mem_rowText (List.mem_append_right _ (List.mem_of_mem_head? hc)) hbase hnames with
      h | rfl | rfl
    · exact CodePoint.isSpace_of_isPlain h
    · decide
    · decide

/-! ## Whole indices -/

/-- Rows of bases without dots still have different keys when their bases are dotted. -/
theorem nodup_keys_dotted {α : Type} (f : Text × List Text → α)
    (hdot : ∀ row ∈ rows.entries, CodePoint.ofChar '.' ∉ row.1) :
    ((rows.entries.map fun row => (dotted row.1, f row)).map Prod.fst).Nodup := by
  have hkeys : ∀ base ∈ rows.entries.map Prod.fst, CodePoint.ofChar '.' ∉ base :=
    List.forall_mem_map.2 hdot
  have hdotted := nodup_map_dotted rows.nodup hkeys
  rw [List.map_map] at hdotted ⊢
  exact hdotted

/-- The properties of a rendered index: the dotted bases with the dotted names. -/
theorem entries_read_renderKeyed (h : PlainRows rows) :
    (Properties.read (renderKeyed rows)).entries =
      rows.entries.map fun row => (dotted row.1, Text.join "," (dottedSorted row.2)) := by
  have hnames : ∀ row ∈ rows.entries, ∀ n ∈ row.2, Plain n :=
    fun row hrow n hn => (h.names row hrow n hn).1
  have hlines : (renderKeyed rows).lines = rows.entries.map rowText := by
    rw [renderKeyed_eq]
    refine Text.lines_flatMap_break fun line hline c hc => ?_
    obtain ⟨row, hrow, rfl⟩ := List.mem_map.1 hline
    exact isLineEnd_of_mem_rowText hc (h.bases row hrow).1 (hnames row hrow)
  have hlogical :
      Properties.logicalLines (rows.entries.map rowText) = rows.entries.map rowText := by
    refine Properties.logicalLines_eq_self fun line hline => ?_
    obtain ⟨row, hrow, rfl⟩ := List.mem_map.1 hline
    have hbase := (h.bases row hrow).1
    exact ⟨not_mem_rowText hbase (hnames row hrow), head?_rowText hbase⟩
  have hentries : Properties.entries (renderKeyed rows) =
      rows.entries.map fun row => (dotted row.1, Text.join "," (dottedSorted row.2)) := by
    rw [Properties.entries, hlines, hlogical, List.map_map]
    exact List.map_congr_left fun row hrow => entryOf_rowText (h.bases row hrow).1 (hnames row hrow)
  rw [Properties.read, hentries]
  exact Table.entries_ofList (nodup_keys_dotted _ fun row hrow => (h.bases row hrow).2)

/-- The rows that are read from a rendered index. -/
theorem keyedRows_renderKeyed (h : PlainRows rows) :
    keyedRows (renderKeyed rows) =
      rows.entries.map fun row => (row.1, (dottedSorted row.2).map internal) := by
  rw [keyedRows, entries_read_renderKeyed h, List.map_map]
  refine List.map_congr_left fun row hrow => ?_
  obtain ⟨hbase, hdot⟩ := h.bases row hrow
  have hnames : ∀ n ∈ dottedSorted row.2, Plain n := fun n hn =>
    plain_of_mem_dottedSorted (fun n hn => (h.names row hrow n hn).1) hn
  simp only [Function.comp_apply, Text.strip_eq_self hbase.dotted.isBlank,
    internal_dotted_eq_self hdot, listedNames_join hnames]

theorem mem_listedFor_renderKeyed (h : PlainRows rows) :
    name ∈ listedFor .properties (renderKeyed rows) base ↔
      ∃ names, rows.get? base = some names ∧ name ∈ names := by
  rw [mem_listedFor_properties, keyedRows_renderKeyed h]
  constructor
  · rintro ⟨_, hmem, rfl, hn⟩
    obtain ⟨row, hrow, rfl⟩ := List.mem_map.1 hmem
    refine ⟨row.2, Table.mem_entries_iff.1 hrow, ?_⟩
    exact (mem_map_internal_dottedSorted fun n hn => (h.names row hrow n hn).2).1 hn
  · rintro ⟨names, hget, hn⟩
    have hrow := Table.mem_entries_iff.2 hget
    refine ⟨_, List.mem_map_of_mem hrow, rfl, ?_⟩
    exact (mem_map_internal_dottedSorted fun n hn => (h.names _ hrow n hn).2).2 hn

/-- The names of all rows, each once. -/
def allNames (rows : Rows) : NameSet := .ofList (rows.entries.flatMap Prod.snd)

theorem mem_allNames : name ∈ (allNames rows).names ↔ ∃ row ∈ rows.entries, name ∈ row.2 := by
  rw [← List.mem_flatMap]
  exact NameSet.mem_ofList

theorem PlainRows.allNames (h : PlainRows rows) (hn : name ∈ (allNames rows).names) :
    Plain name ∧ CodePoint.ofChar '.' ∉ name := by
  obtain ⟨row, hrow, hn⟩ := mem_allNames.1 hn
  exact h.names row hrow name hn

theorem plain_of_mem_renderedNames (h : PlainRows rows)
    (hn : name ∈ dottedSorted (allNames rows).names) : Plain name :=
  plain_of_mem_dottedSorted (fun _ hn => (h.allNames hn).1) hn

theorem lines_renderFlat (h : PlainRows rows) :
    (renderFlat rows).lines = dottedSorted (allNames rows).names := by
  refine Text.lines_join fun n hn => ?_
  have hn := plain_of_mem_renderedNames h hn
  exact ⟨hn.ne_nil, fun c hc => CodePoint.isLineEnd_of_isPlain (hn.points c hc)⟩

/-- The names that are read from a rendered flat index. -/
theorem mem_flatNames_renderFlat (h : PlainRows rows) :
    name ∈ flatNames (renderFlat rows) ↔ ∃ row ∈ rows.entries, name ∈ row.2 := by
  have hplain : ∀ n ∈ dottedSorted (allNames rows).names, Plain n :=
    fun n hn => plain_of_mem_renderedNames h hn
  rw [flatNames, lines_renderFlat h, map_strip hplain, filterMap_eq_map (g := internal),
    ← mem_allNames]
  · exact mem_map_internal_dottedSorted fun n hn => (h.allNames hn).2
  · intro n hn
    have hn := hplain n hn
    cases n with
    | nil => exact absurd rfl hn.ne_nil
    | cons c n =>
      have hsign := hn.head c rfl
      refine if_neg fun heq => ?_
      rw [heq] at hsign
      cases hsign

/-- A rendered index lists for a base what its row holds. In flat layout there must be no other
base. -/
theorem mem_listedFor_render (h : PlainRows rows) (hbase : base ∈ rows.keys)
    (hflat : shape = .flat → rows.keys.length ≤ 1) :
    name ∈ listedFor shape (render rows shape) base ↔
      ∃ names, rows.get? base = some names ∧ name ∈ names := by
  cases shape with
  | properties => exact mem_listedFor_renderKeyed h
  | flat =>
    have hlen := hflat rfl
    obtain ⟨row, hrow, rfl⟩ := List.mem_map.1 hbase
    have hget : rows.get? row.1 = some row.2 := Table.mem_entries_iff.1 hrow
    have hone : ∀ row' ∈ rows.entries, row' = row := by
      rw [Table.keys, List.length_map] at hlen
      obtain ⟨i, hi, rfl⟩ := List.getElem_of_mem hrow
      intro row' hrow'
      obtain ⟨i', hi', rfl⟩ := List.getElem_of_mem hrow'
      obtain rfl : i' = i := by omega
      rfl
    refine (mem_flatNames_renderFlat h).trans ⟨?_, ?_⟩
    · rintro ⟨row', hrow', hn⟩
      exact ⟨row.2, hget, hone row' hrow' ▸ hn⟩
    · rintro ⟨names, hget', hn⟩
      cases hget.symm.trans hget'
      exact ⟨row, hrow, hn⟩

/-- A rendered index covers the bases that have a row. -/
theorem covers_render (h : PlainRows rows) (hbases : ∀ base ∈ requested, base ∈ rows.keys) :
    covers shape requested (render rows shape) = true := by
  cases shape with
  | flat => rfl
  | properties =>
    refine List.all_eq_true.2 fun base hb => decide_eq_true ?_
    rw [render, keyedRows_renderKeyed h, List.map_map]
    exact hbases base hb

end SubclassIndex.Index
