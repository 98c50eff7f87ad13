import SubclassIndex.Proofs.Build.Collected
import SubclassIndex.Proofs.Index.BothReaders

/-!
# Querying a build back

A run reports rows and writes them to the output file. Read with the same settings, the file answers
queries for the configured bases with the reported names (`find_saved_of_run`). There is one
exception: a flat file does not name its base, and the reader takes it for the first configured
base as that is spelled, while a query is for the dotted spelling. So with a flat file a base that
is configured with slashes is not found (`find_saved_spelledWithSlashes`).
-/

namespace SubclassIndex

open ClassName Index

variable {s : Settings} {d : Disk} {r : BuildResult} {report : RunReport} {names : List Text}
  {base : Text}

/-! ## What a run leaves -/

section

variable [Zip.Library]

/-- A run that ends with rows has built them, and the output file holds them. -/
theorem holdsText_of_run (h : (run s d).2.value = .ok report) (hr : report.result = some r)
    (hrows : r.rows.isEmpty = false) : (build s d).value = .ok (some r) ∧
      (run s d).1.HoldsText s.outputFile (render r.rows s.shape) := by
  obtain ⟨-, -, hempty⟩ | ⟨built, written, hbuild, -, hwrite, rfl⟩ := run_eq_ok h
  · cases hrows.symm.trans (hempty r hr)
  · cases hr
    exact ⟨hbuild, Disk.holdsText_of_replaceIfChanged hwrite⟩

theorem exists_base_of_build (h : (build s d).value = .ok (some r)) {row : Text × List Text}
    (hrow : row ∈ r.rows.entries) : ∃ b ∈ s.baseClasses, internal b = row.1 :=
  Settings.mem_requestedBases.1 (row_of_build h (Table.mem_entries_iff.1 hrow)).1

theorem dot_not_mem_of_build (h : (build s d).value = .ok (some r)) {row : Text × List Text}
    (hrow : row ∈ r.rows.entries) : CodePoint.ofChar '.' ∉ row.1 := by
  obtain ⟨b, _, heq⟩ := exists_base_of_build h hrow
  rw [← heq]
  exact not_mem_internal

theorem ascending_of_build (h : (build s d).value = .ok (some r)) {row : Text × List Text}
    (hrow : row ∈ r.rows.entries) : row.2.Pairwise (· < ·) :=
  (row_of_build h (Table.mem_entries_iff.1 hrow)).2.1

/-- The report has the dotted rows in their order. -/
theorem entries_dotted_of_build (h : (build s d).value = .ok (some r)) :
    r.dotted.entries = r.rows.entries.map fun row => (dotted row.1, row.2.map dotted) := by
  -- bases that differ still differ when they are dotted, so that no row replaces another
  have hkeys := nodup_keys_dotted (fun row => row.2.map dotted) fun _ hrow =>
    dot_not_mem_of_build h hrow
  rw [BuildResult.dotted, Table.entries_ofList hkeys]

theorem get?_dotted_of_build (h : (build s d).value = .ok (some r))
    (hget : r.rows.get? base = some names) :
    r.dotted.get? (dotted base) = some (names.map dotted) := by
  rw [← Table.mem_entries_iff, entries_dotted_of_build h]
  exact List.mem_map_of_mem (f := fun row => (dotted row.1, row.2.map dotted))
    (Table.mem_entries_iff.2 hget)

end

/-! ## What a query finds -/

namespace Index

variable {rows : Rows} {q flatBase : Text}

theorem names_ofList_dotted (ha : names.Pairwise (· < ·))
    (hdot : ∀ n ∈ names, CodePoint.ofChar '.' ∉ n) :
    (NameSet.ofList (names.map dotted)).names = names.map dotted :=
  NameSet.names_ofList_of_ascending (pairwise_map_dotted ha hdot)

/-- A query for a base, in either spelling, is for its dotted name. -/
theorem find?_of_internal_eq (l : Listing) (h : internal q = internal base) :
    l.find? q = l.get? (dotted base) := by
  rw [Listing.find?, h, dotted_internal]

theorem find?_listing_properties (h : PlainRows rows)
    (hascending : ∀ row ∈ rows.entries, row.2.Pairwise (· < ·))
    (hget : rows.get? (internal base) = some names) (hq : internal q = internal base) :
    (Listing.ofText .properties flatBase (render rows .properties)).find? q =
      some (names.map dotted) := by
  have hrow : (internal base, names) ∈ rows.entries := Table.mem_entries_iff.2 hget
  have hnodup : ∀ row ∈ rows.entries, row.2.Nodup :=
    fun row hrow => Text.nodup_of_ascending (hascending row hrow)
  rw [find?_of_internal_eq _ hq, render, ← Table.mem_entries_iff,
    entries_listing_renderKeyed h hnodup]
  refine List.mem_map.2 ⟨_, hrow, ?_⟩
  rw [dotted_internal, names_ofList_dotted (hascending _ hrow) fun n hn => (h.names _ hrow n hn).2]

theorem flatBaseOf_mem (h : s.baseClasses ≠ []) : flatBaseOf s ∈ s.baseClasses := by
  rw [flatBaseOf]
  cases hb : s.baseClasses with
  | nil => exact absurd hb h
  | cons base bases => exact List.mem_cons_self

/-- A flat listing answers for the base that it is taken to belong to, if that is dotted. -/
theorem find?_listing_flat (h : PlainRows rows) (hone : rows.entries = [(internal base, names)])
    (hascending : names.Pairwise (· < ·)) (hq : internal q = internal base)
    (hflat : internal flatBase = internal base) :
    (Listing.ofText .flat flatBase (render rows .flat)).find? q =
      if CodePoint.ofChar '/' ∈ flatBase then none else some (names.map dotted) := by
  have hrow : (internal base, names) ∈ rows.entries := hone ▸ List.mem_singleton_self _
  have hall : (allNames rows).names = names := by
    rw [allNames, hone, List.flatMap_cons, List.flatMap_nil, List.append_nil]
    exact NameSet.names_ofList_of_ascending hascending
  have hdotted : dotted base = dotted flatBase := by
    rw [← dotted_internal, ← hflat, dotted_internal]
  rw [find?_of_internal_eq _ hq, render, Table.get?, entries_listing_renderFlat h, hall,
    names_ofList_dotted hascending fun n hn => (h.names _ hrow n hn).2, hdotted]
  by_cases hslash : CodePoint.ofChar '/' ∈ flatBase
  · have hne : flatBase ≠ dotted flatBase := fun heq => dotted_eq_self_iff.1 heq.symm hslash
    rw [if_pos hslash, Table.lookup, if_neg hne, Table.lookup]
  · rw [if_neg hslash, Table.lookup, if_pos (dotted_eq_self_iff.2 hslash).symm]

end Index

/-- After a run that ends with rows of plain names, a query for a configured base in either spelling
finds what the run reported for it, unless the file is flat and the first base is configured with
slashes. Then no query finds anything. -/
theorem find_saved_of_run [Zip.Library] (hs : s.fault? = none) (hrun : (run s d).2.value = .ok report)
    (hr : report.result = some r) (hrows : r.rows.isEmpty = false)
    (hbases : ∀ b ∈ s.baseClasses, Plain b)
    (hnames : ∀ row ∈ r.rows.entries, ∀ n ∈ row.2, Plain n ∧ CodePoint.ofChar '.' ∉ n) :
    ∃ l, saved s (run s d).1 = .ok (some l) ∧
      ∀ base ∈ s.baseClasses, ∀ q, internal q = internal base →
        ∃ names, r.dotted.get? (dotted base) = some names ∧
          l.find? q = if s.shape = .flat ∧ CodePoint.ofChar '/' ∈ flatBaseOf s then none
            else some names := by
  obtain ⟨hbuild, hfile⟩ := holdsText_of_run hrun hr hrows
  have hplain : PlainRows r.rows := by
    refine ⟨fun row hrow => ?_, hnames⟩
    obtain ⟨b, hb, heq⟩ := exists_base_of_build hbuild hrow
    exact ⟨heq ▸ (hbases b hb).internal, dot_not_mem_of_build hbuild hrow⟩
  have hascending : ∀ row ∈ r.rows.entries, row.2.Pairwise (· < ·) :=
    fun _ hrow => ascending_of_build hbuild hrow
  refine ⟨_, load_of_holdsText hfile (return_not_mem_render hplain), fun base hb q hq => ?_⟩
  obtain ⟨names, hget⟩ := exists_row_of_build hbuild (Settings.internal_mem_requestedBases hb)
  refine ⟨names.map dotted, ?_, ?_⟩
  · rw [← dotted_internal]
    exact get?_dotted_of_build hbuild hget
  · cases hshape : s.shape with
    | properties =>
      rw [if_neg fun h => nomatch h.1]
      exact find?_listing_properties hplain hascending hget hq
    | flat =>
      -- the only requested base is also the one that the file is taken to belong to
      have hone := Settings.requestedBases_eq_singleton hs hshape hb
      have hentries : r.rows.entries = [(internal base, names)] :=
        Table.entries_of_keys_eq_singleton ((rows_of_build hbuild).1.trans hone) hget
      have hfirst : internal (flatBaseOf s) = internal base := by
        have hmem := Settings.internal_mem_requestedBases (flatBaseOf_mem (List.ne_nil_of_mem hb))
        exact List.mem_singleton.1 (hone ▸ hmem)
      simp only [true_and]
      exact find?_listing_flat hplain hentries (row_of_build hbuild hget).2.1 hq hfirst

/-! ## A base that is configured with slashes -/

/-- Settings with a base that is spelled with slashes. -/
def slashSettings (shape : Shape) : Settings := { smallSettings with baseClasses := ["a/B"], shape }

/-- An empty classes directory beside an archive with a class. -/
def archivedDisk : Disk :=
  smallDisk [] [("x", Zip.pack [⟨"l/M.class", ClassFile.childOf "a/B" 33, 0⟩])]

theorem exists_run_archivedDisk (shape : Shape) :
    ∃ report r, (run (slashSettings shape) archivedDisk).2.value = .ok report ∧
      report.result = some r ∧ r.rows.entries = [(("a/B" : Text), [("l/M" : Text)])] := by
  have hfound : (run (slashSettings shape) archivedDisk).2.value.toOption.map
      (fun report => report.result.map fun r => r.rows.entries) =
        some (some [(("a/B" : Text), [("l/M" : Text)])]) := by
    cases shape <;> decide +kernel
  obtain ⟨report, hrun, hresult⟩ := exists_ok_of_toOption hfound
  obtain ⟨r, hr, hrows⟩ := Option.map_eq_some_iff.1 hresult
  exact ⟨report, r, hrun, hr, hrows⟩

theorem find_saved_of_run_archivedDisk :
    ∃ report r, (run (slashSettings .properties) archivedDisk).2.value = .ok report ∧
      report.result = some r ∧
      ∃ l, saved (slashSettings .properties) (run (slashSettings .properties) archivedDisk).1 =
          .ok (some l) ∧
        ∀ q ∈ [("a.B" : Text), "a/B"], l.find? q = r.dotted.get? "a.B" := by
  obtain ⟨report, r, hrun, hr, hrows⟩ := exists_run_archivedDisk .properties
  obtain ⟨l, hl, hfind⟩ := find_saved_of_run (by decide) hrun hr
    (by rw [Table.isEmpty, hrows]; rfl) (by decide) (by rw [hrows]; decide)
  refine ⟨report, r, hrun, hr, l, hl, fun q hq => ?_⟩
  have hspelling : internal q = internal "a/B" := by
    rcases List.mem_cons.1 hq with rfl | hq
    · rfl
    · rw [List.mem_singleton.1 hq]
  obtain ⟨names, hreported, hnames⟩ := hfind "a/B" List.mem_cons_self q hspelling
  rw [hnames]
  exact hreported.symm

/-- A flat file does not answer for a base that is configured with slashes, though the run reported
a name for it. -/
theorem find_saved_spelledWithSlashes :
    (slashSettings .flat).fault? = none ∧ (∀ b ∈ (slashSettings .flat).baseClasses, Plain b) ∧
    ∃ report r, (run (slashSettings .flat) archivedDisk).2.value = .ok report ∧
      report.result = some r ∧ r.dotted.get? "a.B" = some [("l.M" : Text)] ∧
      ∃ l, saved (slashSettings .flat) (run (slashSettings .flat) archivedDisk).1 =
          .ok (some l) ∧
        ∀ q ∈ [("a.B" : Text), "a/B"], l.find? q = none := by
  refine ⟨by decide, by decide, ?_⟩
  obtain ⟨report, r, hrun, hr, hrows⟩ := exists_run_archivedDisk .flat
  have hreported : r.dotted.get? "a.B" = some [("l.M" : Text)] := by
    rw [BuildResult.dotted, hrows]
    decide
  have hlisted : (saved (slashSettings .flat)
      (run (slashSettings .flat) archivedDisk).1).toOption.map
        (fun found => found.map fun l => [("a.B" : Text), "a/B"].map l.find?) =
          some (some [none, none]) := by decide +kernel
  obtain ⟨found, hsaved, hfound⟩ := exists_ok_of_toOption hlisted
  obtain ⟨l, rfl, hanswers⟩ := Option.map_eq_some_iff.1 hfound
  refine ⟨report, r, hrun, hr, hreported, l, hsaved, fun q hq => ?_⟩
  have hmem := List.mem_map_of_mem (f := l.find?) hq
  rw [hanswers] at hmem
  rcases List.mem_cons.1 hmem with h | h
  · exact h
  · exact List.mem_singleton.1 h

end SubclassIndex
