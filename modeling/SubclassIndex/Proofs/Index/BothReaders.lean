import SubclassIndex.Index.Saved
import SubclassIndex.Proofs.Build.SmallDisk
import SubclassIndex.Proofs.Disk.FileLemmas
import SubclassIndex.Proofs.Index.RoundTrip

/-!
# Two readers of a written index

An index is read back in two ways: as a listing, from the file that it was written to, and as an
embedded index, from its text in an archive. Both recover the bases in their order and the set of
names of each (`readers_recover_render`).
-/

namespace SubclassIndex.Index

open ClassName

variable {rows : Rows} {names requested : List Text} {base flatBase name text : Text}
  {shape : Shape} {d : Disk} {p : Path} {c : CodePoint}

/-! ## Names -/

/-- Dotted and sorted, names without dots are the list of the set of the dotted names. -/
theorem dottedSorted_eq (hd : names.Nodup) (hdot : ∀ n ∈ names, CodePoint.ofChar '.' ∉ n) :
    dottedSorted names = (NameSet.ofList (names.map dotted)).names :=
  (NameSet.names_ofList (nodup_map_dotted hd hdot)).symm

theorem map_dotted_internal_dottedSorted :
    ((dottedSorted names).map internal).map dotted = dottedSorted names := by
  rw [List.map_map]
  refine (List.map_congr_left fun name hn => ?_).trans (List.map_id _)
  obtain ⟨n, _, rfl⟩ := mem_dottedSorted.1 hn
  rw [Function.comp_apply, dotted_internal, dotted_dotted, id]

/-! ## The listing -/

/-- A file that holds a text without carriage returns is read as that text. -/
theorem load_of_holdsText (h : d.HoldsText p text) (hr : CodePoint.ofChar '\r' ∉ text) :
    load shape flatBase d p = .ok (some (Listing.ofText shape flatBase text)) := by
  obtain ⟨bytes, hencode, hlookup⟩ := h
  have hdecode : Listing.ofBytes? shape flatBase bytes =
      some (Listing.ofText shape flatBase text) := by
    rw [Listing.ofBytes?, Utf8.decode?_of_encode? hencode, Option.map_some,
      Text.normalizeNewlines_eq_self hr]
  simp only [load, Disk.isFile_of_lookup hlookup, Disk.readFile_of_lookup hlookup, hdecode]

theorem return_not_mem_render (h : PlainRows rows) :
    CodePoint.ofChar '\r' ∉ render rows shape := by
  intro hmem
  cases shape with
  | properties =>
    rw [render, renderKeyed_eq, List.mem_flatMap] at hmem
    obtain ⟨line, hline, hmem⟩ := hmem
    obtain ⟨row, hrow, rfl⟩ := List.mem_map.1 hline
    rcases List.mem_append.1 hmem with hmem | hmem
    · have hend := isLineEnd_of_mem_rowText hmem (h.bases row hrow).1 fun n hn =>
        (h.names row hrow n hn).1
      exact absurd hend (by decide)
    · exact absurd (List.mem_singleton.1 hmem) (by decide)
  | flat =>
    rcases Text.mem_join hmem with hmem | ⟨name, hn, hmem⟩
    · exact absurd (List.mem_singleton.1 hmem) (by decide)
    · have hplain := (plain_of_mem_renderedNames h hn).points _ hmem
      exact absurd hplain (by decide)

theorem entries_listing_renderKeyed (h : PlainRows rows)
    (hsets : ∀ row ∈ rows.entries, row.2.Nodup) :
    (Listing.ofText .properties flatBase (renderKeyed rows)).entries =
      rows.entries.map fun row =>
        (dotted row.1, (NameSet.ofList (row.2.map dotted)).names) := by
  simp only [Listing.ofText, Table.mapValues, entries_read_renderKeyed h, List.map_map]
  refine List.map_congr_left fun row hrow => ?_
  have hnames := h.names row hrow
  have hplain : ∀ n ∈ dottedSorted row.2, Plain n :=
    fun n hn => plain_of_mem_dottedSorted (fun n hn => (hnames n hn).1) hn
  rw [Function.comp_apply]
  dsimp only
  rw [listedNames_join hplain, map_dotted_internal_dottedSorted,
    dottedSorted_eq (hsets row hrow) fun n hn => (hnames n hn).2]

theorem entries_listing_renderFlat (h : PlainRows rows) :
    (Listing.ofText .flat flatBase (renderFlat rows)).entries =
      [(flatBase, (NameSet.ofList ((allNames rows).names.map dotted)).names)] := by
  have hplain : ∀ n ∈ dottedSorted (allNames rows).names, Plain n :=
    fun n hn => plain_of_mem_renderedNames h hn
  have hnonempty : ∀ n ∈ dottedSorted (allNames rows).names, (!n.isEmpty) = true := by
    intro n hn
    rw [List.isEmpty_eq_false_iff.2 (hplain n hn).ne_nil]
    rfl
  have hlines : Listing.flatLines (renderFlat rows) =
      (NameSet.ofList ((allNames rows).names.map dotted)).names := by
    rw [Listing.flatLines, lines_renderFlat h, map_strip hplain, List.filter_eq_self.2 hnonempty,
      dottedSorted_eq (allNames rows).nodup_names fun n hn => (h.allNames hn).2]
  rw [Listing.ofText, hlines]
  rfl

/-! ## The embedded index -/

theorem gatherKeyed_renderKeyed (h : PlainRows rows)
    (hrequested : ∀ base, base ∈ requested ↔ base ∈ rows.keys) :
    gatherKeyed (renderKeyed rows) requested ∅ =
      (rows.mapValues fun _ names => NameSet.ofList names, true) := by
  have hcovers : covers .properties requested (renderKeyed rows) = true :=
    covers_render h fun base hb => (hrequested base).1 hb
  refine Prod.ext ?_ (gatherKeyed_snd.trans hcovers)
  have hall : (keyedRows (renderKeyed rows)).filter (fun row => decide (row.1 ∈ requested)) =
      rows.entries.map fun row => (row.1, (dottedSorted row.2).map internal) := by
    rw [keyedRows_renderKeyed h]
    refine List.filter_eq_self.2 fun row hrow => decide_eq_true ?_
    obtain ⟨row', hrow', rfl⟩ := List.mem_map.1 hrow
    exact (hrequested row'.1).2 (List.mem_map_of_mem hrow')
  have hkeys : (rows.entries.map fun row =>
      (row.1, (dottedSorted row.2).map internal)).map Prod.fst = rows.keys := by
    rw [List.map_map]
    rfl
  apply Table.ext
  rw [gatherKeyed_fst, hall, Gathered.entries_addRows (hkeys ▸ rows.nodup) fun _ _ hk =>
    List.not_mem_nil hk, List.map_map]
  refine (List.nil_append _).trans (List.map_congr_left fun row hrow => Prod.ext rfl ?_)
  refine NameSet.ext_mem fun name => ?_
  refine NameSet.mem_ofList.trans (Iff.trans ?_ NameSet.mem_ofList.symm)
  exact mem_map_internal_dottedSorted fun n hn => (h.names row hrow n hn).2

theorem entries_gatherFlat_renderFlat (h : PlainRows rows) :
    (gatherFlat (renderFlat rows) base ∅).entries = [(base, allNames rows)] := by
  have hnames : NameSet.ofList (flatNames (renderFlat rows)) = allNames rows := by
    refine NameSet.ext_mem fun name => ?_
    rw [NameSet.mem_ofList, mem_flatNames_renderFlat h]
    exact mem_allNames.symm
  rw [← hnames]
  rfl

/-! ## Both readers -/

/-- Both readers recover rows of plain names without dots. A row may hold its names in any order,
but each only once. -/
theorem readers_recover_render (h : PlainRows rows) (hsets : ∀ row ∈ rows.entries, row.2.Nodup) :
    (∀ d p flatBase, Disk.HoldsText d p (render rows .properties) →
      ∃ l, load .properties flatBase d p = .ok (some l) ∧
        l.entries = rows.entries.map fun row =>
          (dotted row.1, (NameSet.ofList (row.2.map dotted)).names)) ∧
    (∀ requested, (∀ base, base ∈ requested ↔ base ∈ rows.keys) →
      gatherKeyed (render rows .properties) requested ∅ =
        (rows.mapValues fun _ names => NameSet.ofList names, true)) ∧
    ∀ base names, rows.entries = [(base, names)] →
      (∀ d p, Disk.HoldsText d p (render rows .flat) →
        ∃ l, load .flat (dotted base) d p = .ok (some l) ∧
          l.entries = [(dotted base, (NameSet.ofList (names.map dotted)).names)]) ∧
      (gatherFlat (render rows .flat) base ∅).entries = [(base, NameSet.ofList names)] := by
  refine ⟨fun d p flatBase hfile => ?_, fun requested => gatherKeyed_renderKeyed h,
    fun base names hone => ?_⟩
  · exact ⟨_, load_of_holdsText hfile (return_not_mem_render h),
      entries_listing_renderKeyed h hsets⟩
  · have hall : allNames rows = NameSet.ofList names := by
      rw [allNames, hone, List.flatMap_cons, List.flatMap_nil, List.append_nil]
    refine ⟨fun d p hfile => ⟨_, load_of_holdsText hfile (return_not_mem_render h), ?_⟩, ?_⟩
    · have hset : NameSet.ofList ((NameSet.ofList names).names.map dotted) =
          NameSet.ofList (names.map dotted) := by
        refine NameSet.ext_mem fun name => ?_
        rw [NameSet.mem_ofList, NameSet.mem_ofList, List.mem_map, List.mem_map]
        exact exists_congr fun n => and_congr_left fun _ => NameSet.mem_ofList
      rw [render, entries_listing_renderFlat h, hall, hset]
    · rw [render, entries_gatherFlat_renderFlat h, hall]

/-- Two bases, of which one has no names. -/
def twoRows : Rows := .ofList [("a/B", ["c/D", "C"]), ("x/Y", [])]

def oneRow : Rows := .ofList [("a/B", ["c/D", "C"])]

theorem render_twoRows : render twoRows .properties = "a.B=C,c.D\nx.Y=\n" ∧
    render oneRow .flat = "C\nc.D" := by
  have hsorted : dottedSorted [("c/D" : Text), "C"] = [("C" : Text), "c.D"] :=
    (dottedSorted_eq (by decide +kernel) (by decide +kernel)).trans (by decide +kernel)
  have hsorted' : dottedSorted [("C" : Text), "c/D"] = [("C" : Text), "c.D"] :=
    (dottedSorted_eq (by decide +kernel) (by decide +kernel)).trans (by decide +kernel)
  have hentries : twoRows.entries =
      [(("a/B" : Text), [("c/D" : Text), "C"]), (("x/Y" : Text), [])] := by decide +kernel
  have hnames : (allNames oneRow).names = [("C" : Text), "c/D"] := by decide +kernel
  constructor
  · rw [render, renderKeyed, hentries]
    simp only [List.flatMap_cons, List.flatMap_nil, rowLine, hsorted]
    decide +kernel
  · rw [render, renderFlat, ← allNames, hnames, hsorted']
    decide +kernel

/-- A disk with a text in the file `i`. -/
def diskHolding (text : Text) : Disk := smallDisk [] [("i", text.flatMap Utf8.bytesOf)]

theorem readers_recover_render_twoRows :
    (PlainRows twoRows ∧ ∀ row ∈ twoRows.entries, row.2.Nodup) ∧
    (∃ l, load .properties [] (diskHolding (render twoRows .properties)) ("i" : Text) =
        .ok (some l) ∧
      l.entries = twoRows.entries.map fun row =>
        (dotted row.1, (NameSet.ofList (row.2.map dotted)).names)) ∧
    gatherKeyed (render twoRows .properties) ["x/Y", "a/B"] ∅ =
      (twoRows.mapValues fun _ names => NameSet.ofList names, true) ∧
    (∃ l, load .flat (dotted "a/B") (diskHolding (render oneRow .flat)) ("i" : Text) =
        .ok (some l) ∧
      l.entries = [(dotted "a/B", (NameSet.ofList [dotted "c/D", dotted "C"]).names)]) ∧
    (gatherFlat (render oneRow .flat) "a/B" ∅).entries =
      [(("a/B" : Text), NameSet.ofList ["c/D", "C"])] := by
  have htwo : PlainRows twoRows ∧ ∀ row ∈ twoRows.entries, row.2.Nodup :=
    ⟨⟨by decide +kernel, by decide +kernel⟩, by decide +kernel⟩
  have hone : PlainRows oneRow ∧ ∀ row ∈ oneRow.entries, row.2.Nodup :=
    ⟨⟨by decide +kernel, by decide +kernel⟩, by decide +kernel⟩
  have hheld : ∀ text ∈ [("a.B=C,c.D\nx.Y=\n" : Text), "C\nc.D"],
      (∀ c ∈ text, c.isSurrogate = false) ∧ ((diskHolding text).lookup ("i" : Text)).toOption =
        some (.file (text.flatMap Utf8.bytesOf)) := by decide +kernel
  have hfile : ∀ text ∈ [("a.B=C,c.D\nx.Y=\n" : Text), "C\nc.D"],
      (diskHolding text).HoldsText ("i" : Text) text := by
    intro text htext
    obtain ⟨hscalar, hlookup⟩ := hheld text htext
    refine ⟨_, Utf8.encode?_eq_some.2 ⟨hscalar, rfl⟩, ?_⟩
    cases hl : (diskHolding text).lookup ("i" : Text) <;> rw [hl] at hlookup <;> cases hlookup
    rfl
  obtain ⟨hload, hgather, _⟩ := readers_recover_render htwo.1 htwo.2
  obtain ⟨_, _, hsingle⟩ := readers_recover_render hone.1 hone.2
  obtain ⟨hloadFlat, hgatherFlat⟩ := hsingle "a/B" ["c/D", "C"] (by decide +kernel)
  refine ⟨htwo, hload _ _ _ ?_, hgather _ fun base => ?_, hloadFlat _ _ ?_, hgatherFlat⟩
  · rw [render_twoRows.1]
    exact hfile _ List.mem_cons_self
  · have hkeys : twoRows.keys = [("a/B" : Text), "x/Y"] := by decide +kernel
    rw [hkeys]
    simp only [List.mem_cons, List.not_mem_nil, or_false]
    exact or_comm
  · rw [render_twoRows.2]
    exact hfile _ (List.mem_cons_of_mem _ List.mem_cons_self)

end SubclassIndex.Index
