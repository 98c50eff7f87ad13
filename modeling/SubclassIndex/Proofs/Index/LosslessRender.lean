import SubclassIndex.Proofs.Index.BothReaders

/-!
# What a rendered index determines

The text of an index has no escapes: a comma in a name reads like the end of the name, and a line
feed like the end of the row. Where neither occurs, a comma nowhere and a line feed only in the last
row, the text determines the names of every base (`renderKeyed_lossless`). The bases may hold any
code points.
-/

namespace SubclassIndex

namespace ClassName

/-- A name that a class may have: parts between slashes, none of them empty, and no dot, semicolon
or opening bracket. -/
structure IsLegal (name : Text) : Prop where
  parts : ∀ part ∈ name.splitOnPoint '/', part ≠ []
  points : ∀ c ∈ name, c ≠ '.' ∧ c ≠ ';' ∧ c ≠ '['

instance (name : Text) : Decidable (IsLegal name) :=
  decidable_of_iff ((∀ part ∈ name.splitOnPoint '/', part ≠ []) ∧
      ∀ c ∈ name, c ≠ '.' ∧ c ≠ ';' ∧ c ≠ '[')
    ⟨fun ⟨parts, points⟩ => ⟨parts, points⟩, fun ⟨parts, points⟩ => ⟨parts, points⟩⟩

variable {name : Text}

theorem IsLegal.ne_nil (h : IsLegal name) : name ≠ [] := by
  rintro rfl
  exact h.parts [] List.mem_cons_self rfl

theorem IsLegal.not_mem (h : IsLegal name) : CodePoint.ofChar '.' ∉ name :=
  fun hmem => (h.points _ hmem).1 rfl

end ClassName

namespace Index

open ClassName

variable {rows rows' : Rows} {names names' : List Text} {es es' : List (Text × List Text)}
  {name : Text} {c : CodePoint}

/-! ## One row -/

/-- Names that are found again in their row: legal ones without commas. -/
def Separable (names : List Text) : Prop :=
  ∀ name ∈ names, IsLegal name ∧ CodePoint.ofChar ',' ∉ name

instance (names : List Text) : Decidable (Separable names) :=
  inferInstanceAs (Decidable (∀ name ∈ names, IsLegal name ∧ CodePoint.ofChar ',' ∉ name))

/-- The names of a row as they are written. -/
def namesText (names : List Text) : Text := Text.join "," (dottedSorted names)

theorem rowLine_eq (row : Text × List Text) :
    rowLine row.1 row.2 = dotted row.1 ++ "=" ++ (namesText row.2 ++ [CodePoint.ofChar '\n']) := by
  simp only [rowLine, namesText, List.append_assoc]
  rfl

theorem mem_or_eq_of_mem_dotted (h : c ∈ dotted name) : c ∈ name ∨ c = '.' :=
  Text.mem_replacePoint h

theorem separable_dottedSorted (h : Separable names) :
    ∀ name ∈ dottedSorted names, name ≠ [] ∧ CodePoint.ofChar ',' ∉ name := by
  intro name hname
  obtain ⟨n, hn, rfl⟩ := mem_dottedSorted.1 hname
  refine ⟨fun hnil => (h n hn).1.ne_nil (List.map_eq_nil_iff.1 hnil), fun hcomma => ?_⟩
  rcases mem_or_eq_of_mem_dotted hcomma with hmem | hdot
  · exact (h n hn).2 hmem
  · exact absurd hdot (by decide)

/-- The text of a row determines the set of its names. -/
theorem ofList_eq_of_namesText (h : Separable names) (h' : Separable names')
    (heq : namesText names = namesText names') :
    NameSet.ofList names = NameSet.ofList names' := by
  have hsorted : dottedSorted names = dottedSorted names' :=
    Text.join_inj (separable_dottedSorted h) (separable_dottedSorted h') heq
  refine NameSet.ext_mem fun name => ?_
  rw [NameSet.mem_ofList, NameSet.mem_ofList,
    ← mem_map_internal_dottedSorted fun n hn => (h n hn).1.not_mem, hsorted,
    mem_map_internal_dottedSorted fun n hn => (h' n hn).1.not_mem]

theorem lineFeed_not_mem_namesText (h : ∀ name ∈ names, CodePoint.ofChar '\n' ∉ name) :
    CodePoint.ofChar '\n' ∉ namesText names := by
  intro hmem
  rcases Text.mem_join hmem with hcomma | ⟨t, ht, hmem⟩
  · exact absurd (List.mem_singleton.1 hcomma) (by decide)
  · obtain ⟨n, hn, rfl⟩ := mem_dottedSorted.1 ht
    rcases mem_or_eq_of_mem_dotted hmem with hmem | hdot
    · exact h n hn hmem
    · exact absurd hdot (by decide)

/-! ## All rows -/

/-- Rows that are found again in their text: the names of each are, and only in the last row names
hold line feeds. -/
structure SeparableRows (es : List (Text × List Text)) : Prop where
  names : ∀ row ∈ es, Separable row.2
  lines : ∀ row ∈ es.dropLast, ∀ name ∈ row.2, CodePoint.ofChar '\n' ∉ name

theorem SeparableRows.tail {row : Text × List Text} (h : SeparableRows (row :: es)) :
    SeparableRows es where
  names row' hrow' := h.names row' (List.mem_cons_of_mem _ hrow')
  lines row' hrow' := by
    cases es with
    | nil => cases hrow'
    | cons row₂ es => exact h.lines row' (List.mem_cons_of_mem _ hrow')

/-- The text of a row ends where the next row begins. -/
theorem namesText_eq_of_append {row row' : Text × List Text} (h : SeparableRows (row :: es))
    (h' : SeparableRows (row' :: es')) (hkeys : es.map Prod.fst = es'.map Prod.fst)
    (heq : namesText row.2 ++ [CodePoint.ofChar '\n'] ++ es.flatMap (fun e => rowLine e.1 e.2) =
      namesText row'.2 ++ [CodePoint.ofChar '\n'] ++ es'.flatMap fun e => rowLine e.1 e.2) :
    namesText row.2 = namesText row'.2 ∧ es.flatMap (fun e => rowLine e.1 e.2) =
      es'.flatMap fun e => rowLine e.1 e.2 := by
  cases es with
  | nil =>
    cases es' with
    | cons e' es' => cases hkeys
    | nil =>
      -- in the last row there may be line feeds, but nothing follows it
      rw [List.flatMap_nil, List.append_nil, List.append_nil] at heq
      exact ⟨List.append_cancel_right heq, rfl⟩
  | cons e es =>
    cases es' with
    | nil => cases hkeys
    | cons e' es' =>
      exact Text.append_separator_inj
        (lineFeed_not_mem_namesText (h.lines row List.mem_cons_self))
        (lineFeed_not_mem_namesText (h'.lines row' List.mem_cons_self)) heq

theorem rows_eq_of_flatMap (h : SeparableRows es) (h' : SeparableRows es')
    (hkeys : es.map Prod.fst = es'.map Prod.fst)
    (heq : es.flatMap (fun e => rowLine e.1 e.2) = es'.flatMap fun e => rowLine e.1 e.2) :
    (es.map fun e => (e.1, NameSet.ofList e.2)) = es'.map fun e => (e.1, NameSet.ofList e.2) := by
  induction es generalizing es' with
  | nil =>
    cases es' with
    | nil => rfl
    | cons e' es' => cases hkeys
  | cons e es ih =>
    cases es' with
    | nil => cases hkeys
    | cons e' es' =>
      obtain ⟨hbase, hkeys⟩ := List.cons.inj hkeys
      rw [List.flatMap_cons, List.flatMap_cons, rowLine_eq, rowLine_eq, ← hbase,
        List.append_assoc (dotted e.1 ++ Text.ofString "="),
        List.append_assoc (dotted e.1 ++ Text.ofString "=")] at heq
      obtain ⟨htext, hrest⟩ := namesText_eq_of_append h h' hkeys (List.append_cancel_left heq)
      have hnames := ofList_eq_of_namesText (h.names e List.mem_cons_self)
        (h'.names e' List.mem_cons_self) htext
      rw [List.map_cons, List.map_cons, hbase, hnames, ih h.tail h'.tail hkeys hrest]

/-- Two indices over the same bases with the same text give every base the same set of names. -/
theorem renderKeyed_lossless (h : SeparableRows rows.entries) (h' : SeparableRows rows'.entries)
    (hbases : rows.keys = rows'.keys) (heq : render rows .properties = render rows' .properties)
    (base : Text) :
    (rows.get? base).map NameSet.ofList = (rows'.get? base).map NameSet.ofList := by
  have hrows : rows.mapValues (fun _ names => NameSet.ofList names) =
      rows'.mapValues fun _ names => NameSet.ofList names :=
    Table.ext (rows_eq_of_flatMap h h' hbases heq)
  have hget := congrArg (fun table => Table.get? table base) hrows
  simpa only [Table.get?_mapValues] using hget

/-- Rows of two bases. -/
def rowsOf (names names' : List Text) : Rows := .ofList [("a/B", names), ("c/D", names')]

theorem entries_rowsOf (names names' : List Text) :
    (rowsOf names names').entries = [(("a/B" : Text), names), (("c/D" : Text), names')] := by
  refine Table.entries_ofList ?_
  rw [List.map_cons, List.map_cons]
  exact (by decide : [("a/B" : Text), "c/D"].Nodup)

theorem render_rowsOf (h : names.Nodup ∧ ∀ n ∈ names, CodePoint.ofChar '.' ∉ n)
    (h' : names'.Nodup ∧ ∀ n ∈ names', CodePoint.ofChar '.' ∉ n) :
    render (rowsOf names names') .properties =
      "a.B=" ++ Text.join "," (NameSet.ofList (names.map dotted)).names ++ "\nc.D=" ++
        Text.join "," (NameSet.ofList (names'.map dotted)).names ++ "\n" := by
  rw [render, renderKeyed, entries_rowsOf]
  simp only [List.flatMap_cons, List.flatMap_nil, rowLine, dottedSorted_eq h.1 h.2,
    dottedSorted_eq h'.1 h'.2, List.append_assoc, List.append_nil]
  rfl

/-- The names of a row may come in any order, and in the last row a name may hold a line feed. -/
theorem renderKeyed_lossless_reordered :
    (SeparableRows (rowsOf ["C", "c/D"] ["z\nq"]).entries ∧
      SeparableRows (rowsOf ["c/D", "C"] ["z\nq"]).entries ∧
      (rowsOf ["C", "c/D"] ["z\nq"]).keys = (rowsOf ["c/D", "C"] ["z\nq"]).keys ∧
      render (rowsOf ["C", "c/D"] ["z\nq"]) .properties =
        render (rowsOf ["c/D", "C"] ["z\nq"]) .properties) ∧
    ∀ base, ((rowsOf ["C", "c/D"] ["z\nq"]).get? base).map NameSet.ofList =
      ((rowsOf ["c/D", "C"] ["z\nq"]).get? base).map NameSet.ofList := by
  have hrows : SeparableRows (rowsOf ["C", "c/D"] ["z\nq"]).entries :=
    ⟨by decide +kernel, by decide +kernel⟩
  have hrows' : SeparableRows (rowsOf ["c/D", "C"] ["z\nq"]).entries :=
    ⟨by decide +kernel, by decide +kernel⟩
  have hkeys : (rowsOf ["C", "c/D"] ["z\nq"]).keys = (rowsOf ["c/D", "C"] ["z\nq"]).keys := by
    decide +kernel
  have htext : render (rowsOf ["C", "c/D"] ["z\nq"]) .properties =
      render (rowsOf ["c/D", "C"] ["z\nq"]) .properties := by
    rw [render_rowsOf (by decide +kernel) (by decide +kernel),
      render_rowsOf (by decide +kernel) (by decide +kernel)]
    decide +kernel
  exact ⟨⟨hrows, hrows', hkeys, htext⟩, renderKeyed_lossless hrows hrows' hkeys htext⟩

/-- Of legal names, one with a comma reads like two names, and one with a line feed like the end of
a row and the beginning of the next. -/
theorem renderKeyed_ambiguous :
    (∀ name ∈ [("a/B" : Text), "c/D", "x,y", "x", "y", "x\nc/D=y", "y\nc/D=z", "z"],
      IsLegal name) ∧
    (render (rowsOf ["x,y"] []) .properties = render (rowsOf ["x", "y"] []) .properties ∧
      ((rowsOf ["x,y"] []).get? "a/B").map NameSet.ofList ≠
        ((rowsOf ["x", "y"] []).get? "a/B").map NameSet.ofList) ∧
    render (rowsOf ["x\nc/D=y"] ["z"]) .properties =
        render (rowsOf ["x"] ["y\nc/D=z"]) .properties ∧
      ((rowsOf ["x\nc/D=y"] ["z"]).get? "c/D").map NameSet.ofList ≠
        ((rowsOf ["x"] ["y\nc/D=z"]).get? "c/D").map NameSet.ofList := by
  rw [render_rowsOf (by decide +kernel) (by decide +kernel),
    render_rowsOf (by decide +kernel) (by decide +kernel),
    render_rowsOf (by decide +kernel) (by decide +kernel),
    render_rowsOf (by decide +kernel) (by decide +kernel)]
  decide +kernel

end Index

end SubclassIndex
