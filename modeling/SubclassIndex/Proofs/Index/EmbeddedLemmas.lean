import SubclassIndex.Index.Embedded
import SubclassIndex.Index.Shape
import SubclassIndex.Proofs.NameSetLemmas
import SubclassIndex.Proofs.TableLemmas

/-!
# What gathering adds

`listedFor` says which names an index lists for a base and `covers` whether it has a row for each
of some bases, both by the text of the index alone. Gathering adds exactly the listed names
(`mem_names_gatherKeyed`, `mem_names_gatherFlat`), and it changes nothing exactly if each row for a
requested base is known already (`gatherKeyed_eq_self_iff`).
-/

namespace SubclassIndex.Index

/-- The names that an index lists for a base. One in flat layout does not name its base and lists
its names for whichever base it is read for. -/
def listedFor (shape : Shape) (text base : Text) : List Text :=
  match shape with
  | .properties => ((keyedRows text).filter fun row => row.1 = base).flatMap Prod.snd
  | .flat => flatNames text

/-- Whether an index has a row for each of some bases. One in flat layout always counts so. -/
def covers (shape : Shape) (requested : List Text) (text : Text) : Bool :=
  match shape with
  | .properties => requested.all fun base => decide (base ∈ (keyedRows text).map Prod.fst)
  | .flat => true

/-- The bases that an index is read for: all that are requested, or the first one if the index is
flat. -/
def basesRead (shape : Shape) (requested : List Text) : List Text :=
  match shape with
  | .properties => requested
  | .flat => requested.head?.toList

variable {g : Gathered} {base name text : Text} {names requested : List Text}

theorem mem_of_mem_basesRead {shape : Shape} (h : base ∈ basesRead shape requested) :
    base ∈ requested := by
  cases shape with
  | properties => exact h
  | flat => exact List.mem_of_mem_head? (Option.mem_toList.1 h)

/-- Where a flat index is read for all that is requested, so is any index. -/
theorem mem_basesRead_iff {shape : Shape} (hflat : shape = .flat → requested.length ≤ 1) :
    base ∈ basesRead shape requested ↔ base ∈ requested := by
  refine ⟨mem_of_mem_basesRead, fun h => ?_⟩
  cases shape with
  | properties => exact h
  | flat =>
    match requested, hflat rfl with
    | [only], _ => exact h

theorem mem_keyedRows : (base, names) ∈ keyedRows text ↔ ∃ key value,
    (Properties.read text).get? key = some value ∧ ClassName.internal key.strip = base ∧
      listedNames value = names := by
  simp only [keyedRows, List.mem_map, Prod.exists, Prod.mk.injEq, Table.mem_entries_iff]

theorem mem_listedFor_properties :
    name ∈ listedFor .properties text base ↔
      ∃ row ∈ keyedRows text, row.1 = base ∧ name ∈ row.2 := by
  simp only [listedFor, List.mem_flatMap, List.mem_filter, decide_eq_true_eq, and_assoc]

/-- The bases that an index has rows for are its keys, trimmed and spelled with slashes. -/
theorem mem_map_keyedRows : base ∈ (keyedRows text).map Prod.fst ↔ ∃ key value,
    (Properties.read text).get? key = some value ∧ ClassName.internal key.strip = base := by
  constructor
  · intro h
    obtain ⟨⟨_, names⟩, hrow, rfl⟩ := List.mem_map.1 h
    obtain ⟨key, value, hget, hkey, -⟩ := mem_keyedRows.1 hrow
    exact ⟨key, value, hget, hkey⟩
  · rintro ⟨key, value, hget, hkey⟩
    exact List.mem_map.2 ⟨(base, _), mem_keyedRows.2 ⟨key, value, hget, hkey, rfl⟩, rfl⟩

theorem covers_properties_iff : covers .properties requested text = true ↔ ∀ base ∈ requested,
    ∃ key value, (Properties.read text).get? key = some value ∧
      ClassName.internal key.strip = base := by
  simp only [covers, List.all_eq_true, decide_eq_true_eq, mem_map_keyedRows]

namespace Gathered

theorem get?_add (g : Gathered) (base base' : Text) (names : List Text) :
    (g.add base names).get? base' =
      if base = base' then some ((g.names base).insertAll names) else g.get? base' :=
  Table.get?_insert g base base' _

theorem mem_names_add {base' : Text} : name ∈ (g.add base' names).names base ↔
    name ∈ g.names base ∨ base' = base ∧ name ∈ names := by
  rw [Gathered.names, get?_add]
  by_cases h : base' = base
  · subst h
    rw [if_pos rfl, Option.getD_some, NameSet.mem_insertAll]
    exact ⟨fun h => h.symm.imp id fun h => ⟨rfl, h⟩, fun h => h.symm.imp And.right id⟩
  · rw [if_neg h]
    exact ⟨.inl, fun h' => h'.elim id fun h' => absurd h'.1 h⟩

theorem add_eq_self_iff : g.add base names = g ↔
    ∃ known, g.get? base = some known ∧ ∀ name ∈ names, name ∈ known := by
  constructor
  · intro h
    have hget : (g.add base names).get? base = some ((g.names base).insertAll names) := by
      rw [get?_add, if_pos rfl]
    rw [h] at hget
    exact ⟨_, hget, fun name hn => NameSet.mem_insertAll.2 (.inl hn)⟩
  · rintro ⟨known, hget, hknown⟩
    have hnames : g.names base = known := by rw [Gathered.names, hget, Option.getD_some]
    rw [add, hnames, NameSet.insertAll_eq_self hknown]
    exact Table.insert_eq_self hget

/-- Rows added one after another. -/
def addRows (g : Gathered) (rows : List (Text × List Text)) : Gathered :=
  rows.foldl (fun g row => g.add row.1 row.2) g

theorem mem_names_addRows {rows : List (Text × List Text)} : name ∈ (g.addRows rows).names base ↔
    name ∈ g.names base ∨ ∃ row ∈ rows, row.1 = base ∧ name ∈ row.2 := by
  induction rows generalizing g with
  | nil => simp [addRows]
  | cons row rows ih =>
    refine (ih (g := g.add row.1 row.2)).trans ?_
    rw [mem_names_add, or_assoc]
    simp

/-- The bases of the rows have the names gathered for them, and all else is as it was. -/
theorem get?_addRows (g : Gathered) (rows : List (Text × List Text)) (base : Text) :
    (g.addRows rows).get? base =
      if base ∈ rows.map Prod.fst then some ((g.addRows rows).names base) else g.get? base := by
  induction rows generalizing g with
  | nil => rfl
  | cons row rows ih =>
    have hcons : g.addRows (row :: rows) = (g.add row.1 row.2).addRows rows := rfl
    rw [hcons, List.map_cons]
    by_cases hrows : base ∈ rows.map Prod.fst
    · rw [ih, if_pos hrows, if_pos (List.mem_cons_of_mem _ hrows)]
    · have hget := (ih (g.add row.1 row.2)).trans (if_neg hrows)
      rw [Gathered.names, hget, get?_add]
      by_cases hbase : row.1 = base
      · rw [if_pos hbase, if_pos (hbase ▸ List.mem_cons_self)]
        rfl
      · rw [if_neg hbase, if_neg]
        exact fun hmem => (List.mem_cons.1 hmem).elim (fun heq => hbase heq.symm) hrows

/-- Gathering rows changes nothing exactly if each is there already, its base included. -/
theorem addRows_eq_self_iff {rows : List (Text × List Text)} : g.addRows rows = g ↔
    ∀ row ∈ rows, ∃ known, g.get? row.1 = some known ∧ ∀ name ∈ row.2, name ∈ known := by
  constructor
  · intro h row hrow
    have hget := get?_addRows g rows row.1
    rw [if_pos (List.mem_map_of_mem hrow), h] at hget
    refine ⟨_, hget, fun name hn => ?_⟩
    have hmem : name ∈ (g.addRows rows).names row.1 :=
      mem_names_addRows.2 (.inr ⟨row, hrow, rfl, hn⟩)
    rwa [h] at hmem
  · intro h
    induction rows with
    | nil => rfl
    | cons row rows ih =>
      have hrow := add_eq_self_iff.2 (h row List.mem_cons_self)
      rw [addRows, List.foldl_cons, hrow]
      exact ih fun row' hrow' => h row' (List.mem_cons_of_mem _ hrow')

/-- Rows for different bases that are new are entries of their own. -/
theorem entries_addRows {rows : List (Text × List Text)} (hd : (rows.map Prod.fst).Nodup)
    (hnew : ∀ base ∈ rows.map Prod.fst, base ∉ g.keys) : (g.addRows rows).entries =
      g.entries ++ rows.map fun row => (row.1, NameSet.ofList row.2) := by
  induction rows generalizing g with
  | nil => exact (List.append_nil _).symm
  | cons row rows ih =>
    obtain ⟨hrow, hd⟩ := List.nodup_cons.1 hd
    have hk := hnew row.1 List.mem_cons_self
    have hnames : g.names row.1 = ∅ := by
      rw [names, Table.get?, Table.lookup_eq_none.2 hk]
      rfl
    have hentries : (g.add row.1 row.2).entries =
        g.entries ++ [(row.1, NameSet.ofList row.2)] := by
      rw [add, hnames]
      exact Table.put_of_not_mem hk
    have hrest : ∀ base ∈ rows.map Prod.fst, base ∉ (g.add row.1 row.2).keys := by
      intro base hb hmem
      rw [Table.keys, hentries, List.map_append, List.mem_append] at hmem
      rcases hmem with hmem | hmem
      · exact hnew base (List.mem_cons_of_mem _ hb) hmem
      · exact hrow (List.mem_singleton.1 hmem ▸ hb)
    have ih := ih hd hrest
    rw [hentries, List.append_assoc] at ih
    exact ih

end Gathered

/-! ## Whole indices -/

theorem gatherKeyed_fst : (gatherKeyed text requested g).1 =
    g.addRows ((keyedRows text).filter fun row => decide (row.1 ∈ requested)) := rfl

theorem gatherKeyed_snd : (gatherKeyed text requested g).2 = covers .properties requested text := by
  rw [Bool.eq_iff_iff]
  simp only [gatherKeyed, covers, List.all_eq_true, List.mem_map, List.mem_filter,
    decide_eq_true_eq]
  refine forall_congr' fun base => forall_congr' fun hb => ?_
  constructor
  · rintro ⟨row, ⟨hrow, _⟩, rfl⟩
    exact ⟨row, hrow, rfl⟩
  · rintro ⟨row, hrow, rfl⟩
    exact ⟨row, ⟨hrow, hb⟩, rfl⟩

theorem mem_names_gatherKeyed : name ∈ (gatherKeyed text requested g).1.names base ↔
    name ∈ g.names base ∨ base ∈ requested ∧ name ∈ listedFor .properties text base := by
  rw [gatherKeyed_fst, Gathered.mem_names_addRows, mem_listedFor_properties]
  refine or_congr_right ⟨?_, ?_⟩
  · rintro ⟨row, hrow, rfl, hn⟩
    obtain ⟨hrow, hb⟩ := List.mem_filter.1 hrow
    exact ⟨of_decide_eq_true hb, row, hrow, rfl, hn⟩
  · rintro ⟨hb, row, hrow, rfl, hn⟩
    exact ⟨row, List.mem_filter.2 ⟨hrow, decide_eq_true hb⟩, rfl, hn⟩

theorem gatherKeyed_eq_self_iff : (gatherKeyed text requested g).1 = g ↔
    ∀ row ∈ keyedRows text, row.1 ∈ requested →
      ∃ known, g.get? row.1 = some known ∧ ∀ name ∈ row.2, name ∈ known := by
  rw [gatherKeyed_fst, Gathered.addRows_eq_self_iff]
  simp only [List.mem_filter, decide_eq_true_eq, and_imp]

theorem mem_names_gatherFlat {base' : Text} : name ∈ (gatherFlat text base' g).names base ↔
    name ∈ g.names base ∨ base' = base ∧ name ∈ listedFor .flat text base :=
  Gathered.mem_names_add

end SubclassIndex.Index
