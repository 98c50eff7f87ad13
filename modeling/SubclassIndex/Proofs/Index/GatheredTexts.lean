import SubclassIndex.Proofs.Index.EmbeddedLemmas

/-!
# Gathering from many texts

Indices are read one after another into what was gathered before. Each requested base has in the end
its names from before and all that any of the texts lists for it, and no other base is touched
(`Index.Gathers`). One text keeps this (`Index.gathers_gatherKeyed`), hence any number of texts do
(`Index.gathers_gatherAll`); and as it speaks of the texts as a set, neither their order nor their
repetition matters (`Index.gatherAll_order_free`).
-/

namespace SubclassIndex.Index

open ClassName

/-- A text has a row for a base: one of its keys is the base, once it is trimmed and spelled with
slashes. -/
def HasRow (text base : Text) : Prop :=
  ∃ key value, (Properties.read text).get? key = some value ∧ internal key.strip = base

/-- A text lists a name for a base: a piece of the value of such a key that is not blank. -/
def RowLists (text base name : Text) : Prop :=
  ∃ key value, (Properties.read text).get? key = some value ∧ internal key.strip = base ∧
    ∃ piece ∈ value.splitOnPoint ',', piece.strip ≠ [] ∧ internal piece.strip = name

/-- What is gathered when texts are read one after another. -/
def gatherAll (texts requested : List Text) (g : Gathered) : Gathered :=
  texts.foldl (fun g text => (gatherKeyed text requested g).1) g

/-- What reading some texts makes of what was gathered before. -/
structure Gathers (requested texts : List Text) (before after : Gathered) : Prop where
  /-- A requested base is there if it was before or some text has a row for it. -/
  present : ∀ base ∈ requested, (after.get? base).isSome = true ↔
    (before.get? base).isSome = true ∨ ∃ text ∈ texts, HasRow text base
  /-- It has its names from before and those that some text lists for it. -/
  names : ∀ base ∈ requested, ∀ name, name ∈ after.names base ↔
    name ∈ before.names base ∨ ∃ text ∈ texts, RowLists text base name
  /-- What is not requested is as it was, there or not. -/
  others : ∀ base, base ∉ requested → after.get? base = before.get? base

variable {text base name value : Text} {texts texts' requested : List Text}
  {g before between after after' : Gathered}

/-! ## One text -/

theorem mem_listedNames : name ∈ listedNames value ↔
    ∃ piece ∈ value.splitOnPoint ',', piece.strip ≠ [] ∧ internal piece.strip = name := by
  unfold listedNames
  simp only [List.mem_filterMap, List.mem_map, List.isEmpty_iff]
  constructor
  · rintro ⟨_, ⟨piece, hpiece, rfl⟩, hname⟩
    split at hname
    · cases hname
    · next hne => exact ⟨piece, hpiece, hne, Option.some.inj hname⟩
  · rintro ⟨piece, hpiece, hne, rfl⟩
    exact ⟨_, ⟨piece, hpiece, rfl⟩, if_neg hne⟩

theorem mem_listedFor_iff : name ∈ listedFor .properties text base ↔ RowLists text base name := by
  rw [mem_listedFor_properties]
  constructor
  · rintro ⟨⟨_, names⟩, hrow, rfl, hname⟩
    obtain ⟨key, value, hget, hkey, rfl⟩ := mem_keyedRows.1 hrow
    exact ⟨key, value, hget, hkey, mem_listedNames.1 hname⟩
  · rintro ⟨key, value, hget, hkey, hname⟩
    exact ⟨(base, _), mem_keyedRows.2 ⟨key, value, hget, hkey, rfl⟩, rfl, mem_listedNames.2 hname⟩

/-- The bases that gathering touches. -/
theorem get?_gatherKeyed (text : Text) (requested : List Text) (g : Gathered) (base : Text) :
    (base ∈ requested ∧ HasRow text base ∧ (gatherKeyed text requested g).1.get? base =
        some ((gatherKeyed text requested g).1.names base)) ∨
      (¬(base ∈ requested ∧ HasRow text base) ∧
        (gatherKeyed text requested g).1.get? base = g.get? base) := by
  have hrows : base ∈ ((keyedRows text).filter fun row => decide (row.1 ∈ requested)).map Prod.fst ↔
      base ∈ requested ∧ HasRow text base := by
    rw [HasRow, ← mem_map_keyedRows]
    simp [and_comm]
  rw [gatherKeyed_fst, Gathered.get?_addRows]
  split
  · next hmem =>
    obtain ⟨hbase, hrow⟩ := hrows.1 hmem
    exact .inl ⟨hbase, hrow, rfl⟩
  · next hmem => exact .inr ⟨fun h => hmem (hrows.2 h), rfl⟩

theorem gathers_gatherKeyed (text : Text) (requested : List Text) (g : Gathered) :
    Gathers requested [text] g (gatherKeyed text requested g).1 where
  present base hbase := by
    rcases get?_gatherKeyed text requested g base with ⟨-, hrow, hget⟩ | ⟨hnone, hget⟩
    · simp [hget, hrow]
    · have hrow : ¬HasRow text base := fun hrow => hnone ⟨hbase, hrow⟩
      simp [hget, hrow]
  names base hbase name := by
    rw [mem_names_gatherKeyed, mem_listedFor_iff]
    simp [hbase]
  others base hbase := by
    rcases get?_gatherKeyed text requested g base with ⟨hmem, -⟩ | ⟨-, hget⟩
    · exact absurd hmem hbase
    · exact hget

/-! ## Many texts -/

theorem gathers_nil : Gathers requested [] g g := by
  constructor <;> simp

theorem Gathers.append (h : Gathers requested texts before between)
    (h' : Gathers requested texts' between after) :
    Gathers requested (texts ++ texts') before after where
  present base hbase := by
    rw [h'.present base hbase, h.present base hbase, or_assoc]
    simp only [List.mem_append, or_and_right, exists_or]
  names base hbase name := by
    rw [h'.names base hbase, h.names base hbase, or_assoc]
    simp only [List.mem_append, or_and_right, exists_or]
  others base hbase := (h'.others base hbase).trans (h.others base hbase)

theorem gathers_gatherAll (texts requested : List Text) (g : Gathered) :
    Gathers requested texts g (gatherAll texts requested g) := by
  induction texts generalizing g with
  | nil => exact gathers_nil
  | cons text texts ih => exact (gathers_gatherKeyed text requested g).append (ih _)

theorem Gathered.get?_eq (hpresent : (after.get? base).isSome = (after'.get? base).isSome)
    (hnames : after.names base = after'.names base) : after.get? base = after'.get? base := by
  unfold Gathered.names at hnames
  cases hafter : after.get? base <;> cases hafter' : after'.get? base <;> simp_all

/-- What is gathered from a set of texts is determined by the set. -/
theorem Gathers.get?_eq (h : Gathers requested texts before after)
    (h' : Gathers requested texts' before after') (hsame : ∀ text, text ∈ texts' ↔ text ∈ texts)
    (base : Text) : after'.get? base = after.get? base := by
  by_cases hbase : base ∈ requested
  · apply Gathered.get?_eq
    · rw [Bool.eq_iff_iff, h.present base hbase, h'.present base hbase]
      simp only [hsame]
    · apply NameSet.ext_mem
      intro name
      rw [h.names base hbase, h'.names base hbase]
      simp only [hsame]
  · rw [h.others base hbase, h'.others base hbase]

/-- Indices that are read one after another add to each requested base all that any of them lists
for it and touch nothing else; texts in another order or with repetitions give every base the same
names; and each is complete exactly if it has a row for every requested base, whatever was gathered
before. -/
theorem gatherAll_order_free (texts requested : List Text) (g : Gathered) :
    Gathers requested texts g (gatherAll texts requested g) ∧
      (∀ texts', (∀ text, text ∈ texts' ↔ text ∈ texts) → ∀ base,
        (gatherAll texts' requested g).get? base = (gatherAll texts requested g).get? base) ∧
      ∀ text g, (gatherKeyed text requested g).2 = true ↔
        ∀ base ∈ requested, HasRow text base := by
  refine ⟨gathers_gatherAll texts requested g, fun texts' hsame base => ?_, fun text g => ?_⟩
  · exact (gathers_gatherAll texts requested g).get?_eq (gathers_gatherAll texts' requested g) hsame
      base
  · rw [gatherKeyed_snd, covers_properties_iff]
    rfl

/-- A text with two keys for one base. -/
def spelledTwice : Text := "a.B = b.L, b.K\na/B:b.M"

/-- A text with an empty row, a repeated key and a row that nobody asks for. -/
def repeatedKey : Text := "a.C=\na.B=b.Old\na.B=b.New\nq.R=b.Q"

def gatheredBefore : Gathered := .ofList [("a/B", .ofList ["z/Z"]), ("x/Y", .ofList ["y/Y"])]

theorem gatherAll_order_free_repeatedKey :
    let after := gatherAll [repeatedKey, spelledTwice, repeatedKey] ["a/B", "a/C"] gatheredBefore
    (∀ text, text ∈ [repeatedKey, spelledTwice, repeatedKey] ↔ text ∈ [spelledTwice, repeatedKey]) ∧
      after.get? "a/B" = some (.ofList ["b/K", "b/L", "b/M", "b/New", "z/Z"]) ∧
      after.get? "a/C" = some ∅ ∧ after.get? "x/Y" = some (.ofList ["y/Y"]) ∧
      after.get? "q/R" = none ∧
      (gatherKeyed repeatedKey ["a/B", "a/C"] gatheredBefore).2 = true := by
  obtain ⟨hgathers, hsame, hcomplete⟩ :=
    gatherAll_order_free [spelledTwice, repeatedKey] ["a/B", "a/C"] gatheredBefore
  have htexts : ∀ text, text ∈ [repeatedKey, spelledTwice, repeatedKey] ↔
      text ∈ [spelledTwice, repeatedKey] := by
    intro text
    simp only [List.mem_cons, List.not_mem_nil, or_false]
    exact ⟨fun h => h.elim .inr id, .inr⟩
  have hsame := hsame _ htexts
  have hfirst : HasRow repeatedKey "a/B" := ⟨"a.B", "b.New", by decide +kernel, by decide⟩
  have hsecond : HasRow repeatedKey "a/C" := ⟨"a.C", [], by decide +kernel, by decide⟩
  refine ⟨htexts, ?_, ?_, ?_, ?_, ?_⟩
  · exact (hsame "a/B").trans (by decide +kernel)
  · exact (hsame "a/C").trans (by decide +kernel)
  · exact (hsame "x/Y").trans ((hgathers.others "x/Y" (by decide)).trans (by decide +kernel))
  · exact (hsame "q/R").trans ((hgathers.others "q/R" (by decide)).trans (by decide +kernel))
  · exact (hcomplete repeatedKey gatheredBefore).2
      (List.forall_mem_cons.2 ⟨hfirst, List.forall_mem_singleton.2 hsecond⟩)

end SubclassIndex.Index
