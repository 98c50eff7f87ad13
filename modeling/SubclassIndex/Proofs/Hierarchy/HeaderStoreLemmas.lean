import SubclassIndex.Hierarchy.HeaderStore
import SubclassIndex.Proofs.TableLemmas

/-!
# First writer wins

The header of a class in a store that is filled from several sources is the first one that any of
the sources supplies, in the order of the sources and, within a source, in its own order
(`HeaderStore.header?_ofSources`).
-/

namespace SubclassIndex

/-- What a source supplies: its headers, in its order, under its label. -/
structure Source where
  label : Text
  headers : List (Text × Header)

namespace HeaderStore

theorem addAll_fst (s : HeaderStore) (headers : List (Text × Header)) (origin : Text) :
    (s.addAll headers origin).1 =
      headers.foldl (fun s e => s.insertNew e.1 ⟨e.2, origin⟩) s := by
  suffices h : ∀ count, (headers.foldl (fun (acc : HeaderStore × Nat) e =>
      ((acc.1.add e.1 e.2 origin).1, if (acc.1.add e.1 e.2 origin).2 then acc.2 + 1 else acc.2))
      (s, count)).1 = headers.foldl (fun s e => s.insertNew e.1 ⟨e.2, origin⟩) s from h 0
  induction headers generalizing s with
  | nil => exact fun _ => rfl
  | cons e headers ih => exact fun _ => ih _ _

theorem get?_addAll (s : HeaderStore) (headers : List (Text × Header)) (origin name : Text) :
    (s.addAll headers origin).1.get? name =
      (s.get? name).or (Table.lookup name (headers.map fun e => (e.1, ⟨e.2, origin⟩))) := by
  rw [addAll_fst]
  exact Table.get?_foldl_insertNew Prod.fst (fun e => ⟨e.2, origin⟩) headers s name

/-- Supplied headers are found unless the store had one under the same name. -/
theorem header?_addAll (s : HeaderStore) (headers : List (Text × Header)) (origin name : Text) :
    (s.addAll headers origin).1.header? name = (s.header? name).or (Table.lookup name headers) := by
  have hmap : (Table.lookup name (headers.map fun e => (e.1, (⟨e.2, origin⟩ : KnownClass)))).map
      KnownClass.header = Table.lookup name headers := by
    induction headers with
    | nil => rfl
    | cons e headers ih =>
      by_cases h : e.1 = name
      · simp [Table.lookup, h]
      · simpa [Table.lookup, h] using ih
  rw [header?, header?, get?_addAll, ← hmap]
  cases s.get? name <;> rfl

/-- Headers whose names are all known leave a store as it is. -/
theorem addAll_eq_self_iff (s : HeaderStore) (headers : List (Text × Header)) (origin : Text) :
    (s.addAll headers origin).1 = s ↔ ∀ e ∈ headers, s.contains e.1 = true := by
  rw [addAll_fst]
  constructor
  · intro h e he
    have hget := Table.get?_foldl_insertNew Prod.fst (fun e => (⟨e.2, origin⟩ : KnownClass))
      headers s e.1
    rw [h] at hget
    cases hs : s.get? e.1 with
    | some _ => simp [Table.contains, hs]
    | none =>
      have hk : e.1 ∈ (headers.map fun e => (e.1, (⟨e.2, origin⟩ : KnownClass))).map Prod.fst :=
        List.mem_map.2 ⟨_, List.mem_map.2 ⟨e, he, rfl⟩, rfl⟩
      rw [hs, Option.none_or] at hget
      exact absurd hk (Table.lookup_eq_none.1 hget.symm)
  · intro h
    induction headers with
    | nil => rfl
    | cons e headers ih =>
      have he : s.insertNew e.1 ⟨e.2, origin⟩ = s := by
        simp [Table.insertNew, h e List.mem_cons_self]
      rw [List.foldl_cons, he]
      exact ih fun e' he' => h e' (List.mem_cons_of_mem _ he')

/-! ## Stores filled from sources -/

/-- Adds sources in order of precedence. -/
def addSources (s : HeaderStore) (sources : List Source) : HeaderStore :=
  sources.foldl (fun s x => (s.addAll x.headers x.label).1) s

/-- The store that is filled from some sources in order of precedence. -/
def ofSources (sources : List Source) : HeaderStore := addSources ∅ sources

theorem addSources_append (s : HeaderStore) (sources sources' : List Source) :
    s.addSources (sources ++ sources') = (s.addSources sources).addSources sources' :=
  List.foldl_append

theorem header?_addSources (sources : List Source) (s : HeaderStore) (name : Text) :
    (s.addSources sources).header? name =
      (s.header? name).or (Table.lookup name (sources.flatMap Source.headers)) := by
  induction sources generalizing s with
  | nil => simp [addSources, Table.lookup]
  | cons x sources ih =>
    refine (ih (s.addAll x.headers x.label).1).trans ?_
    rw [header?_addAll, List.flatMap_cons, Table.lookup_append, Option.or_assoc]

/-- The header of a class is the first one that a source supplies. -/
theorem header?_ofSources (sources : List Source) (name : Text) :
    (ofSources sources).header? name = Table.lookup name (sources.flatMap Source.headers) := by
  rw [ofSources, header?_addSources]
  rfl

/-- Whether sources have the same header for a class that several of them supply. -/
def SourcesAgree (sources : List Source) : Prop :=
  ∀ x ∈ sources, ∀ y ∈ sources, ∀ name header header',
    Table.lookup name x.headers = some header → Table.lookup name y.headers = some header' →
    header = header'

theorem exists_source_of_header? {sources : List Source} {name : Text} {header : Header}
    (h : (ofSources sources).header? name = some header) :
    ∃ x ∈ sources, Table.lookup name x.headers = some header := by
  rw [header?_ofSources] at h
  induction sources with
  | nil => cases h
  | cons x sources ih =>
    rw [List.flatMap_cons, Table.lookup_append] at h
    cases hx : Table.lookup name x.headers with
    | some header' =>
      rw [hx, Option.some_or] at h
      exact ⟨x, List.mem_cons_self, h ▸ hx⟩
    | none =>
      rw [hx, Option.none_or] at h
      obtain ⟨y, hy, hlookup⟩ := ih h
      exact ⟨y, List.mem_cons_of_mem _ hy, hlookup⟩

/-- Among sources that agree, leaving some out changes no header that is still there. -/
theorem header?_ofSources_of_subset {sources sources' : List Source} {name : Text} {header : Header}
    (hagree : SourcesAgree sources) (hsub : sources' ⊆ sources)
    (h : (ofSources sources').header? name = some header) :
    (ofSources sources).header? name = some header := by
  obtain ⟨x, hx, hlookup⟩ := exists_source_of_header? h
  cases hall : (ofSources sources).header? name with
  | none =>
    rw [header?_ofSources, Table.lookup_eq_none] at hall
    refine absurd (List.mem_map.2 ⟨(name, header), ?_, rfl⟩) hall
    exact List.mem_flatMap.2 ⟨x, hsub hx, Table.mem_of_lookup hlookup⟩
  | some header' =>
    obtain ⟨y, hy, hlookup'⟩ := exists_source_of_header? hall
    rw [hagree x (hsub hx) y hy name header header' hlookup hlookup']

/-! ## Concrete classes -/

theorem concrete?_eq_some {s : HeaderStore} {name : Text} {header : Header} :
    s.concrete? name = some header ↔ s.header? name = some header ∧ header.isConcrete = true := by
  rw [concrete?, Option.filter_eq_some_iff]

theorem concrete?_congr {s s' : HeaderStore} (h : ∀ name, s.header? name = s'.header? name)
    (name : Text) : s.concrete? name = s'.concrete? name := by
  rw [concrete?, concrete?, h]

end HeaderStore

end SubclassIndex
