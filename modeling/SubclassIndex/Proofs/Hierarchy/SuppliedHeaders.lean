import Mathlib.Data.Finset.Card
import SubclassIndex.Proofs.Hierarchy.HeaderStoreLemmas

/-!
# The history of a store

A store that begins empty is determined by the headers that have been supplied to it, in their
order, whether they came one at a time or many at once: the first supply of a name counts, and the
names stand in the order of their first supplies (`HeaderStore.Records`). One more supply keeps this
(`HeaderStore.Records.add`), hence any calls do (`HeaderStore.records_after`), and all that a store
can be asked for is read off its history (`HeaderStore.firstCounts_after`).

Headers and labels may as well be kept in two tables of which only the first is asked whether a name
is known: the two stay in step (`HeaderStore.TwoTables.after_eq`).
-/

namespace SubclassIndex

namespace HeaderStore

/-- A header as it is supplied to a store. -/
structure Supply where
  name : Text
  header : Header
  origin : Text

/-- What a store keeps of a supply, if it keeps it. -/
def Supply.known (x : Supply) : KnownClass := ⟨x.header, x.origin⟩

/-- The first supply of a name. -/
def first? (name : Text) (history : List Supply) : Option Supply :=
  history.find? fun x => x.name = name

/-- A call that supplies headers to a store: a single one, or many from one source. -/
inductive Call
  | add (x : Supply)
  | addAll (headers : List (Text × Header)) (origin : Text)

/-- The supplies of a call in their order. -/
def Call.supplies : Call → List Supply
  | add x => [x]
  | addAll headers origin => headers.map fun e => ⟨e.1, e.2, origin⟩

/-- The store after a call. -/
def Call.perform (s : HeaderStore) : Call → HeaderStore
  | add x => (s.add x.name x.header x.origin).1
  | addAll headers origin => (s.addAll headers origin).1

/-- The store after some calls, when it was empty before. -/
def after (calls : List Call) : HeaderStore := calls.foldl Call.perform ∅

/-- The headers of a store by name, in its order. -/
def items (s : HeaderStore) : List (Text × Header) := s.entries.map fun e => (e.1, e.2.header)

variable {s : HeaderStore} {history : List Supply} {name : Text} {x : Supply}

/-! ## Histories -/

theorem first?_append_singleton (history : List Supply) (x : Supply) (name : Text) :
    first? name (history ++ [x]) =
      (first? name history).or (if x.name = name then some x else none) := by
  rw [first?, first?, List.find?_append]
  by_cases hx : x.name = name <;> simp [hx]

/-- A name that is supplied once more keeps its place. -/
theorem eraseDups_append_singleton (names : List Text) (name : Text) :
    (names ++ [name]).eraseDups =
      if name ∈ names then names.eraseDups else names.eraseDups ++ [name] := by
  rw [List.eraseDups_append]
  split_ifs with hname
  · simp [List.removeAll, hname]
  · simp [List.removeAll, hname, List.eraseDups_cons]

/-! ## One supply -/

/-- A store holds what its history of supplies makes of it. -/
structure Records (s : HeaderStore) (history : List Supply) : Prop where
  get? : ∀ name, s.get? name = (first? name history).map Supply.known
  keys : s.keys = (history.map Supply.name).eraseDups

theorem records_empty : Records ∅ [] := ⟨fun _ => rfl, rfl⟩

theorem Records.add (h : Records s history) (x : Supply) :
    Records (s.add x.name x.header x.origin).1 (history ++ [x]) where
  get? name := by
    rw [HeaderStore.add, Table.get?_insertNew, h.get?, h.get?, first?_append_singleton]
    split_ifs with hx
    · subst hx
      cases first? x.name history <;> rfl
    · cases first? name history <;> rfl
  keys := by
    rw [HeaderStore.add, Table.keys_insertNew, h.keys, List.map_append, List.map_singleton,
      eraseDups_append_singleton]
    simp only [List.mem_eraseDups]

theorem Records.contains_iff (h : Records s history) :
    s.contains name = true ↔ name ∈ history.map Supply.name := by
  rw [Table.contains_iff, h.keys, List.mem_eraseDups]

/-! ## Many supplies -/

theorem Records.addAll (h : Records s history) (headers : List (Text × Header)) (origin : Text) :
    Records (s.addAll headers origin).1 (history ++ headers.map fun e => ⟨e.1, e.2, origin⟩) := by
  rw [addAll_fst]
  induction headers generalizing s history with
  | nil => simpa using h
  | cons e headers ih =>
    have hrest := ih (h.add ⟨e.1, e.2, origin⟩)
    rwa [List.append_assoc, List.singleton_append] at hrest

/-- One of many supplies: the store after it, and the count of new names. -/
def addCounting (origin : Text) (acc : HeaderStore × Nat) (e : Text × Header) : HeaderStore × Nat :=
  ((acc.1.add e.1 e.2 origin).1, if (acc.1.add e.1 e.2 origin).2 then acc.2 + 1 else acc.2)

theorem size_addCounting (origin : Text) (acc : HeaderStore × Nat) (e : Text × Header) :
    (addCounting origin acc e).1.size + acc.2 = acc.1.size + (addCounting origin acc e).2 := by
  have hsize : (addCounting origin acc e).1.size =
      if acc.1.contains e.1 then acc.1.size else acc.1.size + 1 := Table.size_insertNew ..
  have hcount : (addCounting origin acc e).2 =
      if acc.1.contains e.1 then acc.2 else acc.2 + 1 := by
    rw [addCounting, HeaderStore.add]
    cases acc.1.contains e.1 <;> rfl
  rw [hsize, hcount]
  split_ifs <;> omega

/-- A call that supplies many headers counts by how many names the store grows. -/
theorem size_addAll (s : HeaderStore) (headers : List (Text × Header)) (origin : Text) :
    (s.addAll headers origin).1.size = s.size + (s.addAll headers origin).2 := by
  suffices h : ∀ acc : HeaderStore × Nat, (headers.foldl (addCounting origin) acc).1.size + acc.2 =
      acc.1.size + (headers.foldl (addCounting origin) acc).2 from h (s, 0)
  induction headers with
  | nil => exact fun _ => rfl
  | cons e headers ih =>
    intro acc
    have hstep := size_addCounting origin acc e
    have hrest := ih (addCounting origin acc e)
    rw [List.foldl_cons]
    omega

/-! ## Calls -/

theorem Records.perform (h : Records s history) (call : Call) :
    Records (call.perform s) (history ++ call.supplies) := by
  cases call with
  | add x => exact h.add x
  | addAll headers origin => exact h.addAll headers origin

/-- After any calls the store holds what all their supplies make of it. -/
theorem records_after (calls : List Call) :
    Records (after calls) (calls.flatMap Call.supplies) := by
  suffices h : ∀ (s : HeaderStore) (history : List Supply), Records s history →
      Records (calls.foldl Call.perform s) (history ++ calls.flatMap Call.supplies) from
    h ∅ [] records_empty
  induction calls with
  | nil => intro s history h; simpa using h
  | cons call calls ih =>
    intro s history h
    have hrest := ih _ _ (h.perform call)
    rwa [List.append_assoc, ← List.flatMap_cons] at hrest

/-! ## Two tables -/

/-- A store in two tables. -/
structure TwoTables where
  headers : Table Text Header
  origins : Table Text Text

/-- A store with its headers and its labels apart. -/
def apart (s : HeaderStore) : TwoTables :=
  ⟨s.mapValues fun _ k => k.header, s.mapValues fun _ k => k.origin⟩

namespace TwoTables

/-- Supplies a header, and says whether the name was new. Only the table of headers is asked. -/
def add (p : TwoTables) (x : Supply) : TwoTables × Bool :=
  if p.headers.contains x.name then (p, false)
  else (⟨p.headers.insert x.name x.header, p.origins.insert x.name x.origin⟩, true)

/-- Supplies one of many headers, and counts it if its name is new. -/
def addCounting (origin : Text) (acc : TwoTables × Nat) (e : Text × Header) : TwoTables × Nat :=
  let (p, isNew) := acc.1.add ⟨e.1, e.2, origin⟩
  (p, if isNew then acc.2 + 1 else acc.2)

/-- Supplies headers one after another, and counts the new names. -/
def addAll (p : TwoTables) (headers : List (Text × Header)) (origin : Text) : TwoTables × Nat :=
  headers.foldl (addCounting origin) (p, 0)

def perform (p : TwoTables) : Call → TwoTables
  | .add x => (p.add x).1
  | .addAll headers origin => (p.addAll headers origin).1

def after (calls : List Call) : TwoTables := calls.foldl perform ⟨∅, ∅⟩

theorem add_apart (s : HeaderStore) (x : Supply) : s.apart.add x =
    ((s.add x.name x.header x.origin).1.apart, (s.add x.name x.header x.origin).2) := by
  have hcontains : s.apart.headers.contains x.name = s.contains x.name := by
    rw [Bool.eq_iff_iff, Table.contains_iff, Table.contains_iff]
    exact iff_of_eq (congrArg (x.name ∈ ·) (Table.keys_mapValues _ s))
  rw [add, HeaderStore.add, Table.insertNew, hcontains]
  cases s.contains x.name with
  | true => rfl
  | false => simp [apart, Table.mapValues_insert]

theorem addCounting_apart (origin : Text) (acc : HeaderStore × Nat) (e : Text × Header) :
    addCounting origin (acc.1.apart, acc.2) e =
      ((HeaderStore.addCounting origin acc e).1.apart,
        (HeaderStore.addCounting origin acc e).2) := by
  rw [addCounting, add_apart]
  rfl

theorem addAll_apart (s : HeaderStore) (headers : List (Text × Header)) (origin : Text) :
    s.apart.addAll headers origin =
      ((s.addAll headers origin).1.apart, (s.addAll headers origin).2) := by
  suffices h : ∀ acc : HeaderStore × Nat,
      headers.foldl (addCounting origin) (acc.1.apart, acc.2) =
        ((headers.foldl (HeaderStore.addCounting origin) acc).1.apart,
          (headers.foldl (HeaderStore.addCounting origin) acc).2) from h (s, 0)
  induction headers with
  | nil => exact fun _ => rfl
  | cons e headers ih =>
    intro acc
    rw [List.foldl_cons, List.foldl_cons, addCounting_apart]
    exact ih _

/-- The two tables stay in step. -/
theorem after_eq (calls : List Call) : after calls = (HeaderStore.after calls).apart := by
  suffices h : ∀ s : HeaderStore,
      calls.foldl perform s.apart = (calls.foldl Call.perform s).apart from h ∅
  induction calls with
  | nil => exact fun _ => rfl
  | cons call calls ih =>
    intro s
    have hstep : s.apart.perform call = (call.perform s).apart := by
      cases call with
      | add x => exact congrArg Prod.fst (add_apart s x)
      | addAll headers origin => exact congrArg Prod.fst (addAll_apart s headers origin)
    rw [List.foldl_cons, List.foldl_cons, hstep, ih]

theorem keys_origins (s : HeaderStore) : s.apart.origins.keys = s.apart.headers.keys :=
  (Table.keys_mapValues _ s).trans (Table.keys_mapValues _ s).symm

end TwoTables

/-! ## What a store can be asked for -/

/-- What a store answers where the first supply of a name counts. -/
structure FirstCounts (s : HeaderStore) (history : List Supply) : Prop where
  header? : ∀ name, s.header? name = (first? name history).map Supply.header
  origin? : ∀ name, s.origin? name = (first? name history).map Supply.origin
  contains : ∀ name, s.contains name = true ↔ name ∈ history.map Supply.name
  /-- Each name is listed once, in the order of the first supplies. -/
  names : s.items.map Prod.fst = (history.map Supply.name).eraseDups
  headers : ∀ e ∈ s.items, (first? e.1 history).map Supply.header = some e.2
  /-- The size is the number of different names. -/
  size : s.size = (history.map Supply.name).toFinset.card
  /-- A label is known of each name that is listed, and of no other. -/
  labelled : ∀ name, (s.origin? name).isSome = true ↔ name ∈ s.items.map Prod.fst
  /-- A single supply is reported as new exactly if it is the first one of its name. -/
  isNew : ∀ x : Supply,
    (s.add x.name x.header x.origin).2 = true ↔ x.name ∉ history.map Supply.name
  /-- Many supplies are reported by how many names the store has more than before. -/
  growth : ∀ headers origin,
    (s.addAll headers origin).1.size = s.size + (s.addAll headers origin).2

theorem map_fst_items (s : HeaderStore) : s.items.map Prod.fst = s.keys := by
  rw [items, List.map_map]
  rfl

theorem Records.size_eq (h : Records s history) :
    s.size = (history.map Supply.name).toFinset.card := by
  have hnodup : s.keys.Nodup := s.nodup
  have hset : (history.map Supply.name).toFinset = s.keys.toFinset := by
    ext name
    rw [List.mem_toFinset, List.mem_toFinset, h.keys, List.mem_eraseDups]
  rw [hset, List.toFinset_card_of_nodup hnodup]
  exact (List.length_map _).symm

theorem Records.firstCounts (h : Records s history) : FirstCounts s history where
  header? name := by
    rw [HeaderStore.header?, h.get?, Option.map_map]
    rfl
  origin? name := by
    rw [HeaderStore.origin?, h.get?, Option.map_map]
    rfl
  contains name := h.contains_iff
  names := (map_fst_items s).trans h.keys
  headers e he := by
    obtain ⟨⟨name, known⟩, hknown, rfl⟩ := List.mem_map.1 he
    have hget := (h.get? name).symm.trans (Table.mem_entries_iff.1 hknown)
    obtain ⟨x, hx, rfl⟩ := Option.map_eq_some_iff.1 hget
    exact congrArg (Option.map Supply.header) hx
  size := h.size_eq
  labelled name := by
    rw [map_fst_items, ← Table.contains_iff, HeaderStore.origin?, Option.isSome_map]
    rfl
  isNew x := by
    rw [← h.contains_iff, Bool.not_eq_true, HeaderStore.add, Bool.not_eq_true']
  growth headers origin := size_addAll s headers origin

/-- After any calls the first supply of a name counts, in all that the store can be asked for. A
store in two tables holds the same and reports the same, and its tables have the same names. -/
theorem firstCounts_after (calls : List Call) :
    FirstCounts (after calls) (calls.flatMap Call.supplies) ∧
      TwoTables.after calls = (after calls).apart ∧
      (TwoTables.after calls).origins.keys = (TwoTables.after calls).headers.keys ∧
      (∀ x, ((TwoTables.after calls).add x).2 =
        ((after calls).add x.name x.header x.origin).2) ∧
      ∀ headers origin, ((TwoTables.after calls).addAll headers origin).2 =
        ((after calls).addAll headers origin).2 := by
  rw [TwoTables.after_eq]
  refine ⟨(records_after calls).firstCounts, rfl, TwoTables.keys_origins _, fun x => ?_,
    fun headers origin => ?_⟩
  · rw [TwoTables.add_apart]
  · rw [TwoTables.addAll_apart]

/-- The second of three supplies repeats the name of the first and is dropped. -/
example : (after [.addAll [("a/B", ⟨33, none⟩), ("a/B", ⟨1, none⟩)] "target",
      .add ⟨"a/C", ⟨33, some "a/B"⟩, "lib.jar"⟩]).items =
    ([("a/B", ⟨33, none⟩), ("a/C", ⟨33, some "a/B"⟩)] : List (Text × Header)) := by decide

end HeaderStore

end SubclassIndex
