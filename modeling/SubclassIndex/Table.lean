/-!
# Tables

A table maps keys to values and remembers the order in which its keys were first inserted. A key
occurs once; inserting it again changes its value and leaves it in its place.
-/

namespace SubclassIndex

/-- A finite map whose entries keep the order of insertion. -/
structure Table (κ υ : Type) where
  entries : List (κ × υ)
  nodup : (entries.map Prod.fst).Nodup

namespace Table

variable {κ υ : Type}

instance [DecidableEq κ] [DecidableEq υ] : DecidableEq (Table κ υ) := fun a b =>
  decidable_of_iff (a.entries = b.entries) ⟨fun h => by cases a; cases b; cases h; rfl, congrArg _⟩

@[ext] theorem ext {a b : Table κ υ} (h : a.entries = b.entries) : a = b := by
  cases a; cases b; cases h; rfl

/-- The table without entries. -/
def empty : Table κ υ := ⟨[], .nil⟩

instance : EmptyCollection (Table κ υ) := ⟨empty⟩

instance : Inhabited (Table κ υ) := ⟨empty⟩

@[simp] theorem entries_empty : (empty : Table κ υ).entries = [] := rfl

/-- The keys in the order of their first insertion. -/
def keys (t : Table κ υ) : List κ := t.entries.map Prod.fst

/-- The number of keys. -/
def size (t : Table κ υ) : Nat := t.entries.length

/-- Whether the table has no entry. -/
def isEmpty (t : Table κ υ) : Bool := t.entries.isEmpty

section
variable [DecidableEq κ]

/-- The value of the first entry with a key. -/
def lookup (k : κ) : List (κ × υ) → Option υ
  | [] => none
  | e :: rest => if e.1 = k then some e.2 else lookup k rest

/-- The entries with the value of a key changed, or with a new entry at the end. -/
def put (k : κ) (v : υ) : List (κ × υ) → List (κ × υ)
  | [] => [(k, v)]
  | e :: rest => if e.1 = k then (k, v) :: rest else e :: put k v rest

theorem lookup_eq_none {k : κ} {es : List (κ × υ)} :
    lookup k es = none ↔ k ∉ es.map Prod.fst := by
  induction es with
  | nil => simp [lookup]
  | cons e rest ih =>
    by_cases h : e.1 = k
    · simp [lookup, h]
    · simp [lookup, h, ih, Ne.symm h]

theorem lookup_put (k k' : κ) (v : υ) (es : List (κ × υ)) :
    lookup k' (put k v es) = if k = k' then some v else lookup k' es := by
  induction es with
  | nil => simp [put, lookup]
  | cons e rest ih =>
    by_cases h : e.1 = k
    · subst h; by_cases h' : e.1 = k' <;> simp [put, lookup, h']
    · by_cases h' : e.1 = k'
      · have : k ≠ k' := fun hk => h (h'.trans hk.symm)
        simp [put, lookup, h', this, Ne.symm this]
      · simp [put, lookup, h, h', ih]

theorem keys_put (k : κ) (v : υ) (es : List (κ × υ)) :
    (put k v es).map Prod.fst =
      if k ∈ es.map Prod.fst then es.map Prod.fst else es.map Prod.fst ++ [k] := by
  induction es with
  | nil => simp [put]
  | cons e rest ih =>
    by_cases h : e.1 = k
    · simp [put, h]
    · by_cases h' : k ∈ rest.map Prod.fst
      · simp [put, h, ih, h', Ne.symm h]
      · simp [put, h, ih, h', Ne.symm h]

theorem nodup_put {k : κ} {v : υ} {es : List (κ × υ)} (h : (es.map Prod.fst).Nodup) :
    ((put k v es).map Prod.fst).Nodup := by
  rw [keys_put]
  split
  · exact h
  · next hk =>
    refine List.nodup_append.2 ⟨h, by simp, fun a ha b hb => ?_⟩
    rw [List.mem_singleton.1 hb]
    exact fun e => hk (e ▸ ha)

/-- The value of a key. -/
def get? (t : Table κ υ) (k : κ) : Option υ := lookup k t.entries

/-- Whether a key has a value. -/
def contains (t : Table κ υ) (k : κ) : Bool := (t.get? k).isSome

/-- Gives a key a value, in its old place if it had one. -/
def insert (t : Table κ υ) (k : κ) (v : υ) : Table κ υ := ⟨put k v t.entries, nodup_put t.nodup⟩

/-- Gives a key a value unless it has one. -/
def insertNew (t : Table κ υ) (k : κ) (v : υ) : Table κ υ :=
  if t.contains k then t else t.insert k v

@[simp] theorem get?_empty (k : κ) : (empty : Table κ υ).get? k = none := rfl

theorem get?_insert (t : Table κ υ) (k k' : κ) (v : υ) :
    (t.insert k v).get? k' = if k = k' then some v else t.get? k' := lookup_put k k' v t.entries

theorem get?_insertNew (t : Table κ υ) (k k' : κ) (v : υ) :
    (t.insertNew k v).get? k' = if k = k' then some ((t.get? k).getD v) else t.get? k' := by
  unfold insertNew contains
  cases h : t.get? k with
  | none => simp [get?_insert]
  | some w =>
    by_cases h' : k = k'
    · subst h'; simp [h]
    · simp [h']

theorem keys_insert (t : Table κ υ) (k : κ) (v : υ) :
    (t.insert k v).keys = if k ∈ t.keys then t.keys else t.keys ++ [k] := keys_put k v t.entries

/-- The table of some entries; of equal keys the first gives the place and the last the value. -/
def ofList (es : List (κ × υ)) : Table κ υ := es.foldl (fun t e => t.insert e.1 e.2) empty

end

/-- The entries that pass a test, in their order. -/
def filter (p : κ → υ → Bool) (t : Table κ υ) : Table κ υ :=
  ⟨t.entries.filter fun e => p e.1 e.2, t.nodup.sublist (List.filter_sublist.map _)⟩

/-- The table with every value changed. -/
def mapValues {υ' : Type} (f : κ → υ → υ') (t : Table κ υ) : Table κ υ' :=
  ⟨t.entries.map fun e => (e.1, f e.1 e.2), by
    have : (t.entries.map fun e => (e.1, f e.1 e.2)).map Prod.fst = t.entries.map Prod.fst := by
      simp
    exact this ▸ t.nodup⟩

end Table

end SubclassIndex
