import SubclassIndex.Table

/-!
# Lookups in tables

What a lookup finds after many insertions, and when an insertion changes nothing. A table is read
through `Table.get?`: `Table.mem_entries_iff` ties the entries to it, so that no proof elsewhere
has to open the list of entries. The table of entries that are written after others overrides theirs
(`Table.ofList_append`).
-/

namespace SubclassIndex.Table

variable {κ υ : Type} [DecidableEq κ]

theorem lookup_append (k : κ) (es es' : List (κ × υ)) :
    lookup k (es ++ es') = (lookup k es).or (lookup k es') := by
  induction es with
  | nil => rfl
  | cons e es ih =>
    by_cases h : e.1 = k
    · simp [lookup, h]
    · simp [lookup, h, ih]

theorem mem_of_lookup {k : κ} {v : υ} {es : List (κ × υ)} (h : lookup k es = some v) :
    (k, v) ∈ es := by
  induction es with
  | nil => cases h
  | cons e es ih =>
    unfold lookup at h
    split at h
    · next hk =>
      cases h
      exact hk ▸ List.mem_cons_self
    · exact List.mem_cons_of_mem _ (ih h)

theorem lookup_of_mem {k : κ} {v : υ} {es : List (κ × υ)} (hd : (es.map Prod.fst).Nodup)
    (h : (k, v) ∈ es) : lookup k es = some v := by
  induction es with
  | nil => cases h
  | cons e es ih =>
    obtain ⟨hnew, hd⟩ := List.nodup_cons.1 hd
    rcases List.mem_cons.1 h with rfl | h
    · simp [lookup]
    · have hk : e.1 ≠ k := fun hk => hnew (List.mem_map.2 ⟨_, h, hk.symm⟩)
      rw [lookup, if_neg hk]
      exact ih hd h

theorem put_of_lookup {k : κ} {v : υ} {es : List (κ × υ)} (h : lookup k es = some v) :
    put k v es = es := by
  induction es with
  | nil => cases h
  | cons e es ih =>
    unfold lookup at h
    unfold put
    split at h
    · next hk =>
      cases h
      rw [if_pos hk, ← hk]
    · next hk => rw [if_neg hk, ih h]

theorem put_of_not_mem {k : κ} {v : υ} {es : List (κ × υ)} (h : k ∉ es.map Prod.fst) :
    put k v es = es ++ [(k, v)] := by
  induction es with
  | nil => rfl
  | cons e es ih =>
    obtain ⟨hk, hes⟩ := List.ne_and_not_mem_of_not_mem_cons h
    rw [put, if_neg (Ne.symm hk), ih hes, List.cons_append]

/-- The entries of a table are what its keys lead to. -/
theorem mem_entries_iff {t : Table κ υ} {k : κ} {v : υ} :
    (k, v) ∈ t.entries ↔ t.get? k = some v :=
  ⟨lookup_of_mem t.nodup, mem_of_lookup⟩

theorem entries_of_keys_eq_singleton {t : Table κ υ} {k : κ} {v : υ} (hk : t.keys = [k])
    (h : t.get? k = some v) : t.entries = [(k, v)] := by
  obtain ⟨e, he, -⟩ := List.map_eq_singleton_iff.1 hk
  have hmem : (k, v) ∈ t.entries := mem_entries_iff.2 h
  rw [he] at hmem ⊢
  rw [List.mem_singleton.1 hmem]

theorem insert_eq_self {t : Table κ υ} {k : κ} {v : υ} (h : t.get? k = some v) :
    t.insert k v = t :=
  ext (put_of_lookup h)

theorem contains_iff {t : Table κ υ} {k : κ} : t.contains k = true ↔ k ∈ t.keys := by
  rw [contains, get?, ← Decidable.not_iff_not, Option.not_isSome_iff_eq_none, lookup_eq_none]
  rfl

theorem keys_insertNew (t : Table κ υ) (k : κ) (v : υ) :
    (t.insertNew k v).keys = if k ∈ t.keys then t.keys else t.keys ++ [k] := by
  rw [insertNew]
  split
  · next hk => rw [if_pos (contains_iff.1 hk)]
  · exact keys_insert t k v

theorem size_insertNew (t : Table κ υ) (k : κ) (v : υ) :
    (t.insertNew k v).size = if t.contains k then t.size else t.size + 1 := by
  have hsize (t : Table κ υ) : t.size = t.keys.length := (List.length_map _).symm
  rw [hsize, hsize, keys_insertNew]
  simp only [contains_iff]
  split
  · rfl
  · exact List.length_append

theorem get?_filter (t : Table κ υ) (p : κ → υ → Bool) (k : κ) :
    (t.filter p).get? k = (t.get? k).filter (p k) := by
  apply Option.ext
  intro v
  rw [← mem_entries_iff, Option.filter_eq_some_iff, ← mem_entries_iff]
  exact List.mem_filter

theorem get?_mapValues {υ' : Type} (f : κ → υ → υ') (t : Table κ υ) (k : κ) :
    (t.mapValues f).get? k = (t.get? k).map (f k) := by
  change lookup k (t.entries.map fun e => (e.1, f e.1 e.2)) = (lookup k t.entries).map (f k)
  generalize t.entries = es
  induction es with
  | nil => rfl
  | cons e es ih =>
    rw [List.map_cons, lookup, lookup, ih]
    split
    · next hk => rw [← hk]; rfl
    · rfl

omit [DecidableEq κ] in
theorem keys_mapValues {υ' : Type} (f : κ → υ → υ') (t : Table κ υ) :
    (t.mapValues f).keys = t.keys := by
  rw [keys, mapValues, List.map_map]
  rfl

theorem mapValues_insert {υ' : Type} (f : κ → υ → υ') (t : Table κ υ) (k : κ) (v : υ) :
    (t.insert k v).mapValues f = (t.mapValues f).insert k (f k v) := by
  apply ext
  change (put k v t.entries).map _ = put k (f k v) (t.entries.map _)
  generalize t.entries = es
  induction es with
  | nil => rfl
  | cons e es ih =>
    rw [put, List.map_cons, put]
    split
    · rfl
    · rw [List.map_cons, ih]

/-! ## Many insertions -/

theorem get?_foldl_insertNew {α : Type} (key : α → κ) (value : α → υ) (as : List α)
    (t : Table κ υ) (k : κ) :
    (as.foldl (fun t a => t.insertNew (key a) (value a)) t).get? k =
      (t.get? k).or (lookup k (as.map fun a => (key a, value a))) := by
  induction as generalizing t with
  | nil => simp [lookup]
  | cons a as ih =>
    rw [List.foldl_cons, ih, get?_insertNew, List.map_cons, lookup]
    by_cases h : key a = k
    · subst h; cases t.get? (key a) <;> simp
    · simp [h]

/-- A table into which a function is written, key by key, holds it at these keys. -/
theorem get?_foldl_insert (f : κ → υ) (ks : List κ) (t : Table κ υ) (k : κ) :
    (ks.foldl (fun t k => t.insert k (f k)) t).get? k =
      if k ∈ ks then some (f k) else t.get? k := by
  induction ks generalizing t with
  | nil => simp
  | cons k' ks ih =>
    rw [List.foldl_cons, ih, get?_insert]
    by_cases hk : k' = k
    · subst hk; simp
    · by_cases hks : k ∈ ks <;> simp [hk, Ne.symm hk, hks]

/-- New keys are appended in their order. -/
theorem keys_foldl_insert (f : κ → υ) (ks : List κ) (t : Table κ υ) (hd : ks.Nodup)
    (hnew : ∀ k ∈ ks, k ∉ t.keys) :
    (ks.foldl (fun t k => t.insert k (f k)) t).keys = t.keys ++ ks := by
  induction ks generalizing t with
  | nil => simp
  | cons k ks ih =>
    obtain ⟨hk, hd⟩ := List.nodup_cons.1 hd
    have hkeys : (t.insert k (f k)).keys = t.keys ++ [k] := by
      rw [keys_insert, if_neg (hnew k List.mem_cons_self)]
    have hrest : ∀ k' ∈ ks, k' ∉ (t.insert k (f k)).keys := by
      intro k' hk' hmem
      rw [hkeys, List.mem_append, List.mem_singleton] at hmem
      rcases hmem with hmem | rfl
      · exact hnew k' (List.mem_cons_of_mem _ hk') hmem
      · exact hk hk'
    rw [List.foldl_cons, ih _ hd hrest, hkeys, List.append_assoc, List.singleton_append]

/-- Entries with different keys are the entries of their table. -/
theorem entries_ofList {es : List (κ × υ)} (hd : (es.map Prod.fst).Nodup) :
    (ofList es).entries = es := by
  suffices h : ∀ t : Table κ υ, (∀ k ∈ es.map Prod.fst, k ∉ t.keys) →
      (es.foldl (fun t e => t.insert e.1 e.2) t).entries = t.entries ++ es from
    h empty fun _ _ hk => List.not_mem_nil hk
  induction es with
  | nil => exact fun t _ => (List.append_nil _).symm
  | cons e es ih =>
    intro t hnew
    obtain ⟨he, hd⟩ := List.nodup_cons.1 hd
    have hentries : (t.insert e.1 e.2).entries = t.entries ++ [e] :=
      put_of_not_mem (hnew e.1 List.mem_cons_self)
    rw [List.foldl_cons, ih hd, hentries, List.append_assoc, List.singleton_append]
    intro k hk hmem
    rw [keys, hentries, List.map_append, List.mem_append] at hmem
    rcases hmem with hmem | hmem
    · exact hnew k (List.mem_cons_of_mem _ hk) hmem
    · exact he (List.mem_singleton.1 hmem ▸ hk)

/-- Of several entries with a key the last one gives the value. -/
theorem get?_ofList (es : List (κ × υ)) (k : κ) : (ofList es).get? k = lookup k es.reverse := by
  suffices h : ∀ t : Table κ υ, (es.foldl (fun t e => t.insert e.1 e.2) t).get? k =
      (lookup k es.reverse).or (t.get? k) from (h empty).trans (Option.or_none)
  induction es with
  | nil => exact fun t => rfl
  | cons e es ih =>
    intro t
    rw [List.foldl_cons, ih, get?_insert, List.reverse_cons, lookup_append, Option.or_assoc]
    by_cases hk : e.1 = k <;> simp [lookup, hk]

theorem mem_of_mem_ofList {es : List (κ × υ)} {e : κ × υ} (h : e ∈ (ofList es).entries) :
    e ∈ es := by
  suffices hgo : ∀ t : Table κ υ, e ∈ (es.foldl (fun t e => t.insert e.1 e.2) t).entries →
      e ∈ t.entries ∨ e ∈ es from (hgo empty h).resolve_left List.not_mem_nil
  clear h
  induction es with
  | nil => exact fun t h => .inl h
  | cons e' es ih =>
    intro t h
    rcases ih (t.insert e'.1 e'.2) h with h | h
    · have hget := mem_entries_iff.1 h
      rw [get?_insert] at hget
      split at hget
      · next hk =>
        rw [Prod.ext hk (Option.some.inj hget)]
        exact .inr List.mem_cons_self
      · exact .inl (mem_entries_iff.2 hget)
    · exact .inr (List.mem_cons_of_mem _ h)

/-- Tables with the same keys in the same order and the same values are equal. -/
theorem ext_get? {t t' : Table κ υ} (hk : t.keys = t'.keys)
    (hv : ∀ k ∈ t.keys, t.get? k = t'.get? k) : t = t' := by
  apply ext
  have hlen : t.entries.length = t'.entries.length := by
    simpa [keys] using congrArg List.length hk
  refine List.ext_getElem hlen fun i h h' => ?_
  have hfst : (t.entries[i]).1 = (t'.entries[i]).1 := by
    have hi : t.keys[i]? = t'.keys[i]? := by rw [hk]
    simpa [keys, h, h'] using hi
  have hmem : (t.entries[i].1, t.entries[i].2) ∈ t.entries := List.getElem_mem h
  have hmem' : (t.entries[i].1, t'.entries[i].2) ∈ t'.entries := hfst ▸ List.getElem_mem h'
  have hsnd := hv _ (List.mem_map.2 ⟨_, hmem, rfl⟩)
  rw [mem_entries_iff.1 hmem, mem_entries_iff.1 hmem', Option.some.injEq] at hsnd
  exact Prod.ext hfst hsnd

/-! ## One table over another -/

/-- A table with the values that another one has for its keys, and after it the entries of the other
one that have new keys. -/
def overriddenBy (t t' : Table κ υ) : Table κ υ where
  entries := (t.mapValues fun k v => (t'.get? k).getD v).entries ++
    (t'.filter fun k _ => !t.contains k).entries
  nodup := by
    rw [List.map_append]
    refine List.nodup_append.2 ⟨(t.mapValues _).nodup, (t'.filter _).nodup, ?_⟩
    rintro k hk _ hk' rfl
    obtain ⟨e, he, rfl⟩ := List.mem_map.1 hk'
    have hnew : t.contains e.1 = false := by simpa using (List.mem_filter.1 he).2
    have hold : e.1 ∈ t.keys := keys_mapValues _ t ▸ hk
    rw [contains_iff.2 hold] at hnew
    cases hnew

omit [DecidableEq κ] in
theorem keys_filter (p : κ → Bool) (t : Table κ υ) :
    (t.filter fun k _ => p k).keys = t.keys.filter p :=
  List.filter_map.symm

theorem keys_overriddenBy (t t' : Table κ υ) :
    (t.overriddenBy t').keys = t.keys ++ t'.keys.filter fun k => !t.contains k := by
  rw [← keys_filter, ← keys_mapValues (fun k v => (t'.get? k).getD v) t]
  exact List.map_append

theorem get?_overriddenBy (t t' : Table κ υ) (k : κ) :
    (t.overriddenBy t').get? k = (t'.get? k).or (t.get? k) := by
  have happend : (t.overriddenBy t').get? k = ((t.mapValues fun k v => (t'.get? k).getD v).get? k).or
      ((t'.filter fun k _ => !t.contains k).get? k) := lookup_append k _ _
  rw [happend, get?_mapValues, get?_filter, contains]
  cases t.get? k <;> cases t'.get? k <;> rfl

theorem overriddenBy_empty (t : Table κ υ) : t.overriddenBy empty = t := by
  refine ext_get? ?_ fun k _ => ?_
  · rw [keys_overriddenBy]
    exact List.append_nil _
  · rw [get?_overriddenBy, get?_empty, Option.none_or]

theorem overriddenBy_insert (t t' : Table κ υ) (k : κ) (v : υ) :
    t.overriddenBy (t'.insert k v) = (t.overriddenBy t').insert k v := by
  refine ext_get? ?_ fun k' _ => ?_
  · rw [keys_insert, keys_overriddenBy, keys_overriddenBy, keys_insert]
    -- the key is new to both tables, or it stands in one of them already
    by_cases hk : k ∈ t.keys <;> by_cases hk' : k ∈ t'.keys <;>
      simp [hk, hk', contains_iff, ← Bool.not_eq_true]
  · rw [get?_insert, get?_overriddenBy, get?_overriddenBy, get?_insert]
    split <;> rfl

/-- Entries that are written after others override them. -/
theorem ofList_append (es es' : List (κ × υ)) :
    ofList (es ++ es') = (ofList es).overriddenBy (ofList es') := by
  suffices h : ∀ t t' : Table κ υ, es'.foldl (fun t e => t.insert e.1 e.2) (t.overriddenBy t') =
      t.overriddenBy (es'.foldl (fun t e => t.insert e.1 e.2) t') by
    have hempty := h (ofList es) empty
    rw [overriddenBy_empty] at hempty
    rw [ofList, List.foldl_append]
    exact hempty
  intro t
  induction es' with
  | nil => exact fun t' => rfl
  | cons e es' ih =>
    intro t'
    rw [List.foldl_cons, List.foldl_cons, ← overriddenBy_insert]
    exact ih _

end SubclassIndex.Table
