import SubclassIndex.Proofs.PairLemmas
import SubclassIndex.Proofs.Properties.FormatLines
import SubclassIndex.Proofs.Properties.FormatSigns
import SubclassIndex.Proofs.TableLemmas

/-!
# The reader and the format

By its own conventions the reader finds what the format says, in units. It ends lines at more code
points than the format does, keeps a logical line of which nothing is kept where it goes on, and
leaves the halves of a code point apart, and these are the only differences
(`Properties.read_format`).
-/

namespace SubclassIndex.Properties

variable {t key value : Text} {es : List (Text × Text)}

namespace Format

theorem value?_eq_lookup (es : List (Text × Text)) (key : Text) :
    value? es key = Table.lookup key es.reverse := by
  rw [value?]
  generalize es.reverse = es
  induction es with
  | nil => rfl
  | cons e es ih =>
    rw [List.find?_cons, Table.lookup, ← ih]
    by_cases hk : e.1 = key <;> simp [hk]

theorem entries_of_load? (h : load? Conventions.ofReader t = some es) : entries t = es := by
  rw [load?, lines_eq_logicalLines] at h
  rw [entries]
  generalize logicalLines t.lines = lines at h
  induction lines generalizing es with
  | nil => cases h; rfl
  | cons line lines ih =>
    rw [List.mapM_cons] at h
    obtain ⟨e, he, h⟩ := Option.bind_eq_some_iff.1 h
    obtain ⟨es', hes, h⟩ := Option.bind_eq_some_iff.1 h
    cases h
    rw [List.map_cons, entryOf_of_entry? he, ih hes]

theorem get?_read (h : load? Conventions.ofReader t = some es) (key : Text) :
    (read t).get? key = value? es key := by
  rw [read, entries_of_load? h, Table.get?_ofList, value?_eq_lookup]

/-! ## Joined entries -/

/-- Keys and values without two halves of a code point that stand together. -/
def IsJoined (es : List (Text × Text)) : Prop :=
  ∀ key value, value? es key = some value → key.joinPairs = key ∧ value.joinPairs = value

theorem value?_isSome_iff : (value? es key).isSome = true ↔ ∃ e ∈ es, e.1 = key := by
  simp [value?, List.find?_isSome]

theorem value?_joined (h : ∀ e ∈ es, e.1.joinPairs = e.1) (key : Text) :
    value? (joined es) key = (value? es key).map Text.joinPairs := by
  rw [value?_eq_lookup, value?_eq_lookup, joined, ← List.map_reverse]
  replace h : ∀ e ∈ es.reverse, e.1.joinPairs = e.1 := fun e he => h e (List.mem_reverse.1 he)
  generalize es.reverse = es at h
  induction es with
  | nil => rfl
  | cons e es ih =>
    obtain ⟨he, hes⟩ := List.forall_mem_cons.1 h
    rw [List.map_cons, Table.lookup, Table.lookup, ih hes, he]
    by_cases hk : e.1 = key <;> simp [hk]

theorem isJoined_joined (es : List (Text × Text)) : IsJoined (joined es) := by
  intro key value h
  rw [value?_eq_lookup] at h
  have hmem := List.mem_reverse.1 (Table.mem_of_lookup h)
  obtain ⟨e, -, he⟩ := List.mem_map.1 hmem
  cases he
  exact ⟨Text.joinPairs_joinPairs _, Text.joinPairs_joinPairs _⟩

/-- Entries have the values of the joined ones if there is nothing to be joined. -/
theorem value?_eq_joined_iff (es : List (Text × Text)) :
    (∀ key, value? es key = value? (joined es) key) ↔ IsJoined es := by
  constructor
  · intro h key value hvalue
    exact isJoined_joined es key value ((h key).symm.trans hvalue)
  · intro h key
    have hkeys : ∀ e ∈ es, e.1.joinPairs = e.1 := by
      intro e he
      obtain ⟨value, hvalue⟩ := Option.isSome_iff_exists.1 (value?_isSome_iff.2 ⟨e, he, rfl⟩)
      exact (h e.1 value hvalue).1
    rw [value?_joined hkeys]
    cases hvalue : value? es key with
    | none => rfl
    | some value => rw [Option.map_some, (h key value hvalue).2]

end Format

open Format

theorem Format.isLineEnd_of_isTerminator {c : CodePoint} (h : isTerminator c = true) :
    c.isLineEnd = true := by
  rcases (Bool.or_eq_true _ _).mp h with hfeed | hreturn
  · rw [of_decide_eq_true hfeed]; rfl
  · rw [of_decide_eq_true hreturn]; rfl

/-- The reader and the format. Where each unit has its digits, the reader gives each key the value
that the format gives it by the conventions of the reader, in units. Where both conventions make the
same logical lines, it gives each key the value of the format if and only if no halves of a code
point stand together in a key or a value. They do so where only line feeds and carriage returns end
lines and no line is a mere backslash. -/
theorem read_format (t : Text) :
    (∀ es, load? Conventions.ofReader t = some es →
      ∀ key, (read t).get? key = value? es key) ∧
    (∀ es, Format.lines Conventions.ofReader t = Format.lines conventions t →
      load? conventions t = some es →
      ((∀ key, (read t).get? key = value? (joined es) key) ↔
        ∀ key value, (read t).get? key = some value →
          key.joinPairs = key ∧ value.joinPairs = value)) ∧
    ((∀ c ∈ t, c.isLineEnd = true → isTerminator c = true) →
      (∀ natural ∈ t.lines, natural.dropWhile isSpace ≠ [CodePoint.ofChar '\\']) →
      Format.lines Conventions.ofReader t = Format.lines conventions t) := by
  refine ⟨fun es hload => get?_read hload, fun es hlines hload => ?_, fun hends hbare => ?_⟩
  · rw [load?, ← hlines] at hload
    simp only [get?_read hload]
    exact value?_eq_joined_iff es
  · refine lines_ofReader (fun c hc => ?_) hbare
    rw [Bool.eq_iff_iff]
    exact ⟨hends c hc, isLineEnd_of_isTerminator⟩

/-- A comment, an escaped equals sign, a line that goes on and a unit by its digits. -/
def continuedText : Text := "# c\na\\=b \\\r\n  : x\\u0041y"

def continuedEntries : List (Text × Text) := [("a=b", "xAy")]

theorem read_format_continuedText :
    Format.lines Conventions.ofReader continuedText = Format.lines conventions continuedText ∧
      load? conventions continuedText = some continuedEntries ∧
      ∀ key, (read continuedText).get? key = value? (joined continuedEntries) key := by
  obtain ⟨-, hvalues, hagree⟩ := read_format continuedText
  have hlines : Format.lines Conventions.ofReader continuedText =
      Format.lines conventions continuedText := hagree (by decide +kernel) (by decide +kernel)
  have hload : load? conventions continuedText = some continuedEntries := by decide +kernel
  refine ⟨hlines, hload, (hvalues _ hlines hload).2 fun key value hvalue => ?_⟩
  have hentries : (read continuedText).entries = continuedEntries := by decide +kernel
  have hmem := Table.mem_entries_iff.2 hvalue
  rw [hentries, continuedEntries, List.mem_singleton] at hmem
  cases hmem
  decide +kernel

/-- The two halves of U+1F600. -/
def pairedHalves : Text := [⟨0xD83D, by decide⟩, ⟨0xDE00, by decide⟩]

/-- The reader ends a line at a form feed, which for the format is white space, it makes an entry of
a mere backslash before a blank line, and it leaves apart the halves of a code point. -/
theorem read_departs_from_format :
    (load? conventions "a.B\x0ca.C" = some ([("a.B", "a.C")] : List (Text × Text)) ∧
      (read "a.B\x0ca.C").get? "a.B" ≠ value? (joined [("a.B", "a.C")]) "a.B") ∧
    (load? conventions "\\\n\na.B=a.C" = some ([("a.B", "a.C")] : List (Text × Text)) ∧
      (read "\\\n\na.B=a.C").get? [] ≠ value? (joined [("a.B", "a.C")]) []) ∧
    load? conventions "a.B=\\uD83D\\uDE00" =
        some ([("a.B", pairedHalves)] : List (Text × Text)) ∧
      (read "a.B=\\uD83D\\uDE00").get? "a.B" ≠
        value? (joined [("a.B", pairedHalves)]) "a.B" := by
  decide +kernel

end SubclassIndex.Properties
