import SubclassIndex.Settings.Load

/-!
# Accepted settings

What is known of settings that pass their check (`Settings.fault?_eq_none_iff`), and why loaded ones
do: where there is no document the defaults stand, and the settings of a document are checked before
their archives are taken (`Settings.Loaded.accepted`).
-/

namespace SubclassIndex

open Document

variable {s s' : Settings} {d : Disk} {p : Path} {file : Text} {g : Graph}

theorem exists_of_bind_eq_ok {ε α β : Type} {x : Except ε α} {f : α → Except ε β} {b : β}
    (h : x >>= f = .ok b) : ∃ a, x = .ok a ∧ f a = .ok b := by
  cases x with
  | error e => cases h
  | ok a => exact ⟨a, rfl, h⟩

namespace Settings

/-! ## The check -/

theorem fault?_eq_none_iff : s.fault? = none ↔
    (s.shape = .flat → s.requestedBases.length ≤ 1) ∧ s.outputPath ≠ [] ∧
      (Path.ofText s.outputPath).isAbsolute = false := by
  unfold fault?
  split
  · next hmany =>
    refine iff_of_false nofun ?_
    rintro ⟨hflat, -⟩
    exact Nat.not_le_of_lt hmany.2 (hflat hmany.1)
  · next hfew =>
    rw [Classical.not_and_iff_not_or_not, Nat.not_lt, ← Decidable.imp_iff_not_or] at hfew
    split
    · next hpath =>
      refine iff_of_false nofun ?_
      rintro ⟨-, hnamed, hrelative⟩
      rcases hpath with hempty | habsolute
      · exact hnamed hempty
      · exact Bool.noConfusion (hrelative.symm.trans habsolute)
    · next hpath =>
      rw [not_or, Bool.not_eq_true] at hpath
      exact iff_of_true rfl ⟨hfew, hpath⟩

/-- Accepted settings ask for one base where the index is flat. -/
theorem length_requestedBases_le (h : s.fault? = none) (hflat : s.shape = .flat) :
    s.requestedBases.length ≤ 1 :=
  (fault?_eq_none_iff.1 h).1 hflat

theorem outputPath_ne_nil (h : s.fault? = none) : s.outputPath ≠ [] :=
  (fault?_eq_none_iff.1 h).2.1

theorem outputPath_isAbsolute (h : s.fault? = none) :
    (Path.ofText s.outputPath).isAbsolute = false :=
  (fault?_eq_none_iff.1 h).2.2

theorem checked_eq_ok_iff : s.checked file = .ok s' ↔ s = s' ∧ s.fault? = none := by
  unfold checked
  cases s.fault? <;> simp

/-! ## Loaded settings -/

/-- The settings that a file may come to: the defaults where it is missing or blank, or those of a
document. -/
inductive Loaded (file : Text) : Settings → Prop
  | absent : Loaded file default
  | document {g : Graph} {s : Settings} : ofDocument file g = .ok s → Loaded file s

theorem fault?_default : default.fault? = none := by decide

/-- The archives are not looked at when settings are checked. -/
theorem fault?_of_withArchives {archives : Value} (h : s.withArchives archives = .ok s') :
    s'.fault? = none := by
  unfold withArchives at h
  split at h
  · cases h
  · next hnone =>
    split at h <;> cases h
    exact hnone

theorem exists_withArchives_of_ofMapping (h : ofMapping file g = .ok s) :
    ∃ unlisted : Settings, unlisted.withArchives (itemsOf g "archives") = .ok s := by
  unfold ofMapping at h
  -- the base classes come in one of two ways, and what follows is the same
  obtain ⟨baseClasses, h⟩ : ∃ baseClasses, _ = _ := by
    split at h
    all_goals
      obtain ⟨baseClasses, -, h⟩ := exists_of_bind_eq_ok h
      exact ⟨baseClasses, h⟩
  obtain ⟨classesDirectory, -, h⟩ := exists_of_bind_eq_ok h
  obtain ⟨outputPath, -, h⟩ := exists_of_bind_eq_ok h
  obtain ⟨shapeName, -, h⟩ := exists_of_bind_eq_ok h
  obtain ⟨shape, -, h⟩ := exists_of_bind_eq_ok h
  dsimp only at h
  split at h
  · next hwith =>
    cases h
    exact ⟨_, hwith⟩
  · cases h

theorem fault?_of_ofDocument (h : ofDocument file g = .ok s) : s.fault? = none := by
  unfold ofDocument at h
  split at h
  · cases h
    exact fault?_default
  · split at h
    · obtain ⟨unlisted, hwith⟩ := exists_withArchives_of_ofMapping h
      exact fault?_of_withArchives hwith
    · cases h

theorem Loaded.accepted (h : Loaded file s) : s.fault? = none := by
  cases h with
  | absent => exact fault?_default
  | document h => exact fault?_of_ofDocument h

theorem loaded_of_ofText {t : Text} (h : ofText file t = .ok s) : Loaded file s := by
  unfold ofText at h
  split at h
  · cases h
    exact .absent
  · split at h
    · exact .document h
    · cases h
    · cases h

theorem loaded_of_load (h : load d p = .ok s) : Loaded p.text s := by
  unfold load at h
  split at h
  · cases h
  · cases h
    exact .absent
  · split at h
    · cases h
    · split at h
      · cases h
      · exact loaded_of_ofText h

end Settings

end SubclassIndex
