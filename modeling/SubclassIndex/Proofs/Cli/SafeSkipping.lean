import SubclassIndex.Cli.Program
import SubclassIndex.Proofs.Build.CoveredArchives
import SubclassIndex.Proofs.Settings.AcceptedSettings

/-!
# Options and skipped scans

A flat index is taken to cover whatever base it is read for, so skipping the scan of an archive is
safe only because settings that ask for several bases at once are refused. Every request starts from
accepted settings: loaded ones are accepted, and options that say anything have them checked once
more (`Attained.accepted`). With such settings a build serves exactly the archives that are covered
(`served_iff_covered`).
-/

namespace SubclassIndex.Cli

variable {o : Options} {s loaded : Settings} {d : Disk} {file : Text}

/-- Settings that a request with some options can start from: as they are found on a disk, or with
the document of the settings file replaced by any other. -/
inductive Attained (o : Options) (s : Settings) : Prop
  | onDisk {d : Disk} : settingsOf o d = .ok s → Attained o s
  | revised {file : Text} {loaded : Settings} :
    Settings.Loaded file loaded → o.revise file loaded = .ok s → Attained o s

/-- Options that say nothing keep the settings, and all others have them checked. -/
theorem fault?_of_revise (hloaded : loaded.fault? = none) (h : o.revise file loaded = .ok s) :
    s.fault? = none := by
  unfold Options.revise at h
  split at h
  · split at h
    · next hchecked =>
      cases h
      obtain ⟨rfl, hnone⟩ := Settings.checked_eq_ok_iff.1 hchecked
      exact hnone
    · cases h
  · cases h
    exact hloaded

theorem exists_loaded_of_settingsOf (h : settingsOf o d = .ok s) :
    ∃ file loaded, Settings.Loaded file loaded ∧ o.revise file loaded = .ok s := by
  unfold settingsOf at h
  dsimp only at h
  split at h
  · next hload => exact ⟨_, _, Settings.loaded_of_load hload, h⟩
  · cases h

theorem Attained.accepted (h : Attained o s) : s.fault? = none := by
  cases h with
  | onDisk h =>
    obtain ⟨_, _, hloaded, hrevise⟩ := exists_loaded_of_settingsOf h
    exact fault?_of_revise hloaded.accepted hrevise
  | revised hloaded hrevise => exact fault?_of_revise hloaded.accepted hrevise

/-- The settings of a request pass their check. With them, whatever is listed as served when a build
ends or fails is a covered archive, and a build that ends with a result has served all of these. -/
theorem served_iff_covered [Zip.Library] (h : Attained o s) : (∀ file, s.checked file = .ok s) ∧
    ∀ d, (∀ listed ∈ (collectedOn s d).served, CoveredArchive s d listed) ∧
      ∀ r, (build s d).value = .ok (some r) →
        ∀ listed, listed ∈ r.served ↔ CoveredArchive s d listed := by
  have haccepted := h.accepted
  refine ⟨fun file => Settings.checked_eq_ok_iff.2 ⟨rfl, haccepted⟩, ?_⟩
  intro d
  constructor
  · intro listed hlisted
    exact covered_of_mem_served haccepted hlisted
  · intro r hbuild listed
    exact mem_served_of_build haccepted hbuild

/-! ## A flat index for one of two bases -/

def twoBases : Text := "base_classes: [a.B, a.C]\nclasses_dir: c\narchives: [x]\noutput_path: i\n"

/-- An archive with an index, beside the settings file. -/
def twoBasesDisk : Disk :=
  smallDisk [] [("x", Zip.pack [⟨"i", ("l.M" : Text).flatMap Utf8.bytesOf, 0⟩]),
    (settingsName, twoBases.flatMap Utf8.bytesOf)]

/-- Options for a flat index of the first base only. -/
def flatOfFirst : Options := { flat := true, bases := [.text "a.B"] }

theorem served_iff_covered_twoBasesDisk : ∃ s r, settingsOf flatOfFirst twoBasesDisk = .ok s ∧
    s.shape = .flat ∧ s.requestedBases = [("a/B" : Text)] ∧ s.checked settingsName = .ok s ∧
    (build s twoBasesDisk).value = .ok (some r) ∧ r.served = [("x" : Text)] ∧
    CoveredArchive s twoBasesDisk "x" := by
  have heval : (settingsOf flatOfFirst twoBasesDisk).toOption.map
      (fun s => (s.shape, s.requestedBases,
        (build s twoBasesDisk).value.toOption.map fun result => result.map BuildResult.served)) =
      some (Index.Shape.flat, [("a/B" : Text)], some (some [("x" : Text)])) := by
    decide +kernel
  obtain ⟨s, hsettings, heval⟩ := exists_ok_of_toOption heval
  simp only [Prod.mk.injEq] at heval
  obtain ⟨hshape, hbases, heval⟩ := heval
  obtain ⟨result, hbuild, hresult⟩ := exists_ok_of_toOption heval
  obtain ⟨r, rfl, hserved⟩ := Option.map_eq_some_iff.1 hresult
  obtain ⟨hchecked, hcovered⟩ := served_iff_covered (.onDisk hsettings)
  have hmem : ("x" : Text) ∈ r.served := hserved ▸ List.mem_singleton_self _
  exact ⟨s, r, hsettings, hshape, hbases, hchecked _, hbuild, hserved,
    ((hcovered _).2 r hbuild _).1 hmem⟩

end SubclassIndex.Cli
