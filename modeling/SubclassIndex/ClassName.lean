import SubclassIndex.Text.Basic

/-!
# Class names

A class has an internal name, its packages separated by slashes as in a class file, and a dotted
name as in program text. Headers are kept under internal names; an index is written in dotted ones.
-/

namespace SubclassIndex.ClassName

/-- The name with dots between its parts. -/
def dotted (name : Text) : Text := name.replacePoint '/' '.'

/-- The name with slashes between its parts. -/
def internal (name : Text) : Text := name.replacePoint '.' '/'

/-- The ending of the path of a compiled class. -/
def classSuffix : Text := ".class"

/-- The root of all classes. -/
def object : Text := "java/lang/Object"

/-- Whether a path is that of a compiled class. -/
def isClassPath (path : Text) : Bool := classSuffix.isSuffixOf path

/-- The internal name of the class at a path: the path without the ending of compiled classes. -/
def ofEntryPath (path : Text) : Text :=
  if isClassPath path then path.take (path.length - classSuffix.length) else path

theorem dotted_dotted (n : Text) : dotted (dotted n) = dotted n := by
  induction n with
  | nil => rfl
  | cons c n ih =>
    simp only [dotted, Text.replacePoint, List.map_cons] at ih ⊢
    rw [ih]
    by_cases h : c = .ofChar '/' <;> simp [h]

theorem dotted_internal (n : Text) : dotted (internal n) = dotted n := by
  induction n with
  | nil => rfl
  | cons c n ih =>
    simp only [dotted, internal, Text.replacePoint, List.map_cons] at ih ⊢
    rw [ih]
    by_cases h : c = .ofChar '.'
    · subst h; rfl
    · simp [h]

theorem internal_dotted (n : Text) : internal (dotted n) = internal n := by
  induction n with
  | nil => rfl
  | cons c n ih =>
    simp only [dotted, internal, Text.replacePoint, List.map_cons] at ih ⊢
    rw [ih]
    by_cases h : c = .ofChar '/'
    · subst h; rfl
    · simp [h]

end SubclassIndex.ClassName
