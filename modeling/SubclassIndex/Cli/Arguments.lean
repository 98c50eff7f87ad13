import SubclassIndex.Cli.Request
import SubclassIndex.Text.DecimalDigit

/-!
# Arguments

How arguments are read. A long option may be shortened as long as it stays unambiguous and may have
its value after an equals sign. The value of a short option may follow it directly or after an
equals sign, and short options may follow in the same argument one that has no value. A value that
stands alone must not look like an option; negative numbers and whatever holds a space do not.
-/

namespace SubclassIndex.Cli

/-- Why the command line does not say what to do. -/
inductive Misuse
  /-- A shortened option has several completions. -/
  | ambiguous (argument : Text)
  /-- An option lacks its value. -/
  | valueMissing (s : Switch)
  /-- An option has a value that it does not take. -/
  | valueIgnored (s : Switch) (value : Text)
  /-- There is no command of this name. -/
  | unknownCommand (name : Text)
  /-- There is no command. -/
  | commandMissing
  /-- The base to query is not given. -/
  | baseMissing
  /-- There are arguments that mean nothing here. -/
  | unrecognized (arguments : List Text)
  deriving DecidableEq

/-- Why no request is made. -/
inductive Stop
  /-- Help is asked for, about a command or about all. -/
  | help (command : Option Command)
  | misuse (m : Misuse)
  deriving DecidableEq

/-- What an argument looks like. -/
inductive Look
  /-- Two hyphens and nothing else. -/
  | separator
  /-- A word that may be a value. -/
  | word
  /-- An option, by its long name or its short one, with what follows in the argument. -/
  | option (s : Switch) (long : Bool) (value : Option Text)
  /-- An option that is not known. -/
  | unknown

/-- The option with a spelling. -/
def named? (names : Switch.Names) (t : Text) : Option Switch :=
  (names.find? fun e => decide (e.1 = t)).map Prod.snd

/-- The text before the first equals sign, and the text after it. -/
def splitAtEquals (t : Text) : Text × Option Text :=
  let before := t.takeWhile fun c : CodePoint => c ≠ '='
  match t.drop before.length with
  | [] => (before, none)
  | _ :: after => (before, some after)

/-- Whether a text is a minus sign with digits, among which one point may stand, but not last. One
line break at its end does not count. -/
def isNegativeNumber (t : Text) : Bool :=
  match t.withoutFinalBreak with
  | sign :: rest =>
    let isDigit := fun c : CodePoint => c.decimalValue?.isSome
    let whole := rest.takeWhile isDigit
    decide (sign = '-') &&
      match rest.drop whole.length with
      | [] => !whole.isEmpty
      | point :: fraction => point = '.' && !fraction.isEmpty && fraction.all isDigit
  | [] => false

/-- The options that an argument may mean that is not the spelling of one. -/
def completions (names : Switch.Names) (argument : Text) : List Look :=
  match argument with
  | _ :: second :: rest =>
    if second = '-' then
      let (start, value) := splitAtEquals argument
      (names.filter fun e => start.isPrefixOf e.1).map fun e => .option e.2 true value
    else
      (names.filter fun e => decide (e.1 = argument.take 2)).map fun e =>
        .option e.2 false (some rest)
  | _ => []

/-- The look of an argument that begins with a hyphen and goes on. -/
def lookOfHyphened (names : Switch.Names) (argument : Text) : Except Misuse Look :=
  let long := ("--" : Text).isPrefixOf argument
  match named? names argument, splitAtEquals argument with
  | some s, _ => .ok (.option s long none)
  | none, (start, value) =>
    match (if value.isSome then named? names start else none), completions names argument with
    | some s, _ => .ok (.option s long value)
    | none, [look] => .ok look
    | none, _ :: _ :: _ => .error (.ambiguous argument)
    | none, [] =>
      if isNegativeNumber argument ∨ argument.contains (.ofChar ' ') then .ok .word
      else .ok .unknown

/-- The look of an argument. -/
def lookOf (names : Switch.Names) (argument : Text) : Except Misuse Look :=
  match argument with
  | first :: _ :: _ =>
    if first ≠ '-' then .ok .word
    else if argument = ("--" : Text) then .ok .separator
    else lookOfHyphened names argument
  | _ => .ok .word

/-- The looks of arguments. After a separator all are words. -/
def looksOf (names : Switch.Names) : List Text → Except Misuse (List (Text × Look))
  | [] => .ok []
  | argument :: rest =>
    match lookOf names argument with
    | .error m => .error m
    | .ok .separator => .ok ((argument, .separator) :: rest.map fun t => (t, .word))
    | .ok look => (looksOf names rest).map fun looks => (argument, look) :: looks

/-- What an argument says: options without values, and perhaps one more that has a value or takes
the next word for it. -/
structure Said where
  flags : List Switch
  last : Option (Switch × Option Given) := none

/-- What short options say that are written together. `s` takes no value; what follows it is read as
further options. -/
def together (names : Switch.Names) (flags : List Switch) (s : Switch) :
    Text → Except Misuse Said
  | [] => .error (.valueIgnored s [])
  | c :: rest =>
    let flags := flags ++ [s]
    match named? names [.ofChar '-', c], rest with
    | none, _ => .error (.valueIgnored s (c :: rest))
    | some next, [] =>
      .ok (if next.takesValue then { flags, last := some (next, none) }
        else { flags := flags ++ [next] })
    | some next, d :: more =>
      if next.takesValue then .ok { flags, last := some (next, some (.ofAttached (d :: more))) }
      else together names flags next (d :: more)

/-- What an option says, given how it is written. -/
def saidBy (names : Switch.Names) (s : Switch) (long : Bool) (value : Option Text) :
    Except Misuse Said :=
  match value with
  | none =>
    .ok (if s.takesValue then { flags := [], last := some (s, none) } else { flags := [s] })
  | some t =>
    if s.takesValue then .ok { flags := [], last := some (s, some (.ofAttached t)) }
    else if long then .error (.valueIgnored s t)
    else together names [] s t

/-- The options read so far and the arguments that mean nothing. -/
structure Progress where
  options : Options := {}
  strange : List Text := []

namespace Progress

/-- Takes an argument that means nothing. -/
def pass (p : Progress) (argument : Text) : Progress :=
  { p with strange := p.strange ++ [argument] }

/-- Takes an option with its value. -/
def take (p : Progress) (s : Switch) (value : Given) : Progress :=
  { p with options := p.options.withValue s value }

/-- Takes options without values. Help stops everything. -/
def takeFlags (p : Progress) (command : Option Command) (said : Said) : Except Stop Progress :=
  if said.flags.contains .help then .error (.help command)
  else .ok { p with options := said.flags.foldl Options.withFlag p.options }

end Progress

/-- Reads the arguments of a command. -/
def readOptions (names : Switch.Names) (command : Command) (p : Progress) :
    List (Text × Look) → Except Stop Progress
  | [] => .ok p
  | (_, .option s long value) :: rest =>
    match saidBy names s long value with
    | .error m => .error (.misuse m)
    | .ok said =>
      match said.last, rest with
      | none, rest => do
        let p ← p.takeFlags (some command) said
        readOptions names command p rest
      | some (last, some value), rest => do
        let p ← p.takeFlags (some command) said
        readOptions names command (p.take last value) rest
      | some (last, none), (value, .word) :: rest => do
        let p ← p.takeFlags (some command) said
        readOptions names command (p.take last (.text value)) rest
      | some (last, none), _ => .error (.misuse (.valueMissing last))
  | (argument, _) :: rest => readOptions names command (p.pass argument) rest

/-- The request of a command whose arguments have been read. -/
def requestOf (command : Command) (p : Progress) : Except Stop Request :=
  let finish (r : Request) : Except Stop Request :=
    if p.strange.isEmpty then .ok r else .error (.misuse (.unrecognized p.strange))
  match command with
  | .build => finish ⟨.build, p.options⟩
  | .status => finish ⟨.status, p.options⟩
  | .query =>
    match p.options.bases.getLast? with
    | none => .error (.misuse .baseMissing)
    | some base => finish ⟨.query base, { p.options with bases := [] }⟩

/-- The request of a command and its arguments, after arguments that mean nothing. -/
def readCommand (strange : List Text) (name : Text) (arguments : List Text) :
    Except Stop Request := do
  match Command.ofName? name with
  | none => .error (.misuse (.unknownCommand name))
  | some command =>
    let names := Switch.namesOf command
    match looksOf names arguments with
    | .error m => .error (.misuse m)
    | .ok looks => requestOf command (← readOptions names command { strange } looks)

/-- Reads arguments up to the command. -/
def readMain (strange : List Text) : List (Text × Look) → Except Stop Request
  | [] => .error (.misuse .commandMissing)
  | (argument, .word) :: rest => readCommand strange argument (rest.map Prod.fst)
  | (argument, .separator) :: _ => .error (.misuse (.unknownCommand argument))
  | (argument, .unknown) :: rest => readMain (strange ++ [argument]) rest
  | (_, .option s long value) :: rest =>
    match saidBy Switch.mainNames s long value with
    | .error m => .error (.misuse m)
    | .ok said =>
      if said.flags.contains .help then .error (.help none)
      else readMain strange rest

/-- The request that arguments make. -/
def readArguments (arguments : List Text) : Except Stop Request :=
  match looksOf Switch.mainNames arguments with
  | .error m => .error (.misuse m)
  | .ok looks => readMain [] looks

end SubclassIndex.Cli
