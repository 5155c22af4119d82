import StableFormat.CommandLine.Options

/-!
# Reading a command line

Arguments are read from left to right. A value that stands in an argument of its own is only taken
over when the next option or another kind of argument comes, or at the end; an unknown option before
that is reported first.
-/

namespace StableFormat.CommandLine

/-- An argument that has been read but not taken over yet. -/
inductive Pending where
  | nothing
  | mode (value : String)
  | paths (values : List String)
  /-- An option, with its value if that has come. -/
  | setting (s : Setting) (value : Option String)
  deriving DecidableEq, Repr, Inhabited

/-- What has been read so far. -/
structure Draft where
  mode : Option Mode := none
  options : Options := { }
  pending : Pending := .nothing
  /-- The next argument that is no option is the mode. -/
  expectsMode : Bool := true
  /-- After `--` no argument is an option. -/
  optionsEnded : Bool := false
  deriving DecidableEq, Repr, Inhabited

namespace Draft

/-- Takes over the argument that has been read last. -/
def settle (d : Draft) : Except UsageError Draft :=
  match d.pending with
  | .nothing => .ok d
  | .mode value => return { d with mode := some (← readMode value), pending := .nothing }
  | .paths values => do
    let paths ← values.mapM readPath
    return { d with
      options := { d.options with paths := d.options.paths ++ paths }
      pending := .nothing }
  | .setting _ none => .error .invalidValue
  | .setting s (some value) =>
    return { d with options := ← d.options.assign value s, pending := .nothing }

/-- Reads a flag. -/
def raise (d : Draft) (f : Flag) : Except UsageError Draft := do
  let d ← d.settle
  return { d with options := ← d.options.raise f }

/-- Reads an option that takes a value, with its value if that stands in the same argument. -/
def give (d : Draft) (s : Setting) (value : Option String) : Except UsageError Draft := do
  let d ← d.settle
  match value with
  | some value => return { d with options := ← d.options.assign value s }
  | none => return { d with pending := .setting s none }

/-- Reads an argument that is no option. -/
def addPlain (d : Draft) (arg : String) : Except UsageError Draft :=
  if d.expectsMode then do
    let d ← d.settle
    return { d with pending := .mode arg, expectsMode := false }
  else
    match d.pending with
    | .paths values => .ok { d with pending := .paths (values ++ [arg]) }
    | _ => do
      let d ← d.settle
      return { d with pending := .paths [arg] }

/-- Reads an argument behind `--` before its name. -/
def addLong (d : Draft) (text : List Char) : Except UsageError Draft :=
  let name := String.ofList (text.takeWhile (· ≠ '='))
  let value :=
    match text.dropWhile (· ≠ '=') with
    | _ :: value => some (String.ofList value)
    | [] => none
  match Switch.longNames.lookup name with
  | none => .error .unknownOption
  | some (.setting s) => d.give s value
  | some (.flag f) => if value.isSome then .error .unexpectedValue else d.raise f

/-- Reads short names behind one `-`; what follows the name of an option with a value is its
value. -/
def addShort (d : Draft) : List Char → Except UsageError Draft
  | [] => .ok d
  | c :: rest =>
    match Switch.shortNames.lookup c with
    | none => .error .unknownOption
    | some (.flag f) => do addShort (← d.raise f) rest
    | some (.setting s) =>
      match rest with
      | [] => d.give s none
      | '=' :: value => d.give s (some (String.ofList value))
      | value => d.give s (some (String.ofList value))

/-- Reads an argument. -/
def add (d : Draft) (arg : String) : Except UsageError Draft :=
  if d.optionsEnded then d.addPlain arg
  else
    match arg.toList with
    | ['-', '-'] => .ok { d with optionsEnded := true }
    | '-' :: '-' :: text => d.addLong text
    | '-' :: c :: rest => d.addShort (c :: rest)
    | _ =>
      match d.pending with
      | .setting s none => .ok { d with pending := .setting s (some arg) }
      | _ => d.addPlain arg

end Draft

/-- Reads the arguments behind the name of the program. -/
def Args.read (args : List String) : Except UsageError Args := do
  let d ← args.foldlM Draft.add { }
  let d ← d.settle
  match d.mode with
  | some mode => return ⟨mode, d.options⟩
  | none => .error .missingMode

end StableFormat.CommandLine
