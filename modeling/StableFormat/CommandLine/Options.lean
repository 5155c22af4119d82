import StableFormat.Run.Outcome

/-!
# Command line options

What a command line can say, and the names that it says it with.
-/

namespace StableFormat.CommandLine

/-- An option that takes a value. -/
inductive Setting where
  | config
  | root
  | format
  | maxIterations
  | maxMessageLines
  | maxFilesToList
  | diagnoseDir
  | exclusion
  | jobs
  deriving DecidableEq, Repr, Inhabited

/-- An option that takes no value. -/
inductive Flag where
  | paddedCell
  | debug
  | verbose
  | silent
  | help
  | version
  deriving DecidableEq, Repr, Inhabited

/-- An option. -/
inductive Switch where
  | setting (s : Setting)
  | flag (f : Flag)
  deriving DecidableEq, Repr, Inhabited

namespace Switch

/-- The options by their long names. -/
def longNames : List (String × Switch) :=
  [("config", setting .config), ("root", setting .root), ("format", setting .format),
    ("padded-cell", flag .paddedCell), ("max-iterations", setting .maxIterations),
    ("max-message-lines", setting .maxMessageLines),
    ("max-files-to-list", setting .maxFilesToList), ("diagnose-dir", setting .diagnoseDir),
    ("exclude", setting .exclusion), ("jobs", setting .jobs), ("debug", flag .debug),
    ("verbose", flag .verbose), ("silent", flag .silent), ("help", flag .help),
    ("version", flag .version)]

/-- The options that have a short name. -/
def shortNames : List (Char × Switch) :=
  [('c', setting .config), ('e', setting .exclusion), ('j', setting .jobs), ('D', flag .debug),
    ('v', flag .verbose), ('S', flag .silent), ('h', flag .help), ('V', flag .version)]

end Switch

/-- Why a command line is not obeyed. -/
inductive UsageError where
  | missingMode
  /-- A value is missing, empty, or none of those that are possible. -/
  | invalidValue
  | notANumber
  | unknownOption
  /-- An option that is given once is given again. -/
  | repeatedOption
  /-- An option that takes no value is given one. -/
  | unexpectedValue
  | helpRequested
  | versionRequested
  deriving DecidableEq, Repr, Inhabited

/-- The options of a command line. -/
structure Options where
  /-- Files and directories to work on; empty stands for the root. -/
  paths : List String := []
  config : Option String := none
  root : Option String := none
  /-- The formats to run; empty stands for all. -/
  formats : List String := []
  paddedCell : Bool := false
  maxIterations : Option Nat := none
  maxMessageLines : Option Nat := none
  maxFilesToList : Option Nat := none
  diagnoseDir : Option String := none
  /-- Globs of files to leave alone. -/
  exclusions : List String := []
  jobs : Option Nat := none
  debug : Bool := false
  verbose : Bool := false
  silent : Bool := false
  deriving DecidableEq, Repr, Inhabited

/-- What a command line says. -/
structure Args where
  mode : Mode
  options : Options
  deriving DecidableEq, Repr, Inhabited

/-- The mode of a name. -/
def readMode (value : String) : Except UsageError Mode :=
  if value = "check" then .ok .check
  else if value = "apply" then .ok .apply
  else .error .invalidValue

/-- A path is not empty. -/
def readPath (value : String) : Except UsageError String :=
  if value.isEmpty then .error .invalidValue else .ok value

/-- A number of up to 64 bits in decimal digits, with or without a plus. -/
def readCount (value : String) : Except UsageError Nat :=
  let digits :=
    match value.toList with
    | '+' :: rest => rest
    | cs => cs
  let n := digits.foldl (fun n c => n * 10 + (c.toNat - '0'.toNat)) 0
  if !digits.isEmpty && digits.all Char.isDigit && n < Nat.pow 2 64 then .ok n else .error .notANumber

/-- A value for an option that can be given once. -/
def once {α : Type} (current : Option α) (value : Except UsageError α) :
    Except UsageError (Option α) :=
  if current.isSome then .error .repeatedOption else value.map some

namespace Options

/-- Gives an option its value. -/
def assign (o : Options) (value : String) : Setting → Except UsageError Options
  | .config => return { o with config := ← once o.config (readPath value) }
  | .root => return { o with root := ← once o.root (readPath value) }
  | .format => .ok { o with formats := o.formats ++ [value] }
  | .maxIterations => return { o with maxIterations := ← once o.maxIterations (readCount value) }
  | .maxMessageLines =>
    return { o with maxMessageLines := ← once o.maxMessageLines (readCount value) }
  | .maxFilesToList =>
    return { o with maxFilesToList := ← once o.maxFilesToList (readCount value) }
  | .diagnoseDir => return { o with diagnoseDir := ← once o.diagnoseDir (readPath value) }
  | .exclusion => .ok { o with exclusions := o.exclusions ++ [value] }
  | .jobs => return { o with jobs := ← once o.jobs (readCount value) }

/-- Sets a flag. -/
def raise (o : Options) : Flag → Except UsageError Options
  | .paddedCell =>
    if o.paddedCell then .error .repeatedOption else .ok { o with paddedCell := true }
  | .debug => if o.debug then .error .repeatedOption else .ok { o with debug := true }
  | .verbose => if o.verbose then .error .repeatedOption else .ok { o with verbose := true }
  | .silent => if o.silent then .error .repeatedOption else .ok { o with silent := true }
  | .help => .error .helpRequested
  | .version => .error .versionRequested

end Options

end StableFormat.CommandLine
