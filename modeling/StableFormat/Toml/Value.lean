/-!
# TOML values

What a TOML document says, once it has been read: tables of values by key. Numbers with a fraction
and dates carry nothing here, because no setting takes one; they are read to know where they end.
-/

namespace StableFormat.Toml

/-- A value of a document. -/
inductive Value where
  | string (s : String)
  | integer (n : Int)
  | float
  | boolean (b : Bool)
  | datetime
  | array (elements : List Value)
  | table (entries : List (String × Value))
  deriving Repr, Inhabited

/-- The entries of a table, in the order in which they were written. -/
abbrev Table := List (String × Value)

/-- Why a text is no document, or a document not the one that is asked for. -/
inductive Error where
  /-- A character stands where it must not, or the text ends too early. -/
  | unexpected
  | invalidEscape
  | invalidNumber
  | invalidDate
  | tooDeep
  | duplicateKey (key : String)
  /-- A key that holds a plain value is used as a table. -/
  | notATable (key : String)
  | wrongType (expected : String)
  | outOfRange
  | missingField (key : String)
  | unknownName (name : String)
  deriving DecidableEq, Repr, Inhabited

/-- The text of an error. -/
def Error.message (e : Error) : String :=
  let reason :=
    match e with
    | unexpected => "invalid syntax"
    | invalidEscape => "invalid escape sequence"
    | invalidNumber => "invalid number"
    | invalidDate => "invalid date or time"
    | tooDeep => "recursion limit exceeded"
    | duplicateKey key => "duplicate key '" ++ key ++ "'"
    | notATable key => "key '" ++ key ++ "' is not a table"
    | wrongType expected => "invalid type, expected " ++ expected
    | outOfRange => "integer out of range"
    | missingField key => "missing field '" ++ key ++ "'"
    | unknownName name => "unknown variant '" ++ name ++ "'"
  "TOML parse error: " ++ reason

/-- A part of a document that has been read, and the rest of the text. -/
abbrev Read (α : Type) := List Char → Except Error (α × List Char)

end StableFormat.Toml
