import StableFormat.Toml.Scalar
import StableFormat.Toml.Tree

/-!
# TOML statements

A document is a list of statements: keys with values, and headers of tables. Values can hold values;
how deep is bounded.
-/

namespace StableFormat.Toml

/-- A statement of a document. -/
inductive Statement where
  | entry (key : Key) (value : Value)
  /-- `[key]` -/
  | table (key : Key)
  /-- `[[key]]` -/
  | element (key : Key)
  deriving Inhabited

/-- The number of parts of a dotted key, and of values within each other, stays below this. -/
def depthLimit : Nat := 80

/-- A character of a key without quotes. -/
def isBare (c : Char) : Bool :=
  c.isAlphanum || c = '-' || c = '_'

/-- A part of a key. -/
def readKeyPart : Read String
  | '"' :: rest => readBasic (rest.length + 1) [] rest
  | '\'' :: rest => readLiteral rest
  | cs =>
    match cs.takeWhile isBare with
    | [] => .error .unexpected
    | name => .ok (String.ofList name, cs.dropWhile isBare)

/-- The parts of a key, with `.` between them; spaces around each part do not count. -/
def readKeyParts : (fuel : Nat) → (path : List String) → Read Key
  | 0, _, _ => .error .unexpected
  | fuel + 1, path, cs =>
    match readKeyPart (skipSpace cs) with
    | .error e => .error e
    | .ok (name, rest) =>
      match skipSpace rest with
      | '.' :: rest => readKeyParts fuel (path ++ [name]) rest
      | rest => if path.length + 1 < depthLimit then .ok (⟨path, name⟩, rest) else .error .tooDeep

/-- A key. -/
def readKey : Read Key := fun cs => readKeyParts (cs.length + 1) [] cs

/-- The rest of an array, behind its opening bracket or an element's comma. -/
def readElements (value : Read Value) : (fuel : Nat) → List Value → Read Value
  | 0, _, _ => .error .unexpected
  | fuel + 1, elements, cs => do
    match ← skipBlankLines (cs.length + 1) cs with
    | ']' :: rest => return (.array elements, rest)
    | cs =>
      let (v, rest) ← value cs
      let elements := elements ++ [v]
      match ← skipBlankLines (rest.length + 1) rest with
      | ',' :: rest => readElements value fuel elements rest
      | ']' :: rest => return (.array elements, rest)
      | _ => .error .unexpected

/-- A key, an equals sign and a value. -/
def readPair (value : Read Value) : Read (Key × Value) := fun cs => do
  let (key, rest) ← readKey cs
  match rest with
  | '=' :: rest =>
    let (v, rest) ← value (skipSpace rest)
    return ((key, v), rest)
  | _ => .error .unexpected

/-- The rest of a table in braces; a comma has to be followed by a key. -/
def readInline (value : Read Value) : (fuel : Nat) → Entries → Read Value
  | 0, _, _ => .error .unexpected
  | fuel + 1, entries, cs => do
    let ((key, v), rest) ← readPair value cs
    let entries ← entries.insert key v
    match skipSpace rest with
    | ',' :: rest => readInline value fuel entries rest
    | '}' :: rest => return (.table (Node.toTable entries), rest)
    | _ => .error .unexpected

/-- A value of several values, behind its opening bracket. -/
def readCompound (value : Read Value) (opening : Char) : Read Value := fun cs =>
  if opening = '[' then readElements value (cs.length + 1) [] cs
  else
    match skipSpace cs with
    | '}' :: rest => .ok (.table [], rest)
    | cs => readInline value (cs.length + 1) [] cs

/-- A value that holds at most `depth` values within each other. -/
def readValue : (depth : Nat) → Read Value
  | 0, cs =>
    match cs with
    | [] => .error .unexpected
    | c :: _ => if c = '[' ∨ c = '{' then .error .tooDeep else readScalar cs
  | depth + 1, cs =>
    match cs with
    | [] => .error .unexpected
    | c :: rest =>
      if c = '[' ∨ c = '{' then readCompound (readValue depth) c rest else readScalar cs

/-- A statement with the end of its line. -/
def readStatement : Read Statement
  | '[' :: '[' :: rest => do
    let (key, rest) ← readKey rest
    match rest with
    | ']' :: ']' :: rest =>
      let ((), rest) ← readLineEnd rest
      return (.element key, rest)
    | _ => .error .unexpected
  | '[' :: rest => do
    let (key, rest) ← readKey rest
    match rest with
    | ']' :: rest =>
      let ((), rest) ← readLineEnd rest
      return (.table key, rest)
    | _ => .error .unexpected
  | cs => do
    let ((key, v), rest) ← readPair (readValue (depthLimit - 1)) cs
    let ((), rest) ← readLineEnd rest
    return (.entry key v, rest)

/-- The statements of a document, behind those read so far. -/
def readStatements : (fuel : Nat) → (read : List Statement) → List Char →
    Except Error (List Statement)
  | 0, _, _ => .error .unexpected
  | fuel + 1, read, cs =>
    match skipSpace cs with
    | [] => .ok read.reverse
    | '#' :: rest => do
      let ((), rest) ← readLineEnd ('#' :: rest)
      readStatements fuel read rest
    | cs =>
      match newline? cs with
      | some rest => readStatements fuel read rest
      | none => do
        let (statement, rest) ← readStatement cs
        readStatements fuel (statement :: read) rest

end StableFormat.Toml
