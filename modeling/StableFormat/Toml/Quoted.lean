import StableFormat.Toml.Value

/-!
# TOML strings and white space

The four kinds of strings, and what may stand between the parts of a document.
-/

namespace StableFormat.Toml

/-- A space or a tab. -/
def isSpace (c : Char) : Bool :=
  c = ' ' || c = '\t'

/-- The rest behind spaces and tabs. -/
def skipSpace (cs : List Char) : List Char :=
  cs.dropWhile isSpace

/-- A character that may stand in a comment or, but for quotes, in a string: no control character
but the tab. -/
def isPlain (c : Char) : Bool :=
  c = '\t' || (' ' ≤ c && c ≤ '~') || '\x80' ≤ c

/-- The rest behind a line break. -/
def newline? : List Char → Option (List Char)
  | '\n' :: rest => some rest
  | '\r' :: '\n' :: rest => some rest
  | _ => none

/-- The rest behind a comment, if there is one. -/
def skipComment : List Char → List Char
  | '#' :: rest => rest.dropWhile isPlain
  | cs => cs

/-- The end of a line: spaces, a comment, and a line break or the end of the text. -/
def readLineEnd : Read Unit := fun cs =>
  let cs := skipComment (skipSpace cs)
  match cs with
  | [] => .ok ((), [])
  | _ =>
    match newline? cs with
    | some rest => .ok ((), rest)
    | none => .error .unexpected

/-- The rest behind white space, comments and line breaks, as they may stand between the elements of
an array. A comment has to end with a line break. -/
def skipBlankLines : (fuel : Nat) → List Char → Except Error (List Char)
  | 0, cs => .ok cs
  | fuel + 1, cs =>
    match skipSpace cs with
    | '#' :: rest =>
      match newline? (rest.dropWhile isPlain) with
      | some rest => skipBlankLines fuel rest
      | none => .error .unexpected
    | cs =>
      match newline? cs with
      | some rest => skipBlankLines fuel rest
      | none => .ok cs

/-- The value of a hexadecimal digit. -/
def hexDigit? (c : Char) : Option Nat :=
  if '0' ≤ c && c ≤ '9' then some (c.toNat - '0'.toNat)
  else if 'a' ≤ c && c ≤ 'f' then some (c.toNat - 'a'.toNat + 10)
  else if 'A' ≤ c && c ≤ 'F' then some (c.toNat - 'A'.toNat + 10)
  else none

/-- A code point of exactly `count` hexadecimal digits. -/
def readCodePoint (count : Nat) : Read Char := fun cs =>
  match (cs.take count).mapM hexDigit? with
  | some digits =>
    let n := digits.foldl (fun n d => n * 16 + d) 0
    if digits.length = count then
      if h : n.isValidChar then .ok (Char.ofNatAux n h, cs.drop count) else .error .invalidEscape
    else .error .invalidEscape
  | none => .error .invalidEscape

/-- What follows a backslash. -/
def readEscape : Read Char
  | 'b' :: rest => .ok ('\x08', rest)
  | 'f' :: rest => .ok ('\x0c', rest)
  | 'n' :: rest => .ok ('\n', rest)
  | 'r' :: rest => .ok ('\r', rest)
  | 't' :: rest => .ok ('\t', rest)
  | '"' :: rest => .ok ('"', rest)
  | '\\' :: rest => .ok ('\\', rest)
  | 'u' :: rest => readCodePoint 4 rest
  | 'U' :: rest => readCodePoint 8 rest
  | _ => .error .invalidEscape

/-- The rest of a string in double quotes on one line; `read` holds its characters so far, last
first. -/
def readBasic : (fuel : Nat) → (read : List Char) → Read String
  | 0, _, _ => .error .unexpected
  | fuel + 1, read, cs =>
    match cs with
    | [] => .error .unexpected
    | '"' :: rest => .ok (String.ofList read.reverse, rest)
    | '\\' :: rest =>
      match readEscape rest with
      | .ok (c, rest) => readBasic fuel (c :: read) rest
      | .error e => .error e
    | c :: rest => if isPlain c then readBasic fuel (c :: read) rest else .error .unexpected

/-- A string in single quotes on one line, behind its opening quote. -/
def readLiteral : Read String := fun cs =>
  let inner (c : Char) : Bool := isPlain c && c ≠ '\''
  match cs.dropWhile inner with
  | '\'' :: rest => .ok (String.ofList (cs.takeWhile inner), rest)
  | _ => .error .unexpected

/-- The rest behind spaces, tabs and line breaks. -/
def skipBreaks : List Char → List Char
  | '\r' :: '\n' :: rest => skipBreaks rest
  | c :: rest => if isSpace c || c = '\n' then skipBreaks rest else c :: rest
  | [] => []

/-- The rest of a string of several lines, behind its opening quotes. Three quotes close it; up to
two more quotes directly before them belong to it. A backslash at the end of a line joins the lines,
and every line break counts as `\n`. Only a string in double quotes has escapes. -/
def readLines (quote : Char) : (fuel : Nat) → (read : List Char) → Read String
  | 0, _, _ => .error .unexpected
  | fuel + 1, read, cs =>
    match cs with
    | [] => .error .unexpected
    | c :: rest =>
      if c = quote then
        let run := 1 + (rest.takeWhile (· = quote)).length
        if run < 3 then readLines quote fuel (List.replicate run quote ++ read) (cs.drop run)
        else
          let extra := min (run - 3) 2
          .ok (String.ofList (List.replicate extra quote ++ read).reverse, cs.drop (extra + 3))
      else if c = '\\' ∧ quote = '"' then
        match newline? (skipSpace rest) with
        | some rest => readLines quote fuel read (skipBreaks rest)
        | none =>
          match readEscape rest with
          | .ok (c, rest) => readLines quote fuel (c :: read) rest
          | .error e => .error e
      else
        match newline? cs with
        | some rest => readLines quote fuel ('\n' :: read) rest
        | none => if isPlain c then readLines quote fuel (c :: read) rest else .error .unexpected

/-- A string of several lines, behind its opening quotes; a line break directly behind them does not
belong to it. -/
def readMultiline (quote : Char) : Read String := fun cs =>
  readLines quote (cs.length + 1) [] ((newline? cs).getD cs)

/-- A string of any kind. -/
def readString : Read String
  | '"' :: '"' :: '"' :: rest => readMultiline '"' rest
  | '"' :: rest => readBasic (rest.length + 1) [] rest
  | '\'' :: '\'' :: '\'' :: rest => readMultiline '\'' rest
  | '\'' :: rest => readLiteral rest
  | _ => .error .unexpected

end StableFormat.Toml
