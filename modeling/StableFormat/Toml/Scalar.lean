import StableFormat.Toml.Quoted

/-!
# TOML numbers, dates and truth values

Integers are read to their value. Numbers with a fraction, dates and times are only checked: a date
has to be one of the calendar, and a number must not lie above the largest one of double precision.
-/

namespace StableFormat.Toml

/-- Digits up to the first character that is none; a single underscore may stand between two digits
and is left out. -/
def takeDigits (isDigit : Char → Bool) : List Char → List Char × List Char
  | '_' :: d :: rest =>
    if isDigit d then takeDigits isDigit (d :: rest) else ([], '_' :: d :: rest)
  | c :: rest =>
    if isDigit c then
      let (digits, rest) := takeDigits isDigit rest
      (c :: digits, rest)
    else ([], c :: rest)
  | [] => ([], [])

/-- Digits with underscores between them, of which there is at least one. -/
def readDigits (isDigit : Char → Bool) : Read (List Char)
  | c :: rest => if isDigit c then .ok (takeDigits isDigit (c :: rest)) else .error .invalidNumber
  | [] => .error .invalidNumber

/-- The number that digits stand for. -/
def valueOf (base : Nat) (digits : List Char) : Nat :=
  digits.foldl (fun n c => n * base + (hexDigit? c).getD 0) 0

/-- A digit of a base up to sixteen. -/
def isDigitOf (base : Nat) (c : Char) : Bool :=
  (hexDigit? c).any (· < base)

/-- An integer of 64 bits with a sign. -/
def integerOf (n : Int) : Except Error Value :=
  if -Int.pow 2 63 ≤ n ∧ n < Int.pow 2 63 then .ok (.integer n) else .error .outOfRange

/-- An unsigned integer of another base than ten, behind what announces the base. -/
def readInBase (base : Nat) : Read Value := fun cs => do
  let (digits, rest) ← readDigits (isDigitOf base) cs
  return (← integerOf (valueOf base digits), rest)

/-- The digits of an integer in base ten; behind a zero there are no more. -/
def readWhole : Read (List Char)
  | '0' :: rest => .ok (['0'], rest)
  | cs => readDigits Char.isDigit cs

/-- The fraction of a number, if there is one. -/
def readFraction : Read (Option (List Char))
  | '.' :: rest => do
    let (digits, rest) ← readDigits Char.isDigit rest
    return (some digits, rest)
  | cs => .ok (none, cs)

/-- A sign, if there is one, and whether it is a minus. -/
def splitSign : List Char → Bool × List Char
  | '-' :: rest => (true, rest)
  | '+' :: rest => (false, rest)
  | cs => (false, cs)

/-- The exponent of a number, if there is one. -/
def readExponent : Read (Option Int)
  | c :: rest =>
    if c = 'e' ∨ c = 'E' then do
      let (negative, rest) := splitSign rest
      let (digits, rest) ← readDigits Char.isDigit rest
      let n : Int := valueOf 10 digits
      return (some (if negative then -n else n), rest)
    else .ok (none, c :: rest)
  | [] => .ok (none, [])

/-- The smallest number that rounds to a value above all numbers of double precision. -/
def doubleBound : Nat := Nat.pow 2 1024 - Nat.pow 2 970

/-- The digits, taken times a power of ten, lie above all numbers of double precision. Only a number
of as many places as the bound has to be compared with it. -/
def overflows (digits : List Char) (exponent : Int) : Bool :=
  let digits := digits.dropWhile (· = '0')
  let places := (Nat.toDigits 10 doubleBound).length
  let size : Int := digits.length + exponent
  if digits.isEmpty || size < places then false
  else if size > places then true
  else
    let n := valueOf 10 digits
    doubleBound * Nat.pow 10 (-exponent).toNat ≤ n * Nat.pow 10 exponent.toNat

/-- A number in base ten, with or without a fraction and an exponent. -/
def readDecimal (negative : Bool) : Read Value := fun cs => do
  let (whole, rest) ← readWhole cs
  let (fraction, rest) ← readFraction rest
  let (exponent, rest) ← readExponent rest
  if fraction.isNone ∧ exponent.isNone then
    let n : Int := valueOf 10 whole
    return (← integerOf (if negative then -n else n), rest)
  else
    let digits := fraction.getD []
    if !negative && overflows (whole ++ digits) (exponent.getD 0 - digits.length) then
      .error .outOfRange
    else return (.float, rest)

/-- A number. -/
def readNumber : Read Value
  | '0' :: 'x' :: rest => readInBase 16 rest
  | '0' :: 'o' :: rest => readInBase 8 rest
  | '0' :: 'b' :: rest => readInBase 2 rest
  | cs =>
    match splitSign cs with
    | (_, 'i' :: 'n' :: 'f' :: rest) => .ok (.float, rest)
    | (_, 'n' :: 'a' :: 'n' :: rest) => .ok (.float, rest)
    | (negative, rest) => readDecimal negative rest

/-- A number of exactly `count` digits between two bounds. -/
def fixedDigits? (count lo hi : Nat) (cs : List Char) : Option (Nat × List Char) :=
  let digits := cs.take count
  let n := valueOf 10 digits
  if digits.length = count ∧ digits.all Char.isDigit ∧ lo ≤ n ∧ n ≤ hi then
    some (n, cs.drop count)
  else none

/-- The rest behind a character. -/
def after? (c : Char) : List Char → Option (List Char)
  | d :: rest => if d = c then some rest else none
  | [] => none

/-- The number of days of a month. -/
def daysIn (year month : Nat) : Nat :=
  if month = 2 then
    if year % 4 = 0 ∧ (year % 100 ≠ 0 ∨ year % 400 = 0) then 29 else 28
  else if [4, 6, 9, 11].contains month then 30
  else 31

/-- The rest behind a date. -/
def afterDate? (cs : List Char) : Option (List Char) := do
  let (year, cs) ← fixedDigits? 4 0 9999 cs
  let cs ← after? '-' cs
  let (month, cs) ← fixedDigits? 2 1 12 cs
  let cs ← after? '-' cs
  let (_, cs) ← fixedDigits? 2 1 (daysIn year month) cs
  return cs

/-- The rest behind the hours and minutes of a time. -/
def afterMinutes? (cs : List Char) : Option (List Char) := do
  let (_, cs) ← fixedDigits? 2 0 23 cs
  let cs ← after? ':' cs
  let (_, cs) ← fixedDigits? 2 0 59 cs
  return cs

/-- The rest behind a time; a minute may have a leap second, and a second a fraction. -/
def afterTime? (cs : List Char) : Option (List Char) := do
  let cs ← afterMinutes? cs
  let cs ← after? ':' cs
  let (_, cs) ← fixedDigits? 2 0 60 cs
  match cs with
  | '.' :: d :: rest => return if d.isDigit then rest.dropWhile Char.isDigit else cs
  | _ => return cs

/-- The rest behind the offset of a time, if there is one. -/
def afterOffset (cs : List Char) : List Char :=
  match cs with
  | [] => []
  | c :: rest =>
    if c = 'Z' ∨ c = 'z' then rest
    else if c = '+' ∨ c = '-' then (afterMinutes? rest).getD cs
    else cs

/-- The rest behind a date, a time, or a date with a time. -/
def afterDateTime? (cs : List Char) : Option (List Char) :=
  match afterDate? cs with
  | none => afterTime? cs
  | some rest =>
    match rest with
    | [] => some []
    | c :: time =>
      if c = 'T' ∨ c = 't' ∨ c = ' ' then ((afterTime? time).map afterOffset).getD rest else rest

/-- A value that holds no other values. -/
def readScalar : Read Value := fun cs =>
  match cs with
  | [] => .error .unexpected
  | c :: _ =>
    if c = '"' ∨ c = '\'' then do
      let (s, rest) ← readString cs
      return (.string s, rest)
    else if c.isDigit ∨ c = '+' ∨ c = '-' ∨ c = 'i' ∨ c = 'n' then
      match afterDateTime? cs with
      | some rest => .ok (.datetime, rest)
      | none => readNumber cs
    else
      match cs with
      | 't' :: 'r' :: 'u' :: 'e' :: rest => .ok (.boolean true, rest)
      | 'f' :: 'a' :: 'l' :: 's' :: 'e' :: rest => .ok (.boolean false, rest)
      | _ => .error .unexpected

end StableFormat.Toml
