import StableFormat.Toml.Value

/-!
# Fields of records

How settings are taken from the values of a document. Unknown keys do not matter; a value of the
wrong kind is an error.
-/

namespace StableFormat.Toml

/-- The fields of a record by name. -/
abbrev Fields := String → Option Value

/-- The fields of a table. -/
def Table.fields (t : Table) : Fields :=
  (t.lookup ·)

namespace Value

/-- A record with fields of the given names: a table, or an array of the fields in that order. -/
def record (names : List String) : Value → Except Error Fields
  | table entries => .ok (Table.fields entries)
  | array elements => .ok (Table.fields (names.zip elements))
  | _ => .error (.wrongType "a table")

/-- A text. -/
def asString : Value → Except Error String
  | string s => .ok s
  | _ => .error (.wrongType "a string")

/-- A truth value. -/
def asBool : Value → Except Error Bool
  | boolean b => .ok b
  | _ => .error (.wrongType "a boolean")

/-- A natural number below a bound. -/
def asNatBelow (bound : Nat) : Value → Except Error Nat
  | integer n => if 0 ≤ n ∧ n < bound then .ok n.toNat else .error .outOfRange
  | _ => .error (.wrongType "an integer")

/-- A natural number; integers have no more than 64 bits anyway. -/
def asNat : Value → Except Error Nat :=
  asNatBelow (Nat.pow 2 64)

/-- The elements of an array, each of the same kind. -/
def asList {α : Type} (element : Value → Except Error α) : Value → Except Error (List α)
  | array elements => elements.mapM element
  | _ => .error (.wrongType "an array")

/-- A table without entries. -/
def isEmptyTable : Value → Bool
  | table [] => true
  | _ => false

/-- A table or an array without anything in it. -/
def isVacant : Value → Bool
  | table [] | array [] => true
  | _ => false

/-- One of several names: a string, or a table with the name as its only key and a value under it
that counts as nothing. -/
def asName {α : Type} (ofName? : String → Option α) (isNothing : Value → Bool) (v : Value) :
    Except Error α :=
  let named (name : String) : Except Error α :=
    match ofName? name with
    | some a => .ok a
    | none => .error (.unknownName name)
  match v with
  | string name => named name
  | table [(name, inner)] => if isNothing inner then named name else .error (.wrongType "a name")
  | _ => .error (.wrongType "a name")

end Value

namespace Fields

/-- A field that may be missing. -/
def optional {α : Type} (fields : Fields) (name : String) (kind : Value → Except Error α) :
    Except Error (Option α) :=
  match fields name with
  | none => .ok none
  | some v => (kind v).map some

/-- A field with a value for the case that it is missing. -/
def orElse {α : Type} (fields : Fields) (name : String) (kind : Value → Except Error α)
    (default : α) : Except Error α :=
  (fields.optional name kind).map (·.getD default)

/-- A field that has to be there. -/
def required {α : Type} (fields : Fields) (name : String) (kind : Value → Except Error α) :
    Except Error α :=
  match fields name with
  | none => .error (.missingField name)
  | some v => kind v

/-- A list of texts; empty if it is missing. -/
def strings (fields : Fields) (name : String) : Except Error (List String) :=
  fields.orElse name (Value.asList Value.asString) []

end Fields

end StableFormat.Toml
