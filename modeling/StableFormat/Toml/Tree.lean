import StableFormat.Toml.Value

/-!
# Tables under construction

Headers and dotted keys can add to a table in several places of a document, but a table that was
written out in one place is closed to the others. While a document is assembled, every table
therefore remembers how it came to be.
-/

namespace StableFormat.Toml

/-- A key with the keys of the tables that it is reached through. -/
structure Key where
  path : List String
  name : String
  deriving DecidableEq, Repr, Inhabited

/-- How a table came to be. -/
inductive Origin where
  /-- It was written out: by a header of its own, or as the document itself. -/
  | written
  /-- It stands on the way to the table of a header. -/
  | implied
  /-- It stands on the way to the value of a dotted key. -/
  | dotted
  deriving DecidableEq, Repr, Inhabited

/-- What stands under a key. -/
inductive Node where
  | value (v : Value)
  | table (origin : Origin) (entries : List (String × Node))
  /-- Tables that were written one after the other under headers with two brackets. -/
  | tables (elements : List (List (String × Node)))
  deriving Inhabited

/-- The entries of a table under construction. -/
abbrev Entries := List (String × Node)

namespace Entries

/-- Puts a node in the place of the one with its key. -/
def replace (entries : Entries) (key : String) (node : Node) : Entries :=
  entries.map fun entry => if entry.1 = key then (key, node) else entry

/-- Changes the table that a path leads to, from a table of the given origin on. Tables that are
missing on the way are made with the origin `made`; of tables in a row the last one is meant. A
dotted key does not lead into a table that was written out. -/
def modifyAt (made : Origin) (change : Origin → Entries → Except Error Entries) :
    (path : List String) → Origin → Entries → Except Error Entries
  | [], origin, entries => change origin entries
  | key :: path, _, entries =>
    match entries.lookup key with
    | none => do
      let inner ← modifyAt made change path made []
      return entries ++ [(key, .table made inner)]
    | some (.value _) => .error (.notATable key)
    | some (.tables elements) => do
      let inner ← modifyAt made change path .written (elements.getLast?.getD [])
      return entries.replace key (.tables (elements.dropLast ++ [inner]))
    | some (.table origin inner) =>
      if made = .dotted ∧ origin = .written then .error (.duplicateKey key)
      else do
        let inner ← modifyAt made change path origin inner
        return entries.replace key (.table origin inner)

/-- Adds a value to a table that was written out. A plain key belongs to a table that no dotted key
made, and a dotted key to one that a dotted key made. -/
def insert (key : Key) (v : Value) (entries : Entries) : Except Error Entries :=
  modifyAt .dotted
    (fun origin entries =>
      if (origin = .dotted ↔ key.path.isEmpty) ∨ (entries.lookup key.name).isSome then
        .error (.duplicateKey key.name)
      else .ok (entries ++ [(key.name, .value v)]))
    key.path .written entries

/-- Opens the table of a header. It must not have been written out yet. -/
def openTable (key : Key) (entries : Entries) : Except Error Entries :=
  modifyAt .implied
    (fun _ entries =>
      match entries.lookup key.name with
      | none => .ok (entries ++ [(key.name, .table .written [])])
      | some (.table .implied inner) => .ok (entries.replace key.name (.table .written inner))
      | some _ => .error (.duplicateKey key.name))
    key.path .written entries

/-- Opens one more table in a row of tables. -/
def openElement (key : Key) (entries : Entries) : Except Error Entries :=
  modifyAt .implied
    (fun _ entries =>
      match entries.lookup key.name with
      | none => .ok (entries ++ [(key.name, .tables [[]])])
      | some (.tables elements) => .ok (entries.replace key.name (.tables (elements ++ [[]])))
      | some _ => .error (.duplicateKey key.name))
    key.path .written entries

end Entries

mutual

/-- The finished value of a node. -/
def Node.toValue : Node → Value
  | .value v => v
  | .table _ entries => .table (Node.toTable entries)
  | .tables elements => .array (Node.toTables elements)

/-- The finished tables of a row. -/
def Node.toTables : List (List (String × Node)) → List Value
  | [] => []
  | element :: rest => .table (Node.toTable element) :: Node.toTables rest

/-- The finished table of entries. -/
def Node.toTable : List (String × Node) → Table
  | [] => []
  | (key, node) :: rest => (key, node.toValue) :: Node.toTable rest

end

end StableFormat.Toml
