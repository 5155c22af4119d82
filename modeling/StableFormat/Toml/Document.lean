import StableFormat.Toml.Statement

/-!
# TOML documents

The table of a document: every header opens a table, and the keys behind it belong to that table.
-/

namespace StableFormat.Toml

/-- A document under construction, and the path to the table that was opened last. -/
structure Draft where
  entries : Entries := []
  opened : List String := []

namespace Draft

/-- Adds a statement to a document. -/
def add (draft : Draft) : Statement → Except Error Draft
  | .entry key v => do
    let entries ←
      Entries.modifyAt .implied (fun _ table => table.insert key v) draft.opened .written
        draft.entries
    return { draft with entries }
  | .table key => do
    return ⟨← draft.entries.openTable key, key.path ++ [key.name]⟩
  | .element key => do
    return ⟨← draft.entries.openElement key, key.path ++ [key.name]⟩

end Draft

/-- Reads a document. A byte order mark at its start does not count. -/
def read (text : String) : Except Error Table := do
  let cs :=
    match text.toList with
    | '\uFEFF' :: rest => rest
    | cs => cs
  let statements ← readStatements (cs.length + 1) [] cs
  let draft ← statements.foldlM Draft.add { }
  return Node.toTable draft.entries

end StableFormat.Toml
