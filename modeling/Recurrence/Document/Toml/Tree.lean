import Recurrence.Document.Value

/-!
# Tables under construction

A TOML document defines its tables piece by piece: by headers, by dotted keys, and by
headers of tables inside of them. Nothing may be defined twice, so while a document is
read each table remembers how it came into being.

A table that only a longer header mentions may still get a header of its own, or more
keys from dotted keys, but not first the keys and then the header. A table that dotted
keys have touched may get more keys the same way, and tables inside of it may get
headers. A table with a header takes keys below that header only, and a value in braces
takes none at all.
-/

namespace Recurrence.Toml

/-- How a table came into being. -/
inductive Standing where
  /-- A longer header mentions it. -/
  | implied
  /-- A dotted key leads to it or through it. -/
  | dotted
  /-- It has a header. -/
  | headed
deriving DecidableEq

/-- What a key stands for while the document is read. -/
inductive Node where
  /-- A value behind an equals sign. -/
  | leaf (value : Value)
  /-- A table. -/
  | table (standing : Standing) (entries : List (String × Node))
  /-- A sequence of tables with the same header, the last one first. -/
  | series (tables : List (List (String × Node)))

/-- The entries of a table under construction. -/
abbrev Entries := List (String × Node)

namespace Entries

/-- What a key stands for. -/
def find? (entries : Entries) (key : String) : Option Node :=
  (List.find? (fun entry => entry.1 = key) entries).map (·.2)

/-- Gives a key that is already there a new meaning. -/
def replace (entries : Entries) (key : String) (node : Node) : Entries :=
  entries.map fun entry => if entry.1 = key then (key, node) else entry

/-- Adds a key, which must be new. -/
def insert? (entries : Entries) (key : String) (node : Node) : Option Entries :=
  match entries.find? key with
  | none => some (entries ++ [(key, node)])
  | some _ => none

/--
Changes the table that the keys of a header lead to. Tables on the way come into being
if they are not there; a sequence of tables stands for its last one.
-/
def alongHeader (edit : Entries → Option Entries) : List String → Entries → Option Entries
  | [], entries => edit entries
  | key :: path, entries =>
      match entries.find? key with
      | none => do
          let inner ← alongHeader edit path []
          return entries ++ [(key, .table .implied inner)]
      | some (.table standing inner) => do
          let inner ← alongHeader edit path inner
          return entries.replace key (.table standing inner)
      | some (.series (last :: earlier)) => do
          let last ← alongHeader edit path last
          return entries.replace key (.series (last :: earlier))
      | some _ => none

/--
Changes the table that the front of a dotted key leads to. Tables on the way must not
have a header, and from now on they count as made by dotted keys. A sequence of tables
stands for its last one, which has a header and so is passed through only.
-/
def alongKey (edit : Entries → Option Entries) : List String → Entries → Option Entries
  | [], entries => edit entries
  | key :: path, entries =>
      match entries.find? key with
      | none => do
          let inner ← alongKey edit path []
          return entries ++ [(key, .table .dotted inner)]
      | some (.table standing inner) =>
          if standing = .headed then none
          else do
            let inner ← alongKey edit path inner
            return entries.replace key (.table .dotted inner)
      | some (.series (last :: earlier)) =>
          if path = [] then none
          else do
            let last ← alongKey edit path last
            return entries.replace key (.series (last :: earlier))
      | some _ => none

/-- Gives a value to a dotted key. -/
def assign? (entries : Entries) (path : List String) (value : Value) : Option Entries :=
  match path.getLast? with
  | none => none
  | some key => alongKey (fun inner => inner.insert? key (.leaf value)) path.dropLast entries

/-- Gives a table its header. -/
def openTable? (entries : Entries) (path : List String) : Option Entries :=
  match path.getLast? with
  | none => none
  | some key =>
      alongHeader
        (fun inner =>
          match inner.find? key with
          | none => inner.insert? key (.table .headed [])
          | some (.table .implied entries) => some (inner.replace key (.table .headed entries))
          | some _ => none)
        path.dropLast entries

/-- Adds a table to a sequence of tables. -/
def openNext? (entries : Entries) (path : List String) : Option Entries :=
  match path.getLast? with
  | none => none
  | some key =>
      alongHeader
        (fun inner =>
          match inner.find? key with
          | none => inner.insert? key (.series [[]])
          | some (.series tables) => some (inner.replace key (.series ([] :: tables)))
          | some _ => none)
        path.dropLast entries

end Entries

mutual

/-- The value that a key stands for at the end. -/
def Node.toValue : Node → Value
  | .leaf value => value
  | .table _ entries => .table (entryValues entries)
  | .series tables => .list (tableValues tables).reverse

/-- The entries of a finished table. -/
def entryValues : List (String × Node) → List (Quoted × Value)
  | [] => []
  | (key, node) :: entries => (some key, node.toValue) :: entryValues entries

/-- The tables of a finished sequence. -/
def tableValues : List (List (String × Node)) → List Value
  | [] => []
  | entries :: tables => .table (entryValues entries) :: tableValues tables

end

end Recurrence.Toml
