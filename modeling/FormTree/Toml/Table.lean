import FormTree.Entries
import FormTree.Json

/-!
The tables of a TOML document while it is read. A table may be opened by one
header only, and what a header or a value has defined is not defined again;
dotted keys go through tables that no header has opened.
-/

namespace FormTree.Toml

/-- How a table came about: by its own header, by a longer header, or by a
dotted key. -/
inductive Origin where
  | header
  | implied
  | dotted
deriving DecidableEq, Repr

/-- A value that is complete, a table, or a list of tables of which the last is
open. -/
inductive Node where
  | value (v : Json)
  | table (origin : Origin) (entries : List (String × Node))
  | tables (earlier : List (List (String × Node))) (last : List (String × Node))

abbrev Table := List (String × Node)

namespace Table

/-- Changes the table that a header names, from the first table on. Tables on
the way that are not there yet are made. -/
def at? (f : Table → Option Table) : List String → Table → Option Table
  | [], t => f t
  | k :: rest, t =>
    match t.lookup k with
    | none => (at? f rest []).map fun e => Entries.put k (.table .implied e) t
    | some (.table origin e) =>
      (at? f rest e).map fun e => Entries.put k (.table origin e) t
    | some (.tables earlier last) =>
      (at? f rest last).map fun e => Entries.put k (.tables earlier e) t
    | some (.value _) => none

def open? (k : String) (t : Table) : Option Table :=
  match t.lookup k with
  | none => some (Entries.put k (.table .header []) t)
  | some (.table .implied e) => some (Entries.put k (.table .header e) t)
  | _ => none

def append? (k : String) (t : Table) : Option Table :=
  match t.lookup k with
  | none => some (Entries.put k (.tables [] []) t)
  | some (.tables earlier last) => some (Entries.put k (.tables (earlier ++ [last]) []) t)
  | _ => none

def define? (v : Json) : List String → Table → Option Table
  | [], _ => none
  | [k], t => if (t.lookup k).isNone then some (Entries.put k (.value v) t) else none
  | k :: rest, t =>
    match t.lookup k with
    | none => (define? v rest []).map fun e => Entries.put k (.table .dotted e) t
    | some (.table .header _) => none
    | some (.table origin e) =>
      (define? v rest e).map fun e => Entries.put k (.table origin e) t
    | _ => none

end Table

mutual

def Node.toJson : Node → Json
  | .value v => v
  | .table _ entries => .object (Table.membersOf entries)
  | .tables earlier last =>
    .array (Table.listed earlier ++ [.object (Table.membersOf last)])

def Table.membersOf : List (String × Node) → List (String × Json)
  | [] => []
  | (k, n) :: rest => (k, n.toJson) :: Table.membersOf rest

def Table.listed : List (List (String × Node)) → List Json
  | [] => []
  | t :: rest => .object (Table.membersOf t) :: Table.listed rest

end

def Table.toJson (t : Table) : Json := .object (Table.membersOf t)

end FormTree.Toml
