/-!
TOML values, and the tables that the lines of a document build. A table remembers how it was
written, since that decides what may still be added to it.
-/

namespace Extraction

inductive TableForm
  /-- In braces: nothing can be added. -/
  | inline
  /-- Under a header of its own. -/
  | header
  /-- On the way to the table of a longer header. -/
  | implicit
  /-- Through a dotted key. -/
  | dotted
deriving DecidableEq, Repr

inductive TomlValue
  | string (text : String)
  | integer (value : Int)
  | float (text : String)
  | boolean (value : Bool)
  | datetime (text : String)
  | array (elements : List TomlValue)
  /-- The tables under the headers in double brackets. -/
  | tables (elements : List TomlValue)
  | table (form : TableForm) (entries : List (String × TomlValue))
deriving Repr

/-- The entries of a table in the order in which their keys appeared. -/
abbrev TomlEntries := List (String × TomlValue)

namespace TomlEntries

def replace (key : String) (value : TomlValue) (entries : TomlEntries) : TomlEntries :=
  entries.map fun entry => if entry.1 == key then (key, value) else entry

/-- Adds a key below the tables of a dotted path. `here` tells that the key may stand in this
table itself, as it may in the table under the last header and in tables made by dotted keys. -/
def insert (key : String) (value : TomlValue) :
    List String → Bool → TomlEntries → Option TomlEntries
  | [], here, entries =>
      if here && (entries.lookup key).isNone then some (entries ++ [(key, value)]) else none
  | step :: path, _, entries =>
      match entries.lookup step with
      | none =>
          (insert key value path true []).map fun child =>
            entries ++ [(step, .table .dotted child)]
      | some (.table .dotted child) =>
          (insert key value path true child).map fun child =>
            entries.replace step (.table .dotted child)
      | some (.table .implicit child) =>
          (insert key value path false child).map fun child =>
            entries.replace step (.table .implicit child)
      | some (.tables elements) =>
          match elements.getLast? with
          | some (.table form child) =>
              (insert key value path false child).map fun child =>
                entries.replace step (.tables (elements.dropLast ++ [.table form child]))
          | _ => none
      | some _ => none

def update (change : TomlEntries → Option TomlEntries) :
    List String → TomlEntries → Option TomlEntries
  | [], entries => change entries
  | step :: path, entries =>
      match entries.lookup step with
      | none =>
          (update change path []).map fun child => entries ++ [(step, .table .implicit child)]
      | some (.table .inline _) => none
      | some (.table form child) =>
          (update change path child).map fun child => entries.replace step (.table form child)
      | some (.tables elements) =>
          match elements.getLast? with
          | some (.table form child) =>
              (update change path child).map fun child =>
                entries.replace step (.tables (elements.dropLast ++ [.table form child]))
          | _ => none
      | some _ => none

/-- The entries that a table under a new header starts with. A table that was only on the way to
others keeps what it has; any other table of that name is a duplicate. -/
def openTable (path : List String) (name : String) (root : TomlEntries) : Option TomlEntries :=
  match path, root with
  | [], entries =>
      match entries.lookup name with
      | none => some []
      | some (.table .implicit child) => some child
      | some _ => none
  | step :: path, entries =>
      match entries.lookup step with
      | none => some []
      | some (.table .inline _) => none
      | some (.table _ child) => openTable path name child
      | some (.tables elements) =>
          match elements.getLast? with
          | some (.table _ child) => openTable path name child
          | _ => none
      | some _ => none

def closeTable (path : List String) (name : String) (root table : TomlEntries) :
    Option TomlEntries :=
  root.update
    (fun entries =>
      match entries.lookup name with
      | none => some (entries ++ [(name, .table .header table)])
      | some _ => some (entries.replace name (.table .header table)))
    path

def closeElement (path : List String) (name : String) (root table : TomlEntries) :
    Option TomlEntries :=
  root.update
    (fun entries =>
      match entries.lookup name with
      | none => some (entries ++ [(name, .tables [.table .header table])])
      | some (.tables elements) =>
          some (entries.replace name (.tables (elements ++ [.table .header table])))
      | some _ => none)
    path

end TomlEntries

end Extraction
