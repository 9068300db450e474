import StreamLexer.Toml.Text

/-!
# Tables of TOML

A document is a table of named nodes. Three kinds of tables can still be extended after their
first mention: those named by a header of their own, those that a longer header implies, and those
that the keys of values imply. Arrays and inline tables are closed values.

Each operation gives nothing where the document defines something twice or extends what is closed.
-/

set_option autoImplicit false

namespace StreamLexer.Toml

inductive TableKind where
  /-- Named by a header of its own. -/
  | header
  /-- Named only as part of a longer header. -/
  | implied
  /-- Named only in front of the last point of a key. -/
  | dotted
deriving DecidableEq, Repr

inductive Node where
  | string (value : String)
  | integer (value : Int)
  | float (text : String)
  | boolean (value : Bool)
  | dateTime (text : String)
  | array (items : List Node)
  | inlineTable (entries : List (String × Node))
  | table (kind : TableKind) (entries : List (String × Node))
  /-- The tables of an array of tables, the last one first. -/
  | tables (last : List (String × Node)) (earlier : List (List (String × Node)))

/-- The nodes of a table in the order of their first mention. -/
abbrev Entries : Type := List (String × Node)

namespace Entries

def get? (entries : Entries) (name : String) : Option Node :=
  List.lookup name entries

/-- Replaces the node of this name, or adds it behind all others. -/
def put (entries : Entries) (name : String) (node : Node) : Entries :=
  if (entries.get? name).isSome then
    entries.map fun entry => if entry.1 = name then (name, node) else entry
  else entries ++ [(name, node)]

/-- Adds a node under a key, through tables that keys or longer headers imply. Where the key has
more than one name, it has to end in a table that only keys imply. -/
def insert (path : List String) (name : String) (node : Node) (entries : Entries) :
    Option Entries :=
  match path with
  | [] => if (entries.get? name).isSome then none else some (entries.put name node)
  | step :: path =>
    match entries.get? step with
    | none => do
      let inner ← insert path name node []
      return entries.put step (.table .dotted inner)
    | some (.table .dotted inner) => do
      let inner ← insert path name node inner
      return entries.put step (.table .dotted inner)
    | some (.table .implied inner) => do
      if path.isEmpty then failure
      let inner ← insert path name node inner
      return entries.put step (.table .implied inner)
    | some (.tables last earlier) => do
      if path.isEmpty then failure
      let last ← insert path name node last
      return entries.put step (.tables last earlier)
    | some _ => none

/-- Edits the table at a path of headers, through any table and through the last table of an array
of tables. A table that is missing on the way is implied. -/
def editAt (path : List String) (edit : Entries → Option Entries) (entries : Entries) :
    Option Entries :=
  match path with
  | [] => edit entries
  | step :: path =>
    match entries.get? step with
    | none => do
      let inner ← editAt path edit []
      return entries.put step (.table .implied inner)
    | some (.table kind inner) => do
      let inner ← editAt path edit inner
      return entries.put step (.table kind inner)
    | some (.tables last earlier) => do
      let last ← editAt path edit last
      return entries.put step (.tables last earlier)
    | some _ => none

/-- The table of a header, which is new or was only implied by longer headers. -/
def openTable (key : Key) : Entries → Option Entries :=
  editAt key.path fun entries =>
    match entries.get? key.name with
    | none => some (entries.put key.name (.table .header []))
    | some (.table .implied inner) => some (entries.put key.name (.table .header inner))
    | some _ => none

/-- One more table of the array of tables of a header. -/
def openElement (key : Key) : Entries → Option Entries :=
  editAt key.path fun entries =>
    match entries.get? key.name with
    | none => some (entries.put key.name (.tables [] []))
    | some (.tables last earlier) => some (entries.put key.name (.tables [] (last :: earlier)))
    | some _ => none

end Entries

end StreamLexer.Toml
