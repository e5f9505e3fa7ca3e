import ExprLang.Toml.Parser
import Std.Data.HashSet

/-! The tables that a document defines. Nothing is defined twice: a table that exists only because
something inside it was named may still be given its own header, once. -/

namespace ExprLang.Toml

/-- What a key stands for. -/
inductive Node where
  | value (v : Value)
  | table (entries : List (Text × Node))
  | tables (items : List (List (Text × Node)))

abbrev Entries := List (Text × Node)

namespace Entries

def set (es : Entries) (name : Text) (n : Node) : Entries :=
  es.map fun (name', n') => if name' = name then (name, n) else (name', n')

/-- Gives a name to a node, whatever it stood for. -/
def put (es : Entries) (name : Text) (n : Node) : Entries :=
  if (es.lookup name).isSome then es.set name n else es ++ [(name, n)]

/-- Changes the table under a path. Tables missing on the way are made; in a list of tables the last
one counts; a plain value has nothing inside. -/
def modifyAt (f : Entries → Option Entries) : Key → Entries → Option Entries
  | [], es => f es
  | name :: path, es =>
    match es.lookup name with
    | none => (modifyAt f path []).map fun inner => es ++ [(name, .table inner)]
    | some (.table inner) => (modifyAt f path inner).map fun inner => es.set name (.table inner)
    | some (.tables items) =>
      (modifyAt f path (items.getLast?.getD [])).map fun inner =>
        es.set name (.tables (items.dropLast ++ [inner]))
    | some (.value _) => none

/-- How many parts of a path, from the outside in, stand for something. -/
def reach (es : Entries) : Key → Nat
  | [] => 0
  | name :: path =>
    match es.lookup name with
    | none => 0
    | some (.table inner) => reach inner path + 1
    | some (.tables items) => reach (items.getLast?.getD []) path + 1
    | some (.value _) => path.length + 1

/-- The beginnings of a path that stand for nothing yet. -/
def missing (es : Entries) (path : Key) : List Key :=
  ((List.range path.length).drop (es.reach path)).map fun n => path.take (n + 1)

def defines (es : Entries) : Key → Bool
  | [] => true
  | name :: path =>
    match es.lookup name with
    | none => false
    | some (.table inner) => defines inner path
    | some (.tables items) => defines (items.getLast?.getD []) path
    | some (.value _) => path.isEmpty

end Entries

/-- The tables defined so far. -/
structure Builder where
  root : Entries := []
  /-- The table that assignments go into. -/
  context : Key := []
  /-- Tables that were only named on the way to something inside them. -/
  implicit : Std.HashSet Key := {}
  /-- Keys whose value is an array. -/
  arrays : Std.HashSet Key := {}
  /-- All keys in the order in which they were written. -/
  keys : Array Key := #[]

namespace Builder

def addImplicit (b : Builder) (key : Key) : Builder :=
  { b with implicit := b.implicit.insert key }

/-- Defines a name in the current table. A table that was only named before is now defined, and keeps
what it holds. -/
def define? (b : Builder) (name : Text) (n : Node) : Option Builder :=
  let key := b.context ++ [name]
  let isImplicit := b.implicit.contains key
  let root := b.root.modifyAt (fun es =>
    match es.lookup name with
    | none => some (es ++ [(name, n)])
    | some _ =>
      if !isImplicit then none
      else if b.arrays.contains key then some (es.set name n)
      else some es) b.context
  let implicit := if b.root.defines key then b.implicit.erase key else b.implicit
  root.map fun root => { b with root, implicit }

/-- Opens the table of a key, or another one in its list of tables. -/
def openTable? (b : Builder) (key : Key) (inList : Bool) : Option Builder :=
  let parent := key.dropLast
  let name := key.getLast?.getD []
  let b := { b with implicit := b.implicit.insertMany (b.root.missing parent) }
  let opened :=
    if inList then
      (b.root.modifyAt (fun es =>
        match es.lookup name with
        | none => some (es ++ [(name, .tables [[]])])
        | some (.tables items) => some (es.set name (.tables (items ++ [[]])))
        | some _ => none) parent).map fun root => { b with root }
    else
      (b.root.modifyAt some parent).bind fun root =>
        define? { b with root, context := parent } name (.table [])
  opened.map fun b => { b with context := key }

/-- Opens the tables on the way to a dotted key, one inside the other. -/
def openPath? (b : Builder) : Key → Option Builder
  | [] => some b
  | name :: path =>
    let key := b.context ++ [name]
    ((b.addImplicit key).openTable? key false).bind fun b => b.openPath? path

def noteKey (b : Builder) (key : Key) (isArray : Bool) : Builder :=
  { b with arrays := if isArray then b.arrays.insert key else b.arrays.erase key }

/-- Remembers whether a name in the current table has an array for its value. An empty name speaks
for the table itself. -/
def note (b : Builder) (name : Text) (isArray : Bool) : Builder :=
  b.noteKey (if name.isEmpty && !b.context.isEmpty then b.context else b.context ++ [name]) isArray

mutual

/-- Defines what is inside a value that is about to get a name, and tells what the name stands for. -/
def visit? (b : Builder) (name : Text) (inList : Bool) : Value → Option (Node × Builder)
  | .array items =>
    (visitItems? (b.note name true) name items).map fun b => (.value (.array items), b)
  | .table entries =>
    let key := b.context ++ [name]
    let visited := ((b.addImplicit key).openTable? key inList).bind fun inner =>
      visitEntries? inner key [] entries
    visited.map fun (written, after) => (.table written, { after with context := b.context })
  | v => some (.value v, b)

def visitItems? (b : Builder) (name : Text) : List Value → Option Builder
  | [] => some b
  | v :: more => (visit? b name true v).bind fun (_, b) => visitItems? b name more

/-- Makes the assignments of an inline table in its own context. They have to fit together in the
table as it is `written`, too, and there the last one counts. -/
def visitEntries? (b : Builder) (context : Key) (written : Entries) :
    List (Key × Value) → Option (Entries × Builder)
  | [] => some (written, b)
  | (key, v) :: more =>
    let name := key.getLast?.getD []
    let assigned := (b.openPath? key.dropLast).bind fun b =>
      let b := { b with keys := b.keys.push (b.context ++ [name]) }
      (visit? b name false v).bind fun (n, b) => (b.define? name n).map fun b => (n, b.note name v.isArray)
    assigned.bind fun (n, b) =>
      (written.modifyAt (fun es => some (es.put name n)) key.dropLast).bind fun written =>
        visitEntries? { b with context } context written more

end

def assign? (b : Builder) (key : Key) (v : Value) : Option Builder :=
  (visitEntries? b b.context [] [(key, v)]).map Prod.snd

/-- Opens the table of a header. -/
def enter? (b : Builder) (key : Key) (inList : Bool) : Option Builder :=
  (b.openTable? key inList).map fun b => { b.noteKey key false with keys := b.keys.push key }

def statement? (b : Builder) : Statement → Option Builder
  | .header key => b.enter? key false
  | .arrayHeader key => b.enter? key true
  | .assign key v => b.assign? key v

end Builder

/-- A document: its tables, and its keys in the order in which they were written. -/
structure Document where
  root : Entries
  keys : List Key

/-- The document that a text holds, if it holds one. -/
def Document.read? (t : Text) : Option Document :=
  (statements? t).bind fun statements =>
    (statements.foldlM Builder.statement? {}).map fun b => ⟨b.root, b.keys.toList⟩

end ExprLang.Toml
