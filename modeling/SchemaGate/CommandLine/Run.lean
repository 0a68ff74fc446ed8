import SchemaGate.Catalog.CallSchemas
import SchemaGate.CommandLine.Arguments
import SchemaGate.CommandLine.Files
import SchemaGate.Json.Parser
import SchemaGate.Json.Printer
import SchemaGate.Schema.Checker
import SchemaGate.Schema.Pruning

/-!
# Running the command line

A command reads its files in order, decodes each one before it reads the next, and
prints one document on lines with sorted keys. What goes wrong is told with its context
first and its cause indented below it. Files come from a function, so a run is a
function of the arguments and the files.
-/

namespace SchemaGate.CommandLine

/-- Why a command failed. -/
inductive Failure where
  /-- A file could not be read. -/
  | unreadable (path : String)
  /-- A file holds no document. -/
  | unparsable (path : String)
  /-- A document has the wrong shape for what it should hold. -/
  | shape (context : String) (fault : ShapeFault)
  /-- A type has no schema. -/
  | compile (id : TypeId) (error : UnfoldError)
  /-- An interface has no schemas. -/
  | interface (error : UnfoldError)
  /-- A document is no schema. -/
  | schema (fault : SchemaFault)

namespace Failure

/-- What the failure is about, and its cause if it is told apart. -/
def parts : Failure → String × Option String
  | unreadable path => ("reading " ++ path, none)
  | unparsable path => ("parsing " ++ path, none)
  | shape context fault => (context, some fault.message)
  | compile id error => ("compiling " ++ id.display, some error.message)
  | interface error => (error.message, none)
  | schema fault => (fault.message, some fault.cause.message)

/-- Whether the failure lies in reading or parsing a file. -/
def isAboutFile : Failure → Bool
  | unreadable _ => true
  | unparsable _ => true
  | _ => false

/-- Text with every line after the first indented like the first one of a cause. -/
def indentLines (text : String) : String :=
  String.ofList (text.toList.flatMap fun c =>
    if c = '\n' then ['\n', ' ', ' ', ' ', ' '] else [c])

/-- The report of a failure, without a final line break. -/
def report (failure : Failure) : String :=
  match failure.parts with
  | (context, none) => "Error: " ++ context
  | (context, some cause) => "Error: " ++ context ++ "\n\nCaused by:\n    " ++ indentLines cause

end Failure

/-- The document in a file, in normal form. -/
def readDocument (files : Files) (path : String) : Except Failure Json :=
  match files path with
  | none => .error (.unreadable path)
  | some text =>
    match Json.ofText? text with
    | none => .error (.unparsable path)
    | some value => .ok value

/-- A record in a file. -/
def readRecord {α : Type} (files : Files) (path context : String) (reader : Reader α) :
    Except Failure α := do
  let value ← readDocument files path
  match reader.ofJson value with
  | .ok record => return record
  | .error (.shape fault) => throw (.shape (context ++ " file " ++ path) fault)
  | .error .malformed => throw (.unparsable path)

/-- The catalog in a file. -/
def readCatalog (files : Files) (path : String) : Except Failure Catalog :=
  Catalog.ofRecords <$> readRecord files path "graph" StoredRecords.reader

/-- What is told of a value: what a schema keeps of it, whether the schema admits it, and
if not, where and why. -/
def verdict (schema : Schema) (value : Json) : Json :=
  let after := Checker.run {} schema.numbered value
  let objection := match after.violation with
    | none => []
    | some violation =>
      [("path", Json.string violation.path), ("reason", .string violation.reason.message)]
  .object (("satisfies", .bool after.passed) :: objection
    ++ [("filtered", prune (some schema) value)])

/-- The document that a command prints. -/
def Command.document (files : Files) : Command → Except Failure Json
  | .compile graph type maxDepth => do
    let catalog ← readCatalog files graph
    match catalog.schemaOf (maxDepth.getD defaultLimit) ⟨type⟩ with
    | .ok schema => return schema.toDocument
    | .error error => throw (.compile ⟨type⟩ error)
  | .interface graph params => do
    let catalog ← readCatalog files graph
    let params ← readRecord files params "parameter" Parameter.reader.list
    match catalog.callSchemas params with
    | .ok schemas => return schemas.toDocument
    | .error error => throw (.interface error)
  | .check schema value => do
    let document ← readDocument files schema
    match Schema.ofJson document with
    | .error fault => throw (.schema fault)
    | .ok schema => return verdict schema (← readDocument files value)

/-- What a run of the program ends with. -/
inductive Outcome where
  /-- The arguments spell no command. -/
  | misuse
  /-- The text that is printed. -/
  | success (output : String)
  /-- Nothing is printed but a report. -/
  | failure (failure : Failure)

/-- The exit code of an outcome. -/
def Outcome.code : Outcome → Nat
  | .misuse => 2
  | .success _ => 0
  | .failure _ => 1

/-- Run the program. -/
def run (files : Files) (arguments : List String) : Outcome :=
  match command? arguments with
  | none => .misuse
  | some command =>
    match command.document files with
    | .ok document => .success (document.sorted.pretty ++ "\n")
    | .error failure => .failure failure

/-- The files that a command may read. -/
def Command.paths : Command → List String
  | .compile graph _ _ => [graph]
  | .interface graph params => [graph, params]
  | .check schema value => [schema, value]

end SchemaGate.CommandLine
