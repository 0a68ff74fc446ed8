/-!
# Arguments of the command line

A command line is the name of a command and options in any order. Every option has a
value, given as `--name value`, `--name=value`, `-n value`, `-n=value` or `-nvalue`. A
value given as an argument of its own may not look like an option, though a lone dash
may stand for one. Options that are unknown, repeated, empty or badly typed, missing
ones and stray arguments are all misuse, which has no finer distinctions.
-/

namespace SchemaGate.CommandLine

/-- The options of all commands. -/
inductive Flag where
  /-- The file of stored types and fields. -/
  | graph
  /-- The identifier of a type. -/
  | type
  /-- The bound on nested references. -/
  | maxDepth
  /-- The file of interface parameters. -/
  | params
  /-- The file of a schema document. -/
  | schema
  /-- The file of a value. -/
  | value
  deriving DecidableEq, Repr

namespace Flag

/-- The long name, after two dashes. -/
def long : Flag → String
  | graph => "graph"
  | type => "type"
  | maxDepth => "max-depth"
  | params => "params"
  | schema => "schema"
  | value => "value"

/-- The short name, after one dash. -/
def short? : Flag → Option Char
  | graph => some 'g'
  | type => some 't'
  | maxDepth => none
  | params => some 'p'
  | schema => some 's'
  | value => some 'v'

end Flag

/-- The values of options, as given. -/
abbrev Settings := List (Flag × String)

/-- An option at the start of an argument, and the value attached to it, if any. -/
def option? (known : List Flag) (argument : List Char) : Option (Flag × Option (List Char)) :=
  match argument with
  | '-' :: '-' :: rest =>
    let name := rest.takeWhile (· != '=')
    let attached := match rest.dropWhile (· != '=') with
      | [] => none
      | _ :: text => some text
    (known.find? fun flag => flag.long.toList == name).map fun flag => (flag, attached)
  | '-' :: letter :: rest =>
    let attached := match rest with
      | [] => none
      | '=' :: text => some text
      | text => some text
    (known.find? fun flag => flag.short? == some letter).map fun flag => (flag, attached)
  | _ => none

/-- Whether an argument can be a value of its own. -/
def isValue (argument : List Char) : Bool :=
  match argument with
  | '-' :: _ :: _ => false
  | _ => true

/-- Add a setting; an option may be set once, and not to nothing. -/
def set (settings : Settings) (flag : Flag) (text : List Char) : Option Settings :=
  if text.isEmpty || settings.any (·.1 == flag) then none
  else some (settings ++ [(flag, String.ofList text)])

/-- The settings of a command with the given options. Two dashes end the options. -/
def settings? (known : List Flag) (settings : Settings) : List String → Option Settings
  | [] => some settings
  | "--" :: rest => if rest.isEmpty then some settings else none
  | argument :: rest =>
    match option? known argument.toList, rest with
    | some (flag, some text), rest => do
      settings? known (← set settings flag text) rest
    | some (flag, none), text :: rest =>
      if isValue text.toList then do
        settings? known (← set settings flag text.toList) rest
      else none
    | _, _ => none

/-- What the command line can be asked for. -/
inductive Command where
  /-- The schema of a type. -/
  | compile (graph : String) (type : Int64) (maxDepth : Option Nat)
  /-- The schemas of an interface. -/
  | interface (graph params : String)
  /-- Whether a value satisfies a schema, and its projection. -/
  | check (schema value : String)
  deriving DecidableEq, Repr

/-- The natural that digits spell, at least one of them. -/
def digits? (text : List Char) : Option Nat :=
  if text.isEmpty then none
  else text.foldlM (fun n c => if c.isDigit then some (n * 10 + (c.toNat - '0'.toNat)) else none) 0

/-- An integer of 64 bits with an optional sign. -/
def integer? (text : String) : Option Int64 := do
  let value : Int ← match text.toList with
    | '-' :: rest => (digits? rest).map fun n => -(n : Int)
    | '+' :: rest => (digits? rest).map Int.ofNat
    | rest => (digits? rest).map Int.ofNat
  if Int64.minValue.toInt ≤ value ∧ value ≤ Int64.maxValue.toInt then some (Int64.ofInt value)
  else none

/-- A natural of 64 bits with an optional plus sign. -/
def natural? (text : String) : Option Nat := do
  let value ← match text.toList with
    | '+' :: rest => digits? rest
    | rest => digits? rest
  if value < UInt64.size then some value else none

namespace Settings

/-- The value of an option. -/
def get? (settings : Settings) (flag : Flag) : Option String :=
  (settings.find? (·.1 == flag)).map Prod.snd

/-- The value of an option that may be missing but not be badly typed. -/
def optional {α : Type} (settings : Settings) (flag : Flag) (read : String → Option α) :
    Option (Option α) :=
  match settings.get? flag with
  | none => some none
  | some text => (read text).map some

end Settings

/-- The command that arguments spell; none is misuse. -/
def command? : List String → Option Command
  | "compile" :: rest => do
    let settings ← settings? [.graph, .type, .maxDepth] [] rest
    let graph ← Settings.get? settings .graph
    let type ← integer? (← Settings.get? settings .type)
    let maxDepth ← Settings.optional settings .maxDepth natural?
    return .compile graph type maxDepth
  | "interface" :: rest => do
    let settings ← settings? [.graph, .params] [] rest
    return .interface (← Settings.get? settings .graph) (← Settings.get? settings .params)
  | "check" :: rest => do
    let settings ← settings? [.schema, .value] [] rest
    return .check (← Settings.get? settings .schema) (← Settings.get? settings .value)
  | _ => none

example : command? ["compile", "-tg=-5", "--graph=g"] = none := by decide +kernel

example : command? ["compile", "-t-5", "--graph=g"] = some (.compile "g" (-5) none) := by
  decide +kernel

end SchemaGate.CommandLine
