import SchemaGate.Catalog.CallSchemas

/-!
# Tools

A tool is described by its name, a text, the schema that must admit its arguments and
the schema that responses are pruned to, if there is one. The tool of an interface has
no output schema when no output parameter is left to describe.
-/

namespace SchemaGate

/-- The description of a callable tool. -/
structure Tool where
  /-- The name under which it is called. -/
  name : String
  /-- Free text. -/
  description : String := ""
  /-- What arguments must be like. -/
  input : NumberedSchema
  /-- What responses are pruned to. -/
  output : Option NumberedSchema := none

namespace Tool

/-- The document of a tool. -/
def toDocument (tool : Tool) : Json := .object [
  ("name", .string tool.name), ("description", .string tool.description),
  ("input", tool.input.toDocument),
  ("output", (tool.output.map Node.toDocument).getD .null)]

/-- The tool of an interface, given its parameters. -/
def ofParameters (catalog : Catalog) (name description : String) (params : List Parameter) :
    Except UnfoldError Tool := do
  let schemas ← catalog.callSchemas params
  return {
    name, description
    input := schemas.input.numbered
    output := if schemas.output.properties.isEmpty then none else some schemas.output.numbered }

end Tool

end SchemaGate
