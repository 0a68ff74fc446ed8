import SchemaGate.Catalog.Unfolding
import SchemaGate.Schema.Document

/-!
# Schemas of calls

An interface has one object schema for its arguments and one for its response, each
over the parameters of that side in their order. Parameters that are supplied on the
callers' behalf are left out.
-/

namespace SchemaGate

/-- Both schemas of an interface. -/
structure CallSchemas where
  /-- What callers must send. -/
  input : Schema
  /-- The shape of the response. -/
  output : Schema

/-- The document of both schemas. -/
def CallSchemas.toDocument (schemas : CallSchemas) : Json :=
  .object [("input", schemas.input.toDocument), ("output", schemas.output.toDocument)]

/-- The parameters of a side that callers see. -/
def Side.visible (side : Side) (params : List Parameter) : List Parameter :=
  params.filter fun param => param.side == side && !param.isSupplied

theorem Side.mem_visible_iff {side : Side} {params : List Parameter} {param : Parameter} :
    param ∈ side.visible params ↔
      param ∈ params ∧ param.side = side ∧ param.isSupplied = false := by
  simp [visible]

namespace Catalog

/-- The schema of one side of an interface. -/
def sideSchema (catalog : Catalog) (params : List Parameter) (side : Side) :
    Except UnfoldError Schema :=
  Component.addAll (catalog.componentSchema {}) (Node.bare .object)
    ((side.visible params).map Parameter.component)

/-- Both schemas; an error of the arguments comes first. -/
def callSchemas (catalog : Catalog) (params : List Parameter) :
    Except UnfoldError CallSchemas := do
  let input ← catalog.sideSchema params .input
  let output ← catalog.sideSchema params .output
  return ⟨input, output⟩

end Catalog

end SchemaGate
