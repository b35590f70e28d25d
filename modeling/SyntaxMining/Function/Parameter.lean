import SyntaxMining.Schema.Scalar

/-!
# Parameters

A declared parameter has a name that is not empty and the text of its type when it has one.
-/

namespace SyntaxMining

/-- A declared parameter and the text of its type. -/
structure Parameter where
  name : String
  type : Option String
deriving DecidableEq, Repr

namespace Parameter

def ofJson : Json → Schema.Check Parameter :=
  Schema.ofRecord fun fields ↦
    Schema.Check.ap ((Schema.required "name" Schema.nonEmptyString fields).map Parameter.mk)
      (Schema.optional "type" none (Schema.nullable Schema.string) fields)

def toJson (parameter : Parameter) : Json :=
  .obj [("name", .str parameter.name), ("type", .ofOption .str parameter.type)]

end Parameter

end SyntaxMining
