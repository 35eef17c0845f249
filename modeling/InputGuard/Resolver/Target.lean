import InputGuard.Config.Basic

/-! The mutations whose templates receive the snippets of a type: its create and
its update mutation, in this order. -/

namespace InputGuard.Resolver

inductive Operation where
  | create
  | update
deriving DecidableEq

namespace Operation

def all : List Operation := [.create, .update]

def name : Operation → String
  | .create => "create"
  | .update => "update"

def ofName? (name : String) : Option Operation := all.find? (·.name = name)

/-- Name of the mutation field for a type. -/
def fieldName (o : Operation) (typeName : String) : String := o.name ++ typeName

/-- Name of the file for the mutation's request template. -/
def fileName (o : Operation) (typeName : String) : String :=
  "Mutation." ++ o.fieldName typeName ++ ".req.vtl"

def template (c : Config) : Operation → String
  | .create => c.createResolverId
  | .update => c.updateResolverId

/-- Logical id of the mutation's resolver for a type. -/
def id (c : Config) (o : Operation) (typeName : String) : String :=
  String.ofList (Text.fill typeName.toList (o.template c).toList)

end Operation

def targets (c : Config) (typeName : String) : List String :=
  Operation.all.map fun o => o.id c typeName

end InputGuard.Resolver
