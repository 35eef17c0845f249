import InputGuard.OrderedMap

/-! Resolver resources by their logical ids, in the order in which the ids first
appeared. -/

namespace InputGuard.Resolver

structure Resource where
  typeName : String
  fieldName : String
  request : String
  response : String := ""
deriving DecidableEq

abbrev Store := OrderedMap Resource

/-- A snippet in front of a template, with an empty line between them. -/
def prepend (template snippet : String) : String := snippet ++ "\n\n" ++ template

def Resource.prepend (r : Resource) (snippet : String) : Resource :=
  { r with request := Resolver.prepend r.request snippet }

end InputGuard.Resolver
