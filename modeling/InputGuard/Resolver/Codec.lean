import InputGuard.Json.Decode
import InputGuard.Json.Parser
import InputGuard.Json.Printer
import InputGuard.Resolver.Store
import InputGuard.Resolver.Target

/-! Resolver stores as JSON: an object of resources by id, in order. A repeated id
keeps its place and takes the last resource. -/

namespace InputGuard.Resolver

open Json (Decoder Fields)

namespace Resource

def ofJson : Decoder Resource := fun depth j => do
  let names := ["TypeName", "FieldName", "RequestMappingTemplate", "ResponseMappingTemplate"]
  let f ← Fields.of? names false depth j
  some ⟨← f.required "TypeName" Json.asText, ← f.required "FieldName" Json.asText,
    ← f.required "RequestMappingTemplate" Json.asText,
    ← f.optional "ResponseMappingTemplate" "" Json.asText⟩

def toJson (r : Resource) : Json :=
  .record [("TypeName", .text r.typeName), ("FieldName", .text r.fieldName),
    ("RequestMappingTemplate", .text r.request), ("ResponseMappingTemplate", .text r.response)]

end Resource

namespace Store

def ofJson : Decoder Store := fun depth j =>
  OrderedMap.ofList <$> Json.asEntries Resource.ofJson depth j

def toJson (s : Store) : Json := .record (s.entries.map fun (id, r) => (id, r.toJson))

/-- The store of a JSON text. -/
def ofText? (text : String) : Option Store := Json.ofText? text >>= Json.decode ofJson

def text (s : Store) : String := (toJson s).pretty

end Store

def Operation.ofJson : Decoder Operation := fun depth j =>
  Json.asName false depth j >>= Operation.ofName?

def Operation.toJson (o : Operation) : Json := .text o.name

end InputGuard.Resolver
