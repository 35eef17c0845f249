import InputGuard.Config.Basic
import InputGuard.Json.Decode

/-! Settings as JSON. Reading fills in defaults and refuses unknown names; it does
not check the values. -/

namespace InputGuard.Config

open Json (Decoder Fields)

def ofJson : Decoder Config := fun depth j => do
  let f ← Fields.of? (Key.all.map Key.name) true depth j
  let get (k : Key) := f.optional k.name (({} : Config).get k) Json.asText
  some ⟨← get .modelDirective, ← get .inputPath, ← get .errorType, ← get .createResolverId,
    ← get .updateResolverId⟩

def toJson (c : Config) : Json := .record (Key.all.map fun k => (k.name, .text (c.get k)))

end InputGuard.Config
