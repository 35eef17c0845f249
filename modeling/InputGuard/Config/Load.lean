import InputGuard.Config.Error
import InputGuard.Toml.Reader

/-! Reading settings from a TOML document. Settings that are not named keep their
defaults; unknown and repeated names are refused before any value is looked at. -/

namespace InputGuard.Config

def keyed? (assignments : List (String × String)) : Option (List (Key × String)) := do
  let pairs ← assignments.mapM fun (name, value) => (·, value) <$> Key.ofName? name
  if (pairs.map Prod.fst).Nodup then some pairs else none

def override (c : Config) (pairs : List (Key × String)) : Config :=
  pairs.foldl (fun c p => c.set p.2 p.1) c

def ofToml (document : String) : Except Error Config :=
  match Toml.assignments? document.toList >>= keyed? with
  | none => .error .malformed
  | some pairs => (override {} pairs).check.mapError Error.ofProblem

end InputGuard.Config
