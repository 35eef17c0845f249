/-! JSON values as they are written: members keep their order and may repeat,
numbers keep their literal. A string may hold escapes that leave half of a
surrogate pair alone; such a string has no text and is `none`. -/

namespace InputGuard

inductive Json where
  | null
  | bool (value : Bool)
  | number (literal : String)
  | string (text : Option String)
  | array (elements : List Json)
  | object (members : List (Option String × Json))
deriving Inhabited

namespace Json

def text (s : String) : Json := .string (some s)

/-- The object with the given members, in this order. -/
def record (members : List (String × Json)) : Json :=
  .object (members.map fun (k, v) => (some k, v))

mutual

/-- How many containers are open at once, at most. -/
def depth : Json → Nat
  | .null | .bool _ | .number _ | .string _ => 0
  | .array vs => 1 + depthOfElements vs
  | .object ms => 1 + depthOfMembers ms

def depthOfElements : List Json → Nat
  | [] => 0
  | v :: vs => max (depth v) (depthOfElements vs)

def depthOfMembers : List (Option String × Json) → Nat
  | [] => 0
  | (_, v) :: ms => max (depth v) (depthOfMembers ms)

end

end Json
end InputGuard
