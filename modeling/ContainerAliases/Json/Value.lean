import ContainerAliases.Json.Fault

namespace ContainerAliases.Json

inductive Value where
  | null
  | boolean (b : Bool)
  | integer (n : Int)
  | float (f : Float)
  | string (s : String)
  | list (elements : List Value)
  | object (members : List (String × Value))
  deriving Inhabited

namespace Value

def found : Value → Found
  | null => .null
  | boolean b => .boolean b
  | integer n => .integer n
  | float f => .float f
  | string s => .string s
  | list _ => .sequence
  | object _ => .map

def text : Value → Except Problem String
  | string s => .ok s
  | v => .error (.wrongType v.found "a string")

def texts : Value → Except Problem (List String)
  | list vs => vs.mapM text
  | v => .error (.wrongType v.found "a sequence")

end Value

end ContainerAliases.Json
