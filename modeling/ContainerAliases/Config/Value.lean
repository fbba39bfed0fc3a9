import ContainerAliases.Config.Basic
import ContainerAliases.Json.Value

namespace ContainerAliases.Config

open Json

def ofMembers (c : Config) : List (String × Value) → Except Problem Config
  | [] => .ok c
  | (name, v) :: rest => do
    match Field.ofName? name with
    | none => ofMembers c rest
    | some f => ofMembers (← c.replace v.text v.texts f) rest

def ofElements (c : Config) : List Field → List Value → Except Problem Config
  | f :: fs, v :: vs => do ofElements (← c.replace v.text v.texts f) fs vs
  | _, [] => .ok c
  | [], vs => .error (.tooLong (Field.all.length + vs.length))

def ofValue : Value → Except Problem Config
  | .object members => ofMembers standard members
  | .list vs => ofElements standard Field.all vs
  | v => .error (.wrongType v.found expected)

end ContainerAliases.Config
