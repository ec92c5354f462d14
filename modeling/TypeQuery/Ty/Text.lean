import TypeQuery.Ty.Basic

/-!
# Types as text

The short form of a type that an editor shows: `number`, `string[]`, `number|string`,
`fun(x: number): string`.  The anonymous class of a table constructor is shown as `table`, and an
array of a union or of a function puts its element in brackets.
-/

namespace TypeQuery

/-- The type has to be bracketed as the element of an array. -/
def Ty.isCompound : Ty → Bool
  | .union _ | .function _ => true
  | _ => false

mutual

/-- The short form of a type. -/
def Ty.text (t : Ty) : String :=
  match t with
  | .unknown => "unknown"
  | .invalid => "invalid"
  | .nil => "nil"
  | .boolean => "boolean"
  | .number => "number"
  | .string => "string"
  | .object c => c.text
  | .array e => if e.isCompound then "(" ++ e.text ++ ")[]" else e.text ++ "[]"
  | .generic base params => base ++ "<" ++ String.intercalate ", " (Ty.texts params) ++ ">"
  | .function [] => "function"
  | .function signatures => String.intercalate " & " (Signature.texts signatures)
  | .union members => String.intercalate "|" (Ty.texts members)
termination_by structural t

/-- The name of a class, with its arguments if it has an argument list. -/
def ClassTy.text (c : ClassTy) : String :=
  match c with
  | ⟨_, .table _, params⟩ => "table" ++ Ty.argumentsText params
  | ⟨name, .declared, params⟩ => name ++ Ty.argumentsText params
  | ⟨name, .global, params⟩ => name ++ Ty.argumentsText params
termination_by structural c

/-- An argument list in angle brackets; nothing if there is none. -/
def Ty.argumentsText (params : Option (List Ty)) : String :=
  match params with
  | none => ""
  | some ts => "<" ++ String.intercalate ", " (Ty.texts ts) ++ ">"
termination_by structural params

/-- The short forms of several types. -/
def Ty.texts (ts : List Ty) : List String :=
  match ts with
  | [] => []
  | t :: rest => t.text :: Ty.texts rest
termination_by structural ts

/-- A signature: `fun`, its parameters, and its returned types if it returns any. -/
def Signature.text (s : Signature) : String :=
  match s with
  | ⟨params, []⟩ => "fun(" ++ String.intercalate ", " (Parameter.texts params) ++ ")"
  | ⟨params, returns⟩ =>
    "fun(" ++ String.intercalate ", " (Parameter.texts params) ++ "): " ++ String.intercalate ", " (Ty.texts returns)
termination_by structural s

/-- The texts of several signatures. -/
def Signature.texts (ss : List Signature) : List String :=
  match ss with
  | [] => []
  | s :: rest => s.text :: Signature.texts rest
termination_by structural ss

/-- A parameter: its name and its type. -/
def Parameter.text (p : Parameter) : String :=
  match p with
  | ⟨name, ty⟩ => name ++ ": " ++ ty.text
termination_by structural p

/-- The texts of several parameters. -/
def Parameter.texts (ps : List Parameter) : List String :=
  match ps with
  | [] => []
  | p :: rest => p.text :: Parameter.texts rest
termination_by structural ps

end

end TypeQuery
