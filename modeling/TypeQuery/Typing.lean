import TypeQuery.Plan
import TypeQuery.Program

/-!
# The rules of inference

How the type of each kind of expression is found, as plans.  An expression is asked for at a
*slot*: the values of a list are numbered from zero, and the last expression of a list may stand for
several of them.  Only calls make use of the slot; every other expression has one value.

* A literal, a table constructor and most operators have their type on sight.
* A name has the type of what it is bound to, and a global also the open record of its name.
* A call has the type that its callee returns at the slot.  If the type of the callee says nothing,
  the function body that the callee means is looked at.  A call of a constructor also gives its
  object, and a call of a loading function gives what the module exports.
* An index expression has its annotated type, or the types assigned to it and to the fields of that
  name in the classes of its object.
-/

namespace TypeQuery

/-- The type of a literal. -/
def Literal.ty : Literal → Ty
  | .nil => .nil
  | .boolean => .boolean
  | .number => .number
  | .string _ => .string
  | .varargs => .unknown

namespace Plan

/-- The value at a position of a list of values.  Past its end, the last expression goes on if it
may stand for several values; otherwise the value is nil. -/
def valueAt (values : List Expr) (index : Nat) : Plan :=
  match values[index]? with
  | some e => ofExpr e 0
  | none =>
    match values.getLast? with
    | some last =>
      if last.isMultiValued then ofExpr last (index - (values.length - 1)) else .answer .nil
    | none => .answer .nil

/-- The value at a position of any of the value lists that a body returns. -/
def returnedAt (body : FunctionBody) (slot : Nat) : Plan :=
  join (body.returns.map fun values => valueAt values slot)

end Plan

/-- The number of values that a body returns at most, as far as its value lists show it. -/
def FunctionBody.arity (body : FunctionBody) : Nat :=
  (body.returns.map List.length).foldl max 0

namespace Program

variable (p : Program)

/-! ## Functions and declarations -/

/-- The parameters of a body, with the types that annotations give them. -/
def parametersOf (body : FunctionBody) : List Parameter :=
  body.params.map fun q => ⟨q.name, (p.annotations.find? q.id).getD .unknown⟩

/-- The type of a function with this body.  An annotation of the body is its only returned type. -/
def functionType (body : FunctionBody) : Plan :=
  match p.annotations.find? body.id with
  | some t => .answer (.simpleFunction (p.parametersOf body) [t])
  | none =>
    Plan.collect ((List.range body.arity).map (Plan.returnedAt body)) fun returns =>
      .answer (.simpleFunction (p.parametersOf body) returns)

/-- The type of the value at a slot that a call of this body returns. -/
def returnType (body : FunctionBody) (slot : Nat) : Plan :=
  match p.annotations.find? body.id with
  | some t => .answer (if slot = 0 then t else .nil)
  | none => Plan.returnedAt body slot

/-- The type that a declaration has apart from its annotation: that of its body, or of the value
assigned to it. -/
def assignedType (d : Declaration) : Plan :=
  match d.body, d.value with
  | some body, _ => p.functionType body
  | none, some v => Plan.valueAt v.values v.index
  | none, none => .answer .unknown

/-- The type of a declaration.  An annotation goes first, unless it carries no information. -/
def declarationType (d : Declaration) : Plan :=
  match p.annotations.find? d.id with
  | some t => if t.isInvalid then p.assignedType d else .answer t
  | none => p.assignedType d

/-- The type of a field of a class: the join over all its declarations. -/
def fieldType (c : ClassTy) (field : String) : Plan :=
  Plan.join ((p.members.declarationsOf c field).map p.declarationType)

/-! ## Names -/

/-- The type that a declaration gives a name bound to it, apart from its module: a global has the
open record of its name as well. -/
def ownBindingType (d : Declaration) : Plan :=
  if d.kind = .globalName then
    (p.declarationType d).bind fun t => .answer (t.join (.global d.name))
  else p.declarationType d

/-- The type that a declaration gives a name bound to it.  A declaration that belongs to a module
is first looked up among the members of that module. -/
def bindingType (d : Declaration) : Plan :=
  match d.ofModule with
  | none => p.ownBindingType d
  | some m =>
    .within (.member d.id) (p.fieldType (.declared m) d.name) fun
      | some t => if t.isInvalid then p.ownBindingType d else .answer t
      | none => p.ownBindingType d

/-- The type of a name that its candidates say nothing about: what is assigned to its node, and for
a global its open record. -/
def unboundType (e : Expr) (name : String) (t : Ty) : Plan :=
  let withGlobal := fun (t : Ty) => if p.names.isGlobal e then t.join (.global name) else t
  match p.names.target? e with
  | some d => (p.bindingType d).bind fun t' => .answer (withGlobal (t.join t'))
  | none => .answer (withGlobal t)

/-- The type of a name. -/
def nameType (e : Expr) (name : String) : Plan :=
  .consult name <|
    (Plan.join ((p.names.candidates e).map p.bindingType)).bind fun t =>
      if t.isInvalid then p.unboundType e name t else .answer t

/-! ## Calls -/

/-- What a value of this type gives at a slot when it is called: what its signatures return, and
for an object the object itself. -/
def resultsOf (callee : Ty) (slot : Nat) : List Ty :=
  callee.members.flatMap fun
    | .function signatures => signatures.map (·.returnAt slot)
    | .object c => if slot = 0 then [.object c] else []
    | _ => []

/-- Goes on with the function body that a callee means, if it means one. -/
def withBody (callee : Expr) (next : Option FunctionBody → Plan) : Plan :=
  match p.names with
  | .bodyOnly body => next (some body)
  | .bound b =>
    match callee.name? with
    | some name => .consult name (next (b.functionBody? callee))
    | none => next none

/-- What the module of this name exports. -/
def requiredType (source : String) (file : FileId) : Plan :=
  match p.modules.resolve source file with
  | .error _ => .lookUpModule false (.answer .unknown)
  | .ok m =>
    .lookUpModule true <|
      match m.exported with
      | some (.type t) => .answer t
      | some (.value e) => .ofExpr e 0
      | none => .answer .unknown

/-- The object of which a call of this callee makes an instance. -/
def constructed? (callee : Expr) : Option Expr :=
  match callee.index? with
  | some (object, key) =>
    match key.name? with
    | some name => if p.isConstructor name then some object else none
    | none => none
  | none => none

/-- The type of an ordinary call at a slot. -/
def applicationType (callee : Expr) (slot : Nat) : Plan :=
  (Plan.ask callee 0 fun calleeTy =>
    let t := Ty.joinAll (resultsOf calleeTy slot)
    if t.isInvalid then
      p.withBody callee fun
        | some body => p.returnType body slot
        | none => .answer t
    else .answer t).bind fun t =>
  match p.constructed? callee with
  | some object => if slot = 0 then Plan.joinTo t (.ofExpr object 0) else .answer t
  | none => .answer t

/-- The type of a call at a slot. -/
def callType (e callee : Expr) (slot : Nat) : Plan :=
  if (callee.name?.map p.options.isRequire).getD false then
    match e.firstString? with
    | some source => p.requiredType source e.id.file
    | none => .answer .unknown
  else p.applicationType callee slot

/-! ## Index expressions -/

/-- The annotation in force at an index expression: its own, or that of the declaration that an
assignment to it makes. -/
def annotationAt? (e : Expr) (target : Option Declaration) : Option Ty :=
  match p.annotations.find? e.id with
  | some t => some t
  | none =>
    match target with
    | some d => if d.id = e.id then none else p.annotations.find? d.id
    | none => none

/-- The types of the fields of this name in the classes of an object, joined to a type. -/
def fieldOf (object : Ty) (field : String) (t : Ty) : Plan :=
  Plan.collect (object.classes.map fun c => p.fieldType c field) fun ts =>
    .answer (ts.foldl Ty.join t)

/-- The type of an index expression whose object is neither an array nor generic.  `object` is the
type of the object, if it is known already. -/
def memberType (e objectExpr : Expr) (key : IndexKey) (object : Option Ty) : Plan :=
  let target := p.names.target? e
  match p.annotationAt? e target with
  | some t => .answer t
  | none =>
    let assigned : Plan :=
      match target.bind Declaration.value with
      | some v => Plan.joinTo .unknown (Plan.valueAt v.values v.index)
      | none => .answer .unknown
    assigned.bind fun t =>
      match key.name?, object with
      | none, _ => .answer t
      | some field, some o => p.fieldOf o field t
      | some field, none => .ask objectExpr 0 fun o => p.fieldOf o field t

/-- The type of an index expression.  Brackets read the elements of an array and the values of a
generic container, whatever the key. -/
def indexType (e object : Expr) (key : IndexKey) : Plan :=
  if key.isBracket then
    .ask object 0 fun o =>
      match o.arrayElement? with
      | some element => .answer element
      | none =>
        match o.generic? with
        | some (_, params) => .answer (Ty.argumentAt params 1)
        | none => p.memberType e object key (some o)
  else p.memberType e object key none

/-! ## All expressions -/

/-- The type of a unary operation. -/
def unaryType (op : UnaryOp) (operand : Expr) : Plan :=
  match op with
  | .minus => .ofExpr operand 0
  | .length => .answer .number
  | .not | .bitNot => .answer .unknown

/-- The type of a binary operation. -/
def binaryType (op : BinaryOp) (left : Expr) (right : Option Expr) : Plan :=
  if op = .concat then .answer .string
  else if op.isComparison then .answer .boolean
  else if op = .or then
    .ask left 0 fun t =>
      match right with
      | some r => Plan.joinTo t (.ofExpr r 0)
      | none => .answer t
  else .ofExpr left 0

/-- How the value at a slot of an expression is found. -/
def plan (e : Expr) (slot : Nat) : Plan :=
  match e with
  | .unary _ op operand => unaryType op operand
  | .binary _ op left right => binaryType op left right
  | .call _ callee _ => p.callType e callee slot
  | .closure _ body => p.functionType body
  | .table id _ => .answer (.table id)
  | .paren _ (some inner) => .ofExpr inner 0
  | .paren _ none => .answer .unknown
  | .name _ name => p.nameType e name
  | .literal _ l => .answer l.ty
  | .index _ object key => p.indexType e object key

end Program

end TypeQuery
