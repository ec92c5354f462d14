/-!
# Options

What a client can set: which field names mean "make an instance" when they are called, which
functions load a module, how deep a query may go, and where modules are searched.
-/

namespace TypeQuery

/-- The options of inference.  In `modulePaths`, a question mark stands for the name of the
module. -/
structure Options where
  constructorNames : List String := ["new", "get"]
  requireFunctions : List String := ["require"]
  maxDepth : Nat := 200
  modulePaths : List String := ["?.lua", "?/init.lua"]
deriving DecidableEq, Repr

namespace Options

/-- The function of this name loads a module. -/
def isRequire (o : Options) (name : String) : Bool := o.requireFunctions.contains name

/-- Calling the field of this name makes an instance of the object that holds it. -/
def isConstructor (o : Options) (name : String) : Bool := o.constructorNames.contains name

/-- A change of some options. -/
structure Change where
  constructorNames : Option (List String) := none
  requireFunctions : Option (List String) := none
  maxDepth : Option Nat := none
  modulePaths : Option (List String) := none

/-- The options after a change: what the change gives replaces what was there. -/
def apply (o : Options) (c : Change) : Options where
  constructorNames := c.constructorNames.getD o.constructorNames
  requireFunctions := c.requireFunctions.getD o.requireFunctions
  maxDepth := c.maxDepth.getD o.maxDepth
  modulePaths := c.modulePaths.getD o.modulePaths

end Options

end TypeQuery
