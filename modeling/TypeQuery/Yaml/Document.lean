import TypeQuery.Catalog
import TypeQuery.Yaml.Token

/-!
# YAML documents

A document is a tree of texts, sequences and mappings, read off the tokens of a stream.  An alias
stands for the node that carries its anchor.  That node may be further up in the tree, so aliases
stay in the tree as numbers, and the document keeps the anchored nodes by number.  An anchor gets the
number of anchor names that are known before it; so after a name has been used again two anchors may
share a number, which then stands for the node that starts last.

Where the stream leaves a node out (a key without a value, an item of a sequence with nothing behind
its dash), an empty plain text stands in its place.
-/

namespace TypeQuery.Yaml

/-- A node of a document. -/
inductive Node where
  | scalar (style : Style) (tag : Option (List UInt8)) (text : String)
  | sequence (items : List Node)
  | mapping (entries : List (Node × Node))
  | alias (anchor : Nat)

/-- The node that stands where the stream has none. -/
def Node.empty : Node := .scalar .plain none ""

instance : Inhabited Node := ⟨.empty⟩

/-- A document, with its anchored nodes by number. -/
structure Document where
  root : Node
  anchored : Catalog Nat Node

namespace Document

/-- The node itself; for an alias, the node that it stands for. -/
def resolve (d : Document) : Node → Node
  | .alias n => (d.anchored.find? n).getD .empty
  | node => node

end Document

/-- How far the tokens of a stream have been read, with the anchors and tag handles of the document
that is being read. -/
structure Reader where
  tokens : List Token
  anchors : Catalog String Nat := ∅
  anchored : Catalog Nat Node := ∅
  handles : List (String × List UInt8) := []

/-- Reading, which fails where the tokens make no document. -/
abbrev Read := StateT Reader Option

namespace Read

/-- The next token, if there is one. -/
def peek : Read (Option Token) := return (← get).tokens.head?

/-- Skips the next token. -/
def skip : Read Unit := modify fun r => { r with tokens := r.tokens.drop 1 }

/-- Skips the next token if it is this one; the result says whether it was. -/
def accept (t : Token) : Read Bool := do
  if (← peek) = some t then
    skip
    return true
  else return false

/-- The next token is one of these, or there is none. -/
def nextIn (ts : List Token) : Read Bool := return ((← peek).map ts.contains).getD true

/-- Carries on only if a condition holds. -/
def require (b : Bool) : Read Unit := if b then pure () else failure

/-! ## Properties of nodes -/

/-- The anchor and the tag in front of a node. -/
structure Properties where
  anchor : Option String := none
  tag : Option (List UInt8) := none

/-- The full tag for a handle and what follows it. -/
def fullTag (handle : String) (suffix : List UInt8) : Read (List UInt8) := do
  if handle = "" then return suffix
  match (← get).handles.lookup handle with
  | some start => return start ++ suffix
  | none => failure

/-- Reads an anchor, if there is one. -/
def anchor? : Read (Option String) := do
  match ← peek with
  | some (.anchor name) =>
    skip
    return some name
  | _ => return none

/-- Reads a tag, if there is one. -/
def tag? : Read (Option (String × List UInt8)) := do
  match ← peek with
  | some (.tag handle suffix) =>
    skip
    return some (handle, suffix)
  | _ => return none

/-- Reads the properties of a node: an anchor and a tag, in any order. -/
def properties : Read Properties := do
  let before ← anchor?
  let tag ← tag?
  let after ← if before.isNone && tag.isSome then anchor? else pure none
  let full ← tag.mapM fun (handle, suffix) => fullTag handle suffix
  return ⟨before <|> after, full⟩

/-- Gives the anchor of a node that starts its number, and takes that number from the nodes before. -/
def number (p : Properties) : Read (Option Nat) :=
  p.anchor.mapM fun name => modifyGet fun r =>
    let n := r.anchors.size
    (n, { r with anchors := r.anchors.insert name n, anchored := r.anchored.erase n })

/-- Keeps a node under the number of its anchor, unless a node inside it has taken the number. -/
def keep (n : Option Nat) (node : Node) : Read Node := do
  if let some n := n then
    modify fun r =>
      if r.anchored.contains n then r else { r with anchored := r.anchored.insert n node }
  return node

/-! ## Nodes

Each function below reads one construct.  `depth` bounds how far they call each other; every two
calls take a token at least. -/

mutual

/-- Reads a node.  Inside brackets there are no block collections.  A block sequence that is a value
of a mapping need not be indented further than the mapping. -/
def node (depth : Nat) (block flush : Bool) : Read Node :=
  match depth with
  | 0 => failure
  | depth + 1 => do
    if let some (.alias name) ← peek then
      skip
      match (← get).anchors.find? name with
      | some n => return .alias n
      | none => failure
    let p ← properties
    let n ← number p
    match ← peek with
    | some .blockEntry =>
      if flush then keep n (.sequence (← flushItems depth))
      else bare p n
    | some (.scalar style text) =>
      skip
      keep n (.scalar style p.tag text)
    | some .flowSequenceStart =>
      skip
      keep n (.sequence (← flowItems depth true))
    | some .flowMappingStart =>
      skip
      keep n (.mapping (← flowEntries depth true))
    | some .blockSequenceStart =>
      if block then
        skip
        keep n (.sequence (← blockItems depth))
      else bare p n
    | some .blockMappingStart =>
      if block then
        skip
        keep n (.mapping (← blockEntries depth))
      else bare p n
    | _ => bare p n

/-- A node of which there are only the properties. -/
def bare (p : Properties) (n : Option Nat) : Read Node := do
  require (p.anchor.isSome || p.tag.isSome)
  keep n (.scalar .plain p.tag "")

/-- Reads a node, or an empty one if one of these tokens comes next. -/
def nodeUnless (depth : Nat) (ends : List Token) (block flush : Bool) : Read Node :=
  match depth with
  | 0 => failure
  | depth + 1 => do if ← nextIn ends then return .empty else node depth block flush

/-- The items of a block sequence, with its end. -/
def blockItems (depth : Nat) : Read (List Node) :=
  match depth with
  | 0 => failure
  | depth + 1 => do
    if ← accept .blockEntry then
      let item ← nodeUnless depth [.blockEntry, .blockEnd] true false
      return item :: (← blockItems depth)
    else
      require (← accept .blockEnd)
      return []

/-- The items of a block sequence that has no end of its own. -/
def flushItems (depth : Nat) : Read (List Node) :=
  match depth with
  | 0 => failure
  | depth + 1 => do
    if ← accept .blockEntry then
      let item ← nodeUnless depth [.blockEntry, .key, .value, .blockEnd] true false
      return item :: (← flushItems depth)
    else return []

/-- The entries of a block mapping, with its end. -/
def blockEntries (depth : Nat) : Read (List (Node × Node)) :=
  match depth with
  | 0 => failure
  | depth + 1 => do
    if ← accept .key then
      let k ← nodeUnless depth [.key, .value, .blockEnd] true true
      let v ← if ← accept .value then nodeUnless depth [.key, .value, .blockEnd] true true
        else pure .empty
      return (k, v) :: (← blockEntries depth)
    else
      require (← accept .blockEnd)
      return []

/-- The items of a sequence in brackets, with its end.  An item may be a mapping with a single
entry. -/
def flowItems (depth : Nat) (first : Bool) : Read (List Node) :=
  match depth with
  | 0 => failure
  | depth + 1 => do
    if ← accept .flowSequenceEnd then return []
    if !first then require (← accept .flowEntry)
    if ← accept .key then
      let k ←
        if ← nextIn [.value, .flowEntry, .flowSequenceEnd] then do
          skip
          pure .empty
        else node depth false false
      let v ← if ← accept .value then nodeUnless depth [.flowEntry, .flowSequenceEnd] false false
        else pure .empty
      return .mapping [(k, v)] :: (← flowItems depth false)
    else if ← accept .flowSequenceEnd then return []
    else
      let item ← node depth false false
      return item :: (← flowItems depth false)

/-- The entries of a mapping in brackets, with its end. -/
def flowEntries (depth : Nat) (first : Bool) : Read (List (Node × Node)) :=
  match depth with
  | 0 => failure
  | depth + 1 => do
    if ← accept .flowMappingEnd then return []
    if !first then require (← accept .flowEntry)
    if ← accept .key then
      let k ← nodeUnless depth [.value, .flowEntry, .flowMappingEnd] false false
      let v ← if ← accept .value then nodeUnless depth [.flowEntry, .flowMappingEnd] false false
        else pure .empty
      return (k, v) :: (← flowEntries depth false)
    else if ← accept .flowMappingEnd then return []
    else
      let k ← node depth false false
      return (k, .empty) :: (← flowEntries depth false)

end

/-! ## Documents -/

/-- The tag handles of every document. -/
def standardHandles : List (String × List UInt8) :=
  [("!", Scanner.asciiBytes "!"), ("!!", Scanner.asciiBytes "tag:yaml.org,2002:")]

/-- Reads the directives in front of a document.  There is one version at most, which has to be 1.1
or 1.2, and no handle is declared twice. -/
def directives (versioned : Bool) (handles : List (String × List UInt8)) :
    List Token → Option (List (String × List UInt8) × List Token)
  | .version major minor :: rest =>
    if versioned || major ≠ 1 || (minor ≠ 1 && minor ≠ 2) then none
    else directives true handles rest
  | .tagDirective handle uri :: rest =>
    if (handles.lookup handle).isSome then none
    else directives versioned (handles ++ [(handle, uri)]) rest
  | rest => some (handles ++ standardHandles, rest)

/-- Reads one document.  The first of a stream needs no mark if it has no directives. -/
def document (depth : Nat) (first : Bool) : Read Document := do
  let (handles, rest) ← StateT.lift (directives false [] (← get).tokens)
  let implicit := first && rest.length = (← get).tokens.length && rest.head? ≠ some .documentStart
  set { tokens := rest, handles : Reader }
  let root ←
    if implicit then node depth true false
    else do
      require (← accept .documentStart)
      match ← peek with
      | none | some .documentStart | some .documentEnd | some (.version ..)
      | some (.tagDirective ..) => pure .empty
      | _ => node depth true false
  return ⟨root, (← get).anchored⟩

/-- Reads documents up to the end of the stream. -/
def documents (depth : Nat) : Nat → Read (List Document)
  | 0 => failure
  | n + 1 => do
    modify fun r => { r with tokens := r.tokens.dropWhile (· = .documentEnd) }
    if (← peek).isNone then return []
    let d ← document depth false
    return d :: (← documents depth n)

end Read

/-- The documents of a stream; none if it is not well-formed. -/
def documents? (text : String) : Option (List Document) := do
  let tokens ← tokens? text
  if tokens.isEmpty then return []
  let depth := 2 * tokens.length + 2
  let stream : Read (List Document) := do
    let d ← Read.document depth true
    return d :: (← Read.documents depth depth)
  return (← stream.run { tokens }).1

end TypeQuery.Yaml
