import TypeQuery.Disk
import TypeQuery.Options
import TypeQuery.Yaml.Document
import TypeQuery.Yaml.Scalar
import TypeQuery.Yaml.Written

/-!
# Settings files

Options are kept in a YAML file with one entry, `inferenceOptions`, whose entries are the options.
Whatever the file leaves out has its default, and entries that are not options are passed over; an
option must not be given twice.  A list may be left empty, and so may the whole file; but a word for
nothing, such as `null`, is no list and no mapping.
-/

namespace TypeQuery

/-- Why settings cannot be had. -/
inductive SettingsError where
  /-- The file cannot be read or written. -/
  | disk (cause : DiskError)
  /-- The text is no YAML, or says something else than options. -/
  | yaml
deriving DecidableEq

/-- What a client is told about a settings error. -/
def SettingsError.message : SettingsError → String
  | .disk cause => "I/O error: " ++ cause.message
  | .yaml => "Invalid configuration"

namespace Settings

open Yaml

variable (d : Document)

/-! ## Reading -/

/-- A node as a text. -/
def text? (n : Node) : Option String :=
  match d.resolve n with
  | .scalar _ _ s => some s
  | _ => none

/-- The tag of integers. -/
def integerTag : List UInt8 := Scanner.asciiBytes "tag:yaml.org,2002:int"

/-- A node as a number of 64 bits: a plain text, or a literal block with the tag of integers. -/
def number? (n : Node) : Option Nat :=
  match d.resolve n with
  | .scalar style tag s =>
    if style = .plain ∨ (style = .literal ∧ tag = some integerTag) then
      Scalar.natBelow? (Nat.pow 2 64) s
    else none
  | _ => none

/-- A node as a list of texts. -/
def texts? (n : Node) : Option (List String) :=
  match d.resolve n with
  | .sequence items => items.mapM (text? d)
  | .scalar .plain _ "" => some []
  | _ => none

/-- A node as a mapping whose keys are texts. -/
def entries? (n : Node) : Option (List (String × Node)) :=
  match d.resolve n with
  | .mapping entries => entries.mapM fun (k, v) => return (← text? d k, v)
  | .scalar .plain _ "" => some []
  | _ => none

/-- The value of an entry that may be given once at most, read by `read`. -/
def entry? {α : Type} (entries : List (String × Node)) (key : String) (read : Node → Option α) :
    Option (Option α) :=
  match entries.filter (·.1 = key) with
  | [] => some none
  | [(_, v)] => (read v).map some
  | _ => none

/-- A node as options. -/
def options? (n : Node) : Option Options := do
  let entries ← entries? d n
  let change : Options.Change :=
    { constructorNames := ← entry? entries "constructorNames" (texts? d)
      requireFunctions := ← entry? entries "requireFunctions" (texts? d)
      maxDepth := ← entry? entries "maxDepth" (number? d)
      modulePaths := ← entry? entries "modulePaths" (texts? d) }
  return ({} : Options).apply change

/-- A document as settings. -/
def document? : Option Options := do
  let entries ← entries? d d.root
  return (← entry? entries "inferenceOptions" (options? d)).getD {}

end Settings

namespace Options

/-- The options that a settings text says. -/
def ofYaml? (text : String) : Option Options :=
  match Yaml.documents? text with
  | some [] => some {}
  | some [d] => Settings.document? d
  | _ => none

/-! ## Writing -/

/-- A list of texts as an entry of the options. -/
def yamlList (key : String) (texts : List String) : String :=
  if texts.isEmpty then "  " ++ key ++ ": []\n"
  else
    "  " ++ key ++ ":\n" ++ String.join (texts.map fun t => "  - " ++ Yaml.Written.item 4 t)

/-- The options as a settings text. -/
def toYaml (o : Options) : String :=
  "inferenceOptions:\n" ++ yamlList "constructorNames" o.constructorNames ++
    yamlList "requireFunctions" o.requireFunctions ++
    "  maxDepth: " ++ toString o.maxDepth ++ "\n" ++ yamlList "modulePaths" o.modulePaths

end Options

/-! ## Files -/

namespace Settings

/-- The options in a settings text. -/
def parse (text : String) : Except SettingsError Options :=
  match Options.ofYaml? text with
  | some o => .ok o
  | none => .error .yaml

/-- The options in a settings file. -/
def load (disk : Disk) (path : Path) : Except SettingsError Options := do
  parse (← (disk.read path).mapError SettingsError.disk)

/-- Writes a settings file with the default options. -/
def create (disk : Disk) (path : Path) : Except SettingsError Disk :=
  (disk.write path ({} : Options).toYaml.toUTF8).mapError SettingsError.disk

end Settings

end TypeQuery
