import TypeQuery.Node
import TypeQuery.Catalog
import TypeQuery.Ty.Basic
import TypeQuery.Ty.Order
import TypeQuery.Ty.Join
import TypeQuery.Ty.Text
import TypeQuery.Expr.Operator
import TypeQuery.Expr.Basic
import TypeQuery.Declaration
import TypeQuery.Scope
import TypeQuery.Bindings
import TypeQuery.Members
import TypeQuery.Tally
import TypeQuery.Text.Hidden
import TypeQuery.Text.Quoted
import TypeQuery.Guard
import TypeQuery.Options
import TypeQuery.Path.Basic
import TypeQuery.Path.Normal
import TypeQuery.Disk
import TypeQuery.Module.Registry
import TypeQuery.Module.Search
import TypeQuery.Program
import TypeQuery.Plan
import TypeQuery.Typing
import TypeQuery.Query
import TypeQuery.Workspace
import TypeQuery.Yaml.Symbol
import TypeQuery.Yaml.Folding
import TypeQuery.Yaml.Token
import TypeQuery.Yaml.Document
import TypeQuery.Yaml.Scalar
import TypeQuery.Yaml.Written
import TypeQuery.Settings
import TypeQuery.Proofs.Nodes
import TypeQuery.Proofs.Asks
import TypeQuery.Proofs.Runs
import TypeQuery.Proofs.Restore
import TypeQuery.Proofs.Levels
import TypeQuery.Proofs.Course
import TypeQuery.Proofs.Value
import TypeQuery.Proofs.Cycles
import TypeQuery.Proofs.Disjunction
import TypeQuery.Proofs.Order
import TypeQuery.Proofs.Lattice
import TypeQuery.Proofs.Forward
import TypeQuery.Proofs.Trail
import TypeQuery.Proofs.LookUps
import TypeQuery.Proofs.Once
import TypeQuery.Proofs.Wrappers
import TypeQuery.Proofs.Increments
import TypeQuery.Proofs.Preserved
import TypeQuery.Proofs.Origins
import TypeQuery.Proofs.Again
import TypeQuery.Proofs.Repeats
import TypeQuery.Proofs.Reordering
import TypeQuery.Proofs.Slots
import TypeQuery.Proofs.Paths
import TypeQuery.Proofs.Locations
import TypeQuery.Proofs.Search
import TypeQuery.Proofs.NormalForms
import TypeQuery.Proofs.Layers
import TypeQuery.Proofs.FieldAccess
import TypeQuery.Proofs.Walks
import TypeQuery.Proofs.Globals
import TypeQuery.Proofs.Scoping
import TypeQuery.Proofs.Visibility
import TypeQuery.Proofs.Registrations
import TypeQuery.Proofs.Containment
import TypeQuery.Proofs.Concrete
import TypeQuery.Proofs.Accounts
import TypeQuery.Proofs.Tokens
import TypeQuery.Proofs.Names
import TypeQuery.Proofs.Precedence
