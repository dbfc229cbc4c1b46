import Debundle.Main
import Debundle.Storage.World
import Debundle.Proofs.Forest.Lineage
import Debundle.Proofs.Journal.Postcondition
import Debundle.Proofs.Forest.Change
import Debundle.Proofs.Forest.Operation
import Debundle.Proofs.Forest.Adoption
import Debundle.Proofs.Forest.Layout
import Debundle.Proofs.Forest.Folding
import Debundle.Proofs.Forest.Evidence
import Debundle.Proofs.Forest.Reconstruction
import Debundle.Proofs.Data.Tables
import Debundle.Proofs.Session.Asking
import Debundle.Proofs.Bundle.Sighting
import Debundle.Proofs.Session.BestPath
import Debundle.Proofs.Session.Identity
import Debundle.Proofs.Bundle.Edges
import Debundle.Proofs.Session.Aliases
import Debundle.Proofs.Bundle.Skipping
import Debundle.Proofs.Bundle.Definitions
import Debundle.Proofs.Unpack.Seen
import Debundle.Proofs.Unpack.Selection
import Debundle.Proofs.Unpack.Leaf
import Debundle.Proofs.Unpack.Container
import Debundle.Proofs.Forest.Permanence
import Debundle.Proofs.Unpack.Recursion
import Debundle.Proofs.Text.Boundaries
import Debundle.Proofs.Script.Placement
import Debundle.Proofs.Script.Grammar
import Debundle.Proofs.Script.Source
import Debundle.Proofs.Script.Descent
import Debundle.Proofs.Script.Literals
import Debundle.Proofs.Journal.Failures
import Debundle.Proofs.Factory.Restoring
import Debundle.Proofs.Forest.Lookups
import Debundle.Proofs.Bundle.Blocking
import Debundle.Proofs.Unpack.Blocking
import Debundle.Proofs.Script.Nesting
import Debundle.Proofs.Script.Splicing
import Debundle.Proofs.Script.Respelling
import Debundle.Proofs.Script.Scoping
import Debundle.Proofs.Script.Binding
import Debundle.Proofs.Script.Assigning
import Debundle.Proofs.Factory.Renaming
import Debundle.Proofs.Factory.Invariance
import Debundle.Proofs.Bundle.Growth
import Debundle.Proofs.Bundle.Delivery
import Debundle.Proofs.Bundle.Repetition
import Debundle.Proofs.Forest.Housing
import Debundle.Proofs.Forest.Climbing
import Debundle.Proofs.Forest.Joining
import Debundle.Proofs.Forest.Making
import Debundle.Proofs.Forest.Placing
import Debundle.Proofs.Forest.Replaying
import Debundle.Proofs.Forest.Contradictions
import Debundle.Proofs.Bundle.Housing
import Debundle.Proofs.Bundle.Replay
import Debundle.Proofs.Exports.Renamings
import Debundle.Proofs.Exports.Coverage
import Debundle.Proofs.Exports.Freshness
import Debundle.Proofs.Factory.Capture
import Debundle.Proofs.Factory.Division
import Debundle.Proofs.Factory.Replacement
import Debundle.Proofs.Path.Target
import Debundle.Proofs.Path.Normal
import Debundle.Proofs.Storage.Places
import Debundle.Proofs.Storage.Runs
import Debundle.Proofs.Storage.Writing
import Debundle.Proofs.Command.Overwriting
import Debundle.Proofs.Storage.Faults
import Debundle.Proofs.Storage.Atomicity
import Debundle.Proofs.Path.Confinement
import Debundle.Proofs.Command.Accounting
import Debundle.Proofs.Script.Addresses
import Debundle.Proofs.Path.NormalForm
import Debundle.Proofs.Script.Integers
import Debundle.Proofs.Text.Decoding
import Debundle.Proofs.Script.Composing
