import ClassfileTypes.Intern.Holders
import ClassfileTypes.Session.Basic
import ClassfileTypes.Proofs.Names
import ClassfileTypes.Proofs.WellFormed
import ClassfileTypes.Proofs.Nodes
import ClassfileTypes.Proofs.UniqueReading
import ClassfileTypes.Proofs.PoolInvariant
import ClassfileTypes.Proofs.Refinement
import ClassfileTypes.Proofs.Construction
import ClassfileTypes.Proofs.Binding
import ClassfileTypes.Proofs.Erasure
import ClassfileTypes.Proofs.Conversion
import ClassfileTypes.Proofs.Reading
import ClassfileTypes.Proofs.ReadingDeclarations
import ClassfileTypes.Proofs.Rules
import ClassfileTypes.Proofs.RoundTrip
import ClassfileTypes.Proofs.RoundTripDeclarations
import ClassfileTypes.Proofs.Parsing
import ClassfileTypes.Proofs.Operations
import ClassfileTypes.Proofs.Evaluation
import ClassfileTypes.Proofs.Reports
import ClassfileTypes.Proofs.Sessions
import ClassfileTypes.Proofs.Identity
import ClassfileTypes.Proofs.Texts
import ClassfileTypes.Proofs.Accepting
import ClassfileTypes.Proofs.AcceptingSignatures
import ClassfileTypes.Proofs.AcceptingDeclarations
import ClassfileTypes.Proofs.Sweeps
import ClassfileTypes.Proofs.Reference
import ClassfileTypes.Proofs.ReferenceMap
import ClassfileTypes.Proofs.TableSteps
import ClassfileTypes.Proofs.SweeperRounds
import ClassfileTypes.Proofs.Totality
import ClassfileTypes.Proofs.SessionBinding
import ClassfileTypes.Proofs.DeclaredErasure
import ClassfileTypes.Proofs.Walk
import ClassfileTypes.Proofs.RawSignatures
import ClassfileTypes.Proofs.PlainSessions
import ClassfileTypes.Proofs.Invisibility
import ClassfileTypes.Proofs.LiveCounts
import ClassfileTypes.Proofs.StrictPool
import ClassfileTypes.Proofs.StrictOperations
import ClassfileTypes.Proofs.StrictReading
import ClassfileTypes.Proofs.StrictEvaluation
import ClassfileTypes.Proofs.StrictSteps
import ClassfileTypes.Proofs.Representation
import ClassfileTypes.Proofs.Failures
import ClassfileTypes.Proofs.FirstBounds
import ClassfileTypes.Proofs.Substitution
import ClassfileTypes.Proofs.Completion
import ClassfileTypes.Proofs.Generations
import ClassfileTypes.Proofs.ScopedErasure
import ClassfileTypes.Proofs.Shadowing
import ClassfileTypes.Proofs.Bytes
import ClassfileTypes.Proofs.Outcomes
import ClassfileTypes.Proofs.Lookahead
import ClassfileTypes.Proofs.LookaheadRules
import ClassfileTypes.Proofs.Quotations
import ClassfileTypes.Proofs.FatalBytes
import ClassfileTypes.Proofs.Displacement
import ClassfileTypes.Proofs.Accounting
import ClassfileTypes.Proofs.LockedTables
import ClassfileTypes.Proofs.Sparing
import ClassfileTypes.Proofs.SparingRules
import ClassfileTypes.Proofs.Reparsing
import ClassfileTypes.Proofs.BinaryNames
import ClassfileTypes.Proofs.FlatArrays
import ClassfileTypes.Proofs.ByteCursor
import ClassfileTypes.Proofs.ByteRules
import ClassfileTypes.Proofs.CursorPlaces
import ClassfileTypes.Proofs.CursorRules
import ClassfileTypes.Proofs.CharacterBoundaries
