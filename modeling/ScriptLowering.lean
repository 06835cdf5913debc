import ScriptLowering.Frontend
import ScriptLowering.Grammar.Layout
import ScriptLowering.Grammar.Spans
import ScriptLowering.Grammar.StatementForms
import ScriptLowering.Script.Estree
import ScriptLowering.Script.Precedence
import ScriptLowering.Script.Spans
import ScriptLowering.Script.Spelling
import ScriptLowering.Proofs.UniqueReading
import ScriptLowering.Proofs.Unparsing
import ScriptLowering.Proofs.SpanFidelity
import ScriptLowering.Proofs.ProgramAcceptance
import ScriptLowering.Proofs.DriverContract
import ScriptLowering.Proofs.ErrorPlaces
import ScriptLowering.Proofs.LineLookup
import ScriptLowering.Proofs.QueueFiltering
import ScriptLowering.Proofs.RejectionPositions
import ScriptLowering.Proofs.Displacement
import ScriptLowering.Proofs.SeparateStatements
import ScriptLowering.Proofs.FaithfulLayout
import ScriptLowering.Proofs.ProgramConservation
import ScriptLowering.Proofs.GrammarLeniency
import ScriptLowering.Proofs.ScriptDocuments
import ScriptLowering.Proofs.LiteralValues
import ScriptLowering.Proofs.Guarantees
import ScriptLowering.Proofs.RepeatedSources
import ScriptLowering.Proofs.PositionIndependence
import ScriptLowering.Proofs.ChainEvaluation
import ScriptLowering.Proofs.FailureOrder
import ScriptLowering.Proofs.NumberAtoms
import ScriptLowering.Proofs.OperatorTexts
import ScriptLowering.Proofs.MergeOrder
import ScriptLowering.Proofs.PositionLimits
import ScriptLowering.Proofs.RetainedDiagnostics
import ScriptLowering.Proofs.DisplayTexts
import ScriptLowering.Proofs.MalformedChains
import ScriptLowering.Proofs.TokenWalks
import ScriptLowering.Proofs.EntryPoints
