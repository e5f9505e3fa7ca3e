import ExprLang.File.Tree
import ExprLang.Main
import ExprLang.Program.Eval
import ExprLang.Program.Grammar
import ExprLang.Proofs.Acceptance
import ExprLang.Proofs.BlankRuns
import ExprLang.Proofs.BuilderCalls
import ExprLang.Proofs.CborLimits
import ExprLang.Proofs.CborWriting
import ExprLang.Proofs.ChunkChecks
import ExprLang.Proofs.ChunkEdits
import ExprLang.Proofs.ChunkIdentity
import ExprLang.Proofs.ChunkRoundTrip
import ExprLang.Proofs.CodeLayout
import ExprLang.Proofs.CodeWalks
import ExprLang.Proofs.Conversation
import ExprLang.Proofs.DiagnosticOrder
import ExprLang.Proofs.DoubleRange
import ExprLang.Proofs.Execution
import ExprLang.Proofs.FirstProblem
import ExprLang.Proofs.Formatting
import ExprLang.Proofs.GlyphBoundaries
import ExprLang.Proofs.GrammarComplete
import ExprLang.Proofs.GrammarLayers
import ExprLang.Proofs.GrammarSound
import ExprLang.Proofs.IntegerArithmetic
import ExprLang.Proofs.Interning
import ExprLang.Proofs.Interpretation
import ExprLang.Proofs.LineCount
import ExprLang.Proofs.LineErasure
import ExprLang.Proofs.ListingLines
import ExprLang.Proofs.Lockstep
import ExprLang.Proofs.LongestToken
import ExprLang.Proofs.MachineReuse
import ExprLang.Proofs.MachineSafety
import ExprLang.Proofs.MaximalMunch
import ExprLang.Proofs.NearestManifest
import ExprLang.Proofs.OpcodeTable
import ExprLang.Proofs.OperatorMeaning
import ExprLang.Proofs.ParserMoves
import ExprLang.Proofs.ParserPasses
import ExprLang.Proofs.PathNames
import ExprLang.Proofs.PostOrder
import ExprLang.Proofs.Preservation
import ExprLang.Proofs.PrintedIntegers
import ExprLang.Proofs.Recovery
import ExprLang.Proofs.Respacing
import ExprLang.Proofs.Shipping
import ExprLang.Proofs.StringLiterals
import ExprLang.Proofs.TokenClasses
import ExprLang.Proofs.TokenDemand
import ExprLang.Proofs.TokenGaps
import ExprLang.Proofs.TokenStream
import ExprLang.Proofs.Tracing
import ExprLang.Proofs.ValueOrigin
import ExprLang.Proofs.ViablePrefixes
import ExprLang.Proofs.WellFormedText
