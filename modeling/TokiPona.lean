import TokiPona.Files.Tree
import TokiPona.Main
import TokiPona.Proofs.Access
import TokiPona.Proofs.Answers
import TokiPona.Proofs.Apart
import TokiPona.Proofs.Batch
import TokiPona.Proofs.Calls
import TokiPona.Proofs.Complaints
import TokiPona.Proofs.Composition
import TokiPona.Proofs.Content
import TokiPona.Proofs.Core
import TokiPona.Proofs.Coverage
import TokiPona.Proofs.Dialects
import TokiPona.Proofs.Fragment
import TokiPona.Proofs.ImpliedLi
import TokiPona.Proofs.Layout
import TokiPona.Proofs.Nesting
import TokiPona.Proofs.Prepositions
import TokiPona.Proofs.Recall
import TokiPona.Proofs.Rendering
import TokiPona.Proofs.Replay
import TokiPona.Proofs.RoundTrip
import TokiPona.Proofs.SentenceJson
import TokiPona.Proofs.Vocabulary
import TokiPona.Proofs.WellFormed
import TokiPona.Report
import TokiPona.Proofs.Lexemes
import TokiPona.Proofs.Marks
import TokiPona.Proofs.Rearrangement
