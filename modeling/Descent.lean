import Descent.Arithmetic.Printer
import Descent.Arithmetic.Session
import Descent.Main
import Descent.Parser.Listing
import Descent.Script.Printer
import Descent.Script.Program
import Descent.Script.Shape
import Descent.Proofs.Parser.Scanning
import Descent.Proofs.Parser.Agreement
import Descent.Proofs.Unfolding
import Descent.Proofs.Reading
import Descent.Proofs.Parser.Yield
import Descent.Proofs.Script.Unfolding
import Descent.Proofs.Script.Soundness
import Descent.Proofs.Script.Completeness
import Descent.Proofs.Parser.Completing
import Descent.Proofs.Script.Recognition
import Descent.Proofs.Parser.Reach
import Descent.Proofs.Script.LongestPrefix
import Descent.Proofs.Arithmetic.Unfolding
import Descent.Proofs.Parser.Alike
import Descent.Proofs.Arithmetic.Chain
import Descent.Proofs.Arithmetic.Grouping
import Descent.Proofs.Arithmetic.Vocabulary
import Descent.Proofs.Arithmetic.Soundness
import Descent.Proofs.Arithmetic.Recognition
import Descent.Proofs.Text.Bytes
import Descent.Proofs.Parser.Composition
import Descent.Proofs.Positions
import Descent.Proofs.Writing
import Descent.Proofs.Script.Shape
import Descent.Proofs.Script.RoundTrip
import Descent.Proofs.Text.Runs
import Descent.Proofs.Correspondence
import Descent.Proofs.Seams
import Descent.Proofs.Arithmetic.RoundTrip
import Descent.Proofs.Script.Concatenation
import Descent.Proofs.Parser.Trimming
import Descent.Proofs.Sentences
import Descent.Proofs.Arithmetic.LongestPrefix
import Descent.Proofs.Parser.Integers
import Descent.Proofs.Script.Inventory
import Descent.Proofs.Script.Outline
import Descent.Proofs.Evaluation
import Descent.Proofs.Termination
import Descent.Proofs.Parser.Repetition
import Descent.Proofs.Arithmetic.Exactness
import Descent.Proofs.Arithmetic.Regrouping
import Descent.Proofs.Prefixes
import Descent.Proofs.Script.LongestExpression
import Descent.Proofs.Parser.Offset
import Descent.Proofs.Marks
import Descent.Proofs.Arithmetic.Oversize
import Descent.Proofs.Parser.Listing
import Descent.Proofs.Text.Lines
import Descent.Proofs.Transcript
import Descent.Proofs.Arithmetic.Session
import Descent.Proofs.Parser.Absorption
import Descent.Proofs.Parser.Alternatives
import Descent.Proofs.Text.Longest
import Descent.Proofs.Words
import Descent.Proofs.Parser.Sequencing
import Descent.Proofs.Progress
