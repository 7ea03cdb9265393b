import Descent.Arith.Expression
import Descent.Parser.Sequence
import Descent.Proofs.LongestRun
import Descent.Proofs.Repetition
import Descent.Proofs.Scan
import Descent.Proofs.Numeral
import Descent.Proofs.Expression
import Descent.Proofs.Grammar
import Descent.Proofs.Similarity
import Descent.Proofs.Invariant
import Descent.Proofs.Breach
import Descent.Proofs.Suffix
import Descent.Proofs.ArithGrammar
import Descent.Proofs.Progress
import Descent.Proofs.Consumed
import Descent.Proofs.Inversion
import Descent.Proofs.Fault
import Descent.Proofs.Wording
import Descent.Proofs.Laws
import Descent.Proofs.Nullable
import Descent.Proofs.CharRun
import Descent.Proofs.Currying
import Descent.Proofs.OrderedChoice
import Descent.Arith.Formats
import Descent.Proofs.IntegerList
import Descent.Proofs.Segmentation
import Descent.Proofs.ExactArithmetic
import Descent.Proofs.NumberParts
import Descent.Proofs.Unrolling
import Descent.Proofs.NestedRepetition
import Descent.Proofs.Keyword
import Descent.Proofs.LongestMatch
import Descent.Proofs.Spelling
import Descent.Proofs.Factoring
import Descent.Proofs.Sequencing
import Descent.Proofs.Naturality
import Descent.Proofs.Trimming
import Descent.Proofs.Folding
import Descent.Proofs.Words
import Descent.Proofs.Record
import Descent.Proofs.ByteOffset
import Descent.Proofs.ScannedCut
