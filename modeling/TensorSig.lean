import TensorSig.Main
import TensorSig.Proofs.Derivation
import TensorSig.Proofs.Words
import TensorSig.Proofs.Munch
import TensorSig.Proofs.Spelling
import TensorSig.Proofs.Reading
import TensorSig.Proofs.Notation
import TensorSig.Proofs.Meaning
import TensorSig.Proofs.RoundTrip
import TensorSig.Proofs.Completion
import TensorSig.Proofs.ErrorOffset
import TensorSig.Proofs.Relocation
import TensorSig.Proofs.Moving
import TensorSig.Proofs.Composition
import TensorSig.Proofs.DeclarationLine
import TensorSig.Proofs.Listing
import TensorSig.Proofs.WhiteSpace
import TensorSig.Proofs.ErrorLexeme
import TensorSig.Proofs.SyntaxTree
import TensorSig.Proofs.TreeBuilder
import TensorSig.Proofs.Regular
import TensorSig.Proofs.Outcome
import TensorSig.Proofs.Isolation
import TensorSig.Proofs.Arguments
import TensorSig.Proofs.FileListings
import TensorSig.Proofs.StandardInput
import TensorSig.Proofs.TypeGrammars
import TensorSig.Proofs.ResultNames
import TensorSig.Proofs.Lead
import TensorSig.Proofs.Flaws
import TensorSig.Proofs.Column
import TensorSig.Proofs.OpenBrackets
import TensorSig.Proofs.QuotedText
import TensorSig.Proofs.Rounding
import TensorSig.Proofs.DoubleText
import TensorSig.Proofs.PrintedForm
import TensorSig.Proofs.Suggestions
import TensorSig.Proofs.Position
import TensorSig.Proofs.LineParts
import TensorSig.Proofs.Moves
