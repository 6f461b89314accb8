import FrontEnd.Main
import FrontEnd.Proofs.Analysis.Completeness
import FrontEnd.Proofs.Analysis.Exchange
import FrontEnd.Proofs.Analysis.Notes
import FrontEnd.Proofs.Analysis.References
import FrontEnd.Proofs.Analysis.Renaming
import FrontEnd.Proofs.Analysis.Rendering
import FrontEnd.Proofs.Analysis.Scoping
import FrontEnd.Proofs.Compilation
import FrontEnd.Proofs.Folding
import FrontEnd.Proofs.Lexicon.Exhaustion
import FrontEnd.Proofs.Lexicon.Inverse
import FrontEnd.Proofs.Program.Composition
import FrontEnd.Proofs.Scope.Ascent
import FrontEnd.Proofs.Scope.Visibility
import FrontEnd.Proofs.Token.Joining
import FrontEnd.Proofs.Token.Locality
import FrontEnd.Proofs.Token.LongestMatch
import FrontEnd.Proofs.Token.Numerals
import FrontEnd.Proofs.Token.Printing
import FrontEnd.Proofs.Token.Rescanning
import FrontEnd.Proofs.Token.Unclosed
