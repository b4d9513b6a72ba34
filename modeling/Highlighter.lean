import Highlighter.Main
import Highlighter.Stylesheet
import Highlighter.Proofs.Builtin.Highlighting
import Highlighter.Proofs.Document.RoundTrip
import Highlighter.Proofs.Registry.Compilation
import Highlighter.Proofs.Registry.LoadingOrder
import Highlighter.Proofs.Registry.Copying
import Highlighter.Proofs.Tokenizer.Termination
import Highlighter.Proofs.Tokenizer.Safety
import Highlighter.Proofs.Tokenizer.Justification
import Highlighter.Proofs.Registry.Effects
import Highlighter.Proofs.Registry.Reading
import Highlighter.Proofs.Registry.Runs
import Highlighter.Proofs.Registry.Missing
import Highlighter.Proofs.Registry.Independence
import Highlighter.Proofs.Registry.Validation
import Highlighter.Proofs.Tokenizer.Splitting
import Highlighter.Proofs.Grammar.Visiting
import Highlighter.Proofs.Registry.Cloning
import Highlighter.Proofs.Registry.Splicing
import Highlighter.Proofs.CommandLine.Formats
import Highlighter.Proofs.Regex.FirstToken
import Highlighter.Proofs.Html.Nesting
import Highlighter.Proofs.Regex.ClassExpansion
import Highlighter.Proofs.Tokenizer.Extent
import Highlighter.Proofs.Tokenizer.Spacing
import Highlighter.Proofs.Registry.Repointing
import Highlighter.Proofs.Regex.Lexemes
import Highlighter.Proofs.Regex.AsciiFolding
import Highlighter.Proofs.Regex.Shorthands
import Highlighter.Proofs.Document.Members
import Highlighter.Proofs.Fragment.Decoding
import Highlighter.Proofs.Registry.Distinct
import Highlighter.Proofs.Tokenizer.Merging
import Highlighter.Proofs.Tokenizer.Guard
import Highlighter.Proofs.Tokenizer.Watching
import Highlighter.Proofs.Html.Escaping
import Highlighter.Proofs.Regex.Display
