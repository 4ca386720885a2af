import SoundLang.Main
import SoundLang.Proofs.Command
import SoundLang.Proofs.Diagnostic.Colors
import SoundLang.Proofs.Lexer.Logged
import SoundLang.Proofs.Lexer.Rendered
import SoundLang.Proofs.Number.Signed
import SoundLang.Proofs.Outline.Items
import SoundLang.Proofs.Parse.Chain
import SoundLang.Proofs.Parse.Settled
import SoundLang.Proofs.Session.Prompts
import SoundLang.Proofs.Session.Reports
import SoundLang.Proofs.Session.Stepped
import SoundLang.Proofs.Source.Adjacent
import SoundLang.Proofs.Types.Again
import SoundLang.Proofs.Types.Annotated
import SoundLang.Proofs.Types.Flags
import SoundLang.Proofs.Types.Interning
import SoundLang.Proofs.Types.Order
import SoundLang.Proofs.Types.Shown
import SoundLang.Proofs.Types.Unambiguous
import SoundLang.Proofs.Types.WellFormed
