import CqlCanon.Workbench
import CqlCanon.Proofs.Containment
import CqlCanon.Proofs.Qualified
import CqlCanon.Proofs.Refusal
import CqlCanon.Proofs.Verbatim
import CqlCanon.Proofs.Qualification
import CqlCanon.Proofs.Tidy
import CqlCanon.Proofs.LetterCase
import CqlCanon.Proofs.SyntaxError
import CqlCanon.Proofs.Identifier.Quoting
import CqlCanon.Proofs.Limit
import CqlCanon.Proofs.RefusalSpan
import CqlCanon.Proofs.Blanks
import CqlCanon.Proofs.Position
import CqlCanon.Proofs.Progress
import CqlCanon.Proofs.Reread
