import Sulti.Main
import Sulti.Proofs.Exec.Counting
import Sulti.Proofs.Exec.Locality
import Sulti.Proofs.Exec.Reading
import Sulti.Proofs.Exec.Storing
import Sulti.Proofs.Grammar.BlankLines
import Sulti.Proofs.Grammar.Horizon
import Sulti.Proofs.Grammar.Modes
import Sulti.Proofs.Grammar.RoundTrip
import Sulti.Proofs.Input.Printed
import Sulti.Proofs.Input.Range
import Sulti.Proofs.Numero.Exact
import Sulti.Proofs.Session.Incremental
import Sulti.Proofs.Session.Initialised
import Sulti.Proofs.Session.Recovery
import Sulti.Proofs.Session.Safety
import Sulti.Proofs.Session.Sources
import Sulti.Proofs.Token.Spacing
import Sulti.Proofs.Token.Tiling
import Sulti.Proofs.Typing.Agreement
