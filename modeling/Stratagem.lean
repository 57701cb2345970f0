import Stratagem.Main
import Stratagem.Proofs.Compiler.BracketLimit
import Stratagem.Proofs.Compiler.DerivedNames
import Stratagem.Proofs.Compiler.Identifiers
import Stratagem.Proofs.Compiler.Inert
import Stratagem.Proofs.Compiler.Sides
import Stratagem.Proofs.Compiler.Timeframe
import Stratagem.Proofs.Compiler.Writable
import Stratagem.Proofs.Document.NodeIds
import Stratagem.Proofs.Emission.Earlier
import Stratagem.Proofs.Emission.LeftToRight
import Stratagem.Proofs.Emission.Strict
import Stratagem.Proofs.Emission.TextSize
import Stratagem.Proofs.Expression.Duality
import Stratagem.Proofs.Indicator.Parameters
import Stratagem.Proofs.Leverage.Rearrangement
import Stratagem.Proofs.Logging.Setup
import Stratagem.Proofs.Value.Overlay
import Stratagem.Proofs.Value.ReadBack
