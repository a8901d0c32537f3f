import Parley.Compilation
import Parley.Decimal.Reading
import Parley.Interpreter.Rehearsal
import Parley.Interpreter.Script
import Parley.Lexicon.Files
import Parley.LogLevel
import Parley.Session.Create
import Parley.Session.Hook
import Parley.Proofs.Answering
import Parley.Proofs.Attempting
import Parley.Proofs.Broadcasting
import Parley.Proofs.Building
import Parley.Proofs.Calling
import Parley.Proofs.Clearing
import Parley.Proofs.Closing
import Parley.Proofs.Compiling
import Parley.Proofs.Containing
import Parley.Proofs.Conversing
import Parley.Proofs.Drawing
import Parley.Proofs.Extending
import Parley.Proofs.Halting
import Parley.Proofs.Holding
import Parley.Proofs.InTurn
import Parley.Proofs.Inheriting
import Parley.Proofs.Merging
import Parley.Proofs.Nearest
import Parley.Proofs.Offering
import Parley.Proofs.Parts
import Parley.Proofs.Places
import Parley.Proofs.Publishing
import Parley.Proofs.Readings
import Parley.Proofs.Refusing
import Parley.Proofs.Releasing
import Parley.Proofs.Resaving
import Parley.Proofs.Resolving
import Parley.Proofs.Restoring
import Parley.Proofs.Spans
import Parley.Proofs.Tabulating
import Parley.Proofs.Unregistering
