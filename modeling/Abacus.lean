import Abacus.Session
import Abacus.Main
import Abacus.Proofs.Blocks
import Abacus.Proofs.Coverage
import Abacus.Proofs.Seam
import Abacus.Proofs.Traces
import Abacus.Proofs.Histories
import Abacus.Proofs.Rounding
import Abacus.Proofs.Shortest
import Abacus.Proofs.Written
import Abacus.Proofs.JsonNumbers
import Abacus.Proofs.Rereading
import Abacus.Proofs.TokenDocuments
import Abacus.Proofs.Lines
import Abacus.Proofs.Rendering
import Abacus.Proofs.Runs
import Abacus.Proofs.Nearest
import Abacus.Proofs.Numerals
import Abacus.Proofs.Progress
import Abacus.Proofs.Filters
import Abacus.Proofs.InForce
import Abacus.Proofs.LongestMatch
import Abacus.Proofs.Stability
import Abacus.Proofs.Choice
import Abacus.Proofs.Legibility
import Abacus.Proofs.Trails
import Abacus.Proofs.Abreast
import Abacus.Proofs.Sources
import Abacus.Proofs.JsonValues
import Abacus.Proofs.Overlay
import Abacus.Proofs.Requests
