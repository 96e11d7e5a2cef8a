import LoxLang.Main
import LoxLang.Proofs.Arithmetic.Division
import LoxLang.Proofs.Arithmetic.Power
import LoxLang.Proofs.Assignment
import LoxLang.Proofs.Failure
import LoxLang.Proofs.Grammar.Documented
import LoxLang.Proofs.Grammar.Enclosed
import LoxLang.Proofs.Grammar.MissingSemicolon
import LoxLang.Proofs.Grammar.Recovery
import LoxLang.Proofs.Grammar.SoftLimits
import LoxLang.Proofs.Heap.Session
import LoxLang.Proofs.Isolation.Session
import LoxLang.Proofs.Joining.Session
import LoxLang.Proofs.Numbering.Session
import LoxLang.Proofs.Position.Rules
import LoxLang.Proofs.Prefix.Unambiguous
import LoxLang.Proofs.Rendering.Circle
import LoxLang.Proofs.Sequence.Course
import LoxLang.Proofs.Writing.Session
import LoxLang.Proofs.Renaming.Session
import LoxLang.Proofs.Renumber.Session
import LoxLang.Proofs.Resolver
import LoxLang.Proofs.Restoring
import LoxLang.Proofs.Returns
import LoxLang.Proofs.Scan.Lines
import LoxLang.Proofs.Scan.Quoting
import LoxLang.Proofs.Scan.Respacing
import LoxLang.Proofs.Scoping.Breach
import LoxLang.Proofs.Scoping.Dispatch
import LoxLang.Proofs.Store.Outermost
import LoxLang.Proofs.Visits.Arguments
import LoxLang.Proofs.Visits.Initializer
