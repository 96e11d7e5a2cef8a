import LoxLang.Proofs.Joining.Reline
import LoxLang.Proofs.Relabel.Resolve
import LoxLang.Proofs.Scoping.Balance

/-!
# Resolving a joined program

Since no frame is left open behind a program, a program behind another one is resolved as if it stood alone.
-/

namespace LoxLang

theorem stmts_append (setting : Setting) (body rest : List Stmt) (r : Resolution) :
    Resolution.stmts setting (body ++ rest) r =
      Resolution.stmts setting rest (Resolution.stmts setting body r) := by
  induction body generalizing r with
  | nil => rfl
  | cons s body ih => exact ih _

/-- A program changes nothing for the one behind it, whatever errors it has. -/
theorem resolve_append (move : Nat → Nat) (program rest : List Stmt) :
    (resolve (program ++ relineBody move rest)).notes =
        (resolve rest).notes ++ (resolve program).notes ∧
      (resolve (program ++ relineBody move rest)).errors =
        (resolve rest).errors.map (StaticError.relabel (.lines move)) ++ (resolve program).errors := by
  have hstart : Behind (.lines move) (resolve program) {} (resolve program) :=
    ⟨resolve_leaves_no_frames program, rfl, rfl⟩
  have hend := stmts_parallel (.lines move) {} rest _ _ _ hstart
  have hwhole : resolve (program ++ relineBody move rest) =
      Resolution.stmts {} (relineBody move rest) (resolve program) := stmts_append ..
  have hnotes : (resolve rest).notes.map (Note.relabel (.lines move)) = (resolve rest).notes :=
    List.map_id _
  rw [relabelBody_lines, ← hwhole] at hend
  refine ⟨?_, hend.errors⟩
  rw [hend.notes]
  exact congrArg (· ++ (resolve program).notes) hnotes

end LoxLang
