import LoxLang.Diagnostic
import LoxLang.Tree

/-!
# Reading from a list of tokens

The state of a reading (the tokens still to come, the next free identity, the errors so far) and the
steps from which the grammar is built. A step may only look at the next token and take it; tokens that
were taken do not come back.

A failed step keeps the state it failed in. `attempt` turns the failure into an error of the state and
skips to a place where a declaration may begin. Running out of fuel is an outcome of its own and not a
failure.
-/

namespace LoxLang

/-- The state of a reading. The end token is not among the pending ones; only its line is kept. -/
structure ReadState where
  pending : List Token
  endLine : Nat
  nextId : NodeId
  errors : List StaticError := []
deriving Repr

namespace ReadState

/-- The line of the next token. -/
def line (s : ReadState) : Nat :=
  match s.pending with
  | [] => s.endLine
  | t :: _ => t.line

/-- The place of the next token. -/
def place (s : ReadState) : Place :=
  match s.pending with
  | [] => .endOfText
  | t :: _ => t.place

/-- An error at the next token. -/
def errorHere (s : ReadState) (fault : GrammarFault) : StaticError :=
  .grammar s.line s.place fault

/-- The state with one more error. -/
def report (s : ReadState) (e : StaticError) : ReadState := { s with errors := s.errors ++ [e] }

end ReadState

/-- How a step ends. -/
inductive ReadResult (α : Type) where
  | ok (value : α) (state : ReadState)
  | fail (error : StaticError) (state : ReadState)
  | outOfFuel

/-- A step of a reading. -/
def Reader (α : Type) : Type := ReadState → ReadResult α

namespace Reader

/-- The step that only yields a value. -/
def done {α : Type} (a : α) : Reader α := fun s => .ok a s

/-- One step after another. -/
def andThen {α β : Type} (step : Reader α) (next : α → Reader β) : Reader β := fun s =>
  match step s with
  | .ok a s => next a s
  | .fail e s => .fail e s
  | .outOfFuel => .outOfFuel

instance : Monad Reader where
  pure := done
  bind := andThen

/-- The end of the fuel. -/
def exhausted {α : Type} : Reader α := fun _ => .outOfFuel

/-- Fails with a given error. -/
def failWith {α : Type} (e : StaticError) : Reader α := fun s => .fail e s

/-- Fails at the next token. -/
def fail {α : Type} (fault : GrammarFault) : Reader α := fun s => .fail (s.errorHere fault) s

/-- Notes an error at the next token under a condition, and goes on in any case. -/
def reportIf (condition : Bool) (fault : GrammarFault) : Reader Unit := fun s =>
  .ok () (if condition then s.report (s.errorHere fault) else s)

/-- The kind of the next token, if there is one. -/
def peek : Reader (Option TokenKind) := fun s => .ok (s.pending.head?.map Token.kind) s

/-- Whether the next token is this mark. -/
def at? (mark : Mark) : Reader Bool := do
  let kind ← peek
  pure (kind == some (.mark mark))

/-- Whether no token is left. -/
def atEnd : Reader Bool := do
  let kind ← peek
  pure kind.isNone

/-- Takes the next token if `choose` has an answer for its kind. -/
def takeIf {α : Type} (choose : TokenKind → Option α) : Reader (Option (α × Token)) := fun s =>
  match s.pending with
  | [] => .ok none s
  | t :: rest =>
    match choose t.kind with
    | some a => .ok (some (a, t)) { s with pending := rest }
    | none => .ok none s

/-- Takes the next token if it is of this kind. -/
def accept (kind : TokenKind) : Reader (Option Token) := do
  let found ← takeIf fun k => if k = kind then some () else none
  pure (found.map Prod.snd)

/-- Takes the next token if it is this mark. -/
def acceptMark (mark : Mark) : Reader (Option Token) := accept (.mark mark)

/-- Takes the next token if it is this keyword. -/
def acceptKeyword (keyword : Keyword) : Reader (Option Token) := accept (.keyword keyword)

/-- Takes this mark, or fails. -/
def expectMark (mark : Mark) (context : MarkContext) : Reader Token := do
  match ← acceptMark mark with
  | some t => pure t
  | none => fail (.missingMark mark context)

/-- Takes a name, or fails. -/
def expectName (role : NameRole) : Reader Name := do
  match ← accept .identifier with
  | some t => pure t.toName
  | none => fail (.missingName role)

/-- A step behind a token of this kind; nothing without the token. -/
def behind? {α : Type} (kind : TokenKind) (step : Reader α) : Reader (Option α) := do
  match ← accept kind with
  | some _ => some <$> step
  | none => pure none

/-- A step, but nothing if the next token is this mark. -/
def unlessAt {α : Type} (mark : Mark) (step : Reader α) : Reader (Option α) := do
  if ← at? mark then pure none else some <$> step

/-- A reference to a name, with the next free identity. -/
def newReference (name : Name) : Reader Reference := fun s =>
  .ok ⟨s.nextId, name⟩ { s with nextId := s.nextId + 1 }

end Reader

/-- Whether a token of this kind begins a declaration or a statement other than an expression. -/
def TokenKind.startsStatement : TokenKind → Bool
  | keyword .classWord => true
  | keyword .funWord => true
  | keyword .varWord => true
  | keyword .forWord => true
  | keyword .ifWord => true
  | keyword .whileWord => true
  | keyword .returnWord => true
  | _ => false

/-- The tokens after a failure: one is skipped in any case, then all up to and with a semicolon or up to
a token that begins a statement. -/
def recover : List Token → List Token
  | [] => []
  | t :: rest =>
    if t.kind = .mark .semicolon then rest
    else
      match rest with
      | [] => []
      | next :: _ => if next.kind.startsStatement then rest else recover rest

/-- Runs a step; a failure is noted as an error and the reading goes on behind it. -/
def Reader.attempt {α : Type} (step : Reader α) : Reader (Option α) := fun s =>
  match step s with
  | .ok a s => .ok (some a) s
  | .fail e s => .ok none { s.report e with pending := recover s.pending }
  | .outOfFuel => .outOfFuel

end LoxLang
