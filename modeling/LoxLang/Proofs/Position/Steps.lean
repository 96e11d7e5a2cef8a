import LoxLang.Proofs.Grammar.Agreement
import LoxLang.Proofs.Grammar.First

/-!
# Steps over tokens with a position

A walk keeps all tokens, the one at the end among them, and a position: it looks at the token there, goes on by one
token, or looks back at the token in front of it. A look beyond the tokens on either side ends the walk. Whatever
happens to the position is kept as a history, also where a declaration is given up.

A reading sees the same tokens as a list of pending ones, from which nothing can be asked that was taken. The steps
of a walk do what those of a reading do, and keep the position within the tokens (`Tracks`).
-/

namespace LoxLang

/-! ## States -/

/-- What happens to a position. -/
inductive PositionEvent where
  /-- The walk goes on to this position. -/
  | moved (position : Nat)
  /-- From this position the walk looks at the token in front of it. -/
  | lookedBack (position : Nat)
  /-- A declaration was begun at one position and ended at the other. -/
  | declared (start stop : Nat)
deriving DecidableEq, Repr

/-- The state of a walk. -/
structure WalkState where
  position : Nat := 0
  nextId : NodeId
  errors : List StaticError := []
  history : List PositionEvent := []
deriving Repr

namespace WalkState

/-- The state in front of the first token. -/
def start (firstId : NodeId) : WalkState where
  nextId := firstId

/-- The state with one more event. -/
def note (w : WalkState) (event : PositionEvent) : WalkState := { w with history := w.history ++ [event] }

/-- The state at the next position. -/
def next (w : WalkState) : WalkState := { w with position := w.position + 1 }.note (.moved (w.position + 1))

/-- The positions to which the walk went on, in their order. -/
def moves (w : WalkState) : List Nat :=
  w.history.filterMap fun
    | .moved position => some position
    | _ => none

end WalkState

/-- How a step of a walk ends. -/
inductive WalkResult (α : Type) where
  | ok (value : α) (state : WalkState)
  | fail (error : StaticError) (state : WalkState)
  | outOfBounds
  | outOfFuel

/-- A step of a walk over tokens. -/
def Walk (α : Type) : Type := List Token → WalkState → WalkResult α

/-! ## Steps -/

namespace Walk
variable {α β : Type}

/-- The step that only yields a value. -/
def done (a : α) : Walk α := fun _ w => .ok a w

/-- One step after another. -/
def andThen (step : Walk α) (next : α → Walk β) : Walk β := fun tokens w =>
  match step tokens w with
  | .ok a w => next a tokens w
  | .fail e w => .fail e w
  | .outOfBounds => .outOfBounds
  | .outOfFuel => .outOfFuel

instance : Monad Walk where
  pure := done
  bind := andThen

/-- The end of the fuel. -/
def exhausted : Walk α := fun _ _ => .outOfFuel

/-- Fails with a given error. -/
def failWith (e : StaticError) : Walk α := fun _ w => .fail e w

/-- Notes an error and goes on. -/
def report (e : StaticError) : Walk Unit := fun _ w => .ok () { w with errors := w.errors ++ [e] }

/-- The token at the position. -/
def peek : Walk Token := fun tokens w =>
  match tokens[w.position]? with
  | some t => .ok t w
  | none => .outOfBounds

/-- The token in front of the position. -/
def previous : Walk Token := fun tokens w =>
  if w.position = 0 then .outOfBounds
  else
    match tokens[w.position - 1]? with
    | some t => .ok t (w.note (.lookedBack w.position))
    | none => .outOfBounds

/-- Goes on by one token. -/
def move : Walk Unit := fun _ w => .ok () w.next

/-- Whether the end token is at the position. -/
def isAtEnd : Walk Bool := do
  let token ← peek
  pure (token.kind == .eof)

/-- Whether a token of this kind is at the position. The end token never counts. -/
def check (kind : TokenKind) : Walk Bool := do
  if ← isAtEnd then pure false
  else
    let token ← peek
    pure (token.kind == kind)

/-- Takes a token, but not the end token. The token in front of the position is handed on in any case. -/
def advance : Walk Token := do
  unless ← isAtEnd do move
  previous

/-- Takes a token of this kind, and says whether there was one. -/
def accepts (kind : TokenKind) : Walk Bool := do
  if ← check kind then
    let _ ← advance
    pure true
  else pure false

/-- Fails at the position. -/
def fail (fault : GrammarFault) : Walk α := do
  let token ← peek
  failWith (.grammar token.line token.place fault)

/-- Takes a token of this kind, or fails. -/
def consume (kind : TokenKind) (fault : GrammarFault) : Walk Token := do
  if ← check kind then advance else fail fault

/-- Takes this mark, or fails. -/
def consumeMark (mark : Mark) (context : MarkContext) : Walk Token :=
  consume (.mark mark) (.missingMark mark context)

/-- Takes a name, or fails. -/
def consumeName (role : NameRole) : Walk Name := do
  let token ← consume .identifier (.missingName role)
  pure token.toName

/-- Notes an error at the position under a condition, and goes on in any case. -/
def reportIf (condition : Bool) (fault : GrammarFault) : Walk Unit := do
  if condition then
    let token ← peek
    report (.grammar token.line token.place fault)
  else pure ()

/-- Takes the token at the position if `choose` has an answer for its kind. -/
def takeIf (choose : TokenKind → Option α) : Walk (Option (α × Token)) := do
  let token ← peek
  match choose token.kind with
  | some a =>
    let taken ← advance
    pure (some (a, taken))
  | none => pure none

/-- A step behind a token of this kind; nothing without the token. -/
def behind? (kind : TokenKind) (step : Walk α) : Walk (Option α) := do
  if ← accepts kind then some <$> step else pure none

/-- A step, but nothing if this mark is at the position. -/
def unlessAt (mark : Mark) (step : Walk α) : Walk (Option α) := do
  if ← check (.mark mark) then pure none else some <$> step

/-- A reference to a name, with the next free identity. -/
def newReference (name : Name) : Walk Reference := fun _ w =>
  .ok ⟨w.nextId, name⟩ { w with nextId := w.nextId + 1 }

/-- Takes tokens up to and with a semicolon, or up to one that begins a statement. -/
def skip : Nat → Walk Unit
  | 0 => exhausted
  | fuel + 1 => do
    if ← isAtEnd then pure ()
    else
      let before ← previous
      if before.kind = .mark .semicolon then pure ()
      else
        let token ← peek
        if token.kind.startsStatement then pure ()
        else
          let _ ← advance
          skip fuel

/-- Goes on to a place where a declaration may begin. The token at the position is skipped in any case. -/
def synchronize : Walk Unit := do
  let _ ← advance
  fun tokens => skip tokens.length tokens

/-- Notes an error, and goes on to a place where a declaration may begin. -/
def giveUp (e : StaticError) : Walk (Option α) := do
  report e
  synchronize
  pure none

/-- Runs a step; a failure is noted as an error and the walk goes on behind it. -/
def attempt (step : Walk α) : Walk (Option α) := fun tokens w =>
  match step tokens w with
  | .ok a w => .ok (some a) w
  | .fail e w => giveUp e tokens w
  | .outOfBounds => .outOfBounds
  | .outOfFuel => .outOfFuel

/-- Runs a step and keeps in the history where it began and where it ended. -/
def recorded (step : Walk α) : Walk α := fun tokens start =>
  match step tokens start with
  | .ok a stop => .ok a (stop.note (.declared start.position stop.position))
  | result => result

end Walk

/-! ## Walks beside readings -/

/-- What holds of the history of a walk over so many tokens in front of the end token: the walk went from position to
position without leaving one out, looked back only where a token stands in front, and no declaration ended where it
began, unless at the end token. -/
structure WalkState.Sound (size : Nat) (w : WalkState) : Prop where
  inside : w.position ≤ size
  moves : w.moves = List.range' 1 w.position
  looksBack : ∀ position, .lookedBack position ∈ w.history → 0 < position
  advances : ∀ start stop, .declared start stop ∈ w.history → start < size → start < stop

/-- The walk stands where the reading stands. -/
structure Tracks (words : List Token) (final : Token) (w : WalkState) (s : ReadState) : Prop where
  pending : s.pending = words.drop w.position
  endLine : s.endLine = final.line
  nextId : w.nextId = s.nextId
  errors : w.errors = s.errors
  sound : w.Sound words.length

/-- As `Tracks`, behind this token. -/
structure TracksBehind (words : List Token) (final t : Token) (w : WalkState) (s : ReadState) : Prop
    extends Tracks words final w s where
  moved : 0 < w.position
  before : words[w.position - 1]? = some t

/-- Two results that belong to each other. -/
inductive WalkResult.Along {α β : Type} (words : List Token) (final : Token)
    (after : α → β → WalkState → ReadState → Prop) : WalkResult α → ReadResult β → Prop
  | ok {a : α} {b : β} {w : WalkState} {s : ReadState} : after a b w s → Along words final after (.ok a w) (.ok b s)
  | fail {w : WalkState} {s : ReadState} (e : StaticError) : Tracks words final w s →
      Along words final after (.fail e w) (.fail e s)
  | outOfFuel : Along words final after .outOfFuel .outOfFuel

/-- From states that `before` relates, a walk and a reading come to results that belong to each other. -/
def Walk.Along {α β : Type} (words : List Token) (final : Token) (before : WalkState → ReadState → Prop)
    (walk : Walk α) (read : Reader β) (after : α → β → WalkState → ReadState → Prop) : Prop :=
  ∀ w s, before w s → (walk (words ++ [final]) w).Along words final after (read s)

/-- The walk goes along with the reading, with the same result. -/
abbrev Walk.Keeps {α : Type} (words : List Token) (final : Token) (walk : Walk α) (read : Reader α) : Prop :=
  walk.Along words final (Tracks words final) read fun a b w s => a = b ∧ Tracks words final w s

/-! ## Sound histories -/

namespace WalkState.Sound
variable {size : Nat} {w : WalkState}

theorem start (firstId : NodeId) : (WalkState.start firstId).Sound size :=
  ⟨Nat.zero_le _, rfl, fun _ h => (List.not_mem_nil h).elim, fun _ _ h => (List.not_mem_nil h).elim⟩

theorem next (h : w.Sound size) (hw : w.position < size) : w.next.Sound size where
  inside := hw
  moves := by
    have hmoves : w.next.moves = w.moves ++ [w.position + 1] := List.filterMap_append
    rw [hmoves, h.moves, Nat.add_comm]
    exact List.range'_1_concat.symm
  looksBack position hp := by
    rcases List.mem_append.1 hp with hp | hp
    · exact h.looksBack position hp
    · cases List.mem_singleton.1 hp
  advances begin stop hd := by
    rcases List.mem_append.1 hd with hd | hd
    · exact h.advances begin stop hd
    · cases List.mem_singleton.1 hd

theorem lookBack (h : w.Sound size) (hw : 0 < w.position) : (w.note (.lookedBack w.position)).Sound size where
  inside := h.inside
  moves := by
    have hmoves : (w.note (.lookedBack w.position)).moves = w.moves ++ [] := List.filterMap_append
    rw [hmoves, List.append_nil]
    exact h.moves
  looksBack position hp := by
    rcases List.mem_append.1 hp with hp | hp
    · exact h.looksBack position hp
    · cases List.mem_singleton.1 hp
      exact hw
  advances begin stop hd := by
    rcases List.mem_append.1 hd with hd | hd
    · exact h.advances begin stop hd
    · cases List.mem_singleton.1 hd

theorem declare (h : w.Sound size) {begin : Nat} (hw : begin < size → begin < w.position) :
    (w.note (.declared begin w.position)).Sound size where
  inside := h.inside
  moves := by
    have hmoves : (w.note (.declared begin w.position)).moves = w.moves ++ [] := List.filterMap_append
    rw [hmoves, List.append_nil]
    exact h.moves
  looksBack position hp := by
    rcases List.mem_append.1 hp with hp | hp
    · exact h.looksBack position hp
    · cases List.mem_singleton.1 hp
  advances start stop hd := by
    rcases List.mem_append.1 hd with hd | hd
    · exact h.advances start stop hd
    · cases List.mem_singleton.1 hd
      exact hw

end WalkState.Sound

/-! ## Single steps -/

theorem recover_single (t : Token) : recover [t] = [] := by
  rw [recover.eq_def]
  exact ite_self _

theorem recover_cons (t u : Token) (us : List Token) : recover (t :: u :: us) =
    if t.kind = .mark .semicolon then u :: us else if u.kind.startsStatement then u :: us else recover (u :: us) := by
  rw [recover.eq_def]

/-- The last token is the only end token, and it is not the first one. -/
structure EndsOnce (words : List Token) (final : Token) : Prop where
  inner : ∀ t ∈ words, t.kind ≠ .eof
  last : final.kind = .eof
  nonempty : words ≠ []

namespace Walk
variable {α β : Type} {tokens : List Token} {w w' : WalkState}

theorem bind_ok {step : Walk α} {a : α} (h : step tokens w = .ok a w') (next : α → Walk β) :
    (step >>= next) tokens w = next a tokens w' := by
  change andThen step next tokens w = _
  unfold andThen
  rw [h]

end Walk

namespace Tracks
variable {words : List Token} {final t : Token} {rest : List Token} {w : WalkState} {s : ReadState}

theorem length (h : Tracks words final w s) : w.position + s.pending.length = words.length := by
  rw [h.pending, List.length_drop]
  exact Nat.add_sub_of_le h.sound.inside

theorem lt (h : Tracks words final w s) (hs : s.pending = t :: rest) : w.position < words.length := by
  have hlength := h.length
  rw [hs, List.length_cons] at hlength
  omega

theorem here (h : Tracks words final w s) (hs : s.pending = t :: rest) : words[w.position]? = some t := by
  rw [← List.head?_drop, ← h.pending, hs]
  rfl

theorem peek_cons (h : Tracks words final w s) (hs : s.pending = t :: rest) :
    Walk.peek (words ++ [final]) w = .ok t w := by
  unfold Walk.peek
  rw [List.getElem?_append_left (h.lt hs), h.here hs]

theorem position_nil (h : Tracks words final w s) (hs : s.pending = []) : w.position = words.length := by
  have hlength := h.length
  rwa [hs] at hlength

theorem peek_nil (h : Tracks words final w s) (hs : s.pending = []) :
    Walk.peek (words ++ [final]) w = .ok final w := by
  unfold Walk.peek
  rw [h.position_nil hs, List.getElem?_concat_length]

end Tracks

namespace EndsOnce
variable {words : List Token} {final t : Token} {rest : List Token} {w : WalkState} {s : ReadState}

theorem kind (h : EndsOnce words final) (ht : Tracks words final w s) (hs : s.pending = t :: rest) :
    t.kind ≠ .eof := h.inner t (List.mem_of_getElem? (ht.here hs))

theorem isAtEnd_cons (h : EndsOnce words final) (ht : Tracks words final w s) (hs : s.pending = t :: rest) :
    Walk.isAtEnd (words ++ [final]) w = .ok false w := by
  refine (Walk.bind_ok (ht.peek_cons hs) _).trans ?_
  rw [beq_eq_false_iff_ne.2 (h.kind ht hs)]
  rfl

theorem isAtEnd_nil (h : EndsOnce words final) (ht : Tracks words final w s) (hs : s.pending = []) :
    Walk.isAtEnd (words ++ [final]) w = .ok true w := by
  refine (Walk.bind_ok (ht.peek_nil hs) _).trans ?_
  rw [h.last]
  rfl

theorem check_cons (h : EndsOnce words final) (ht : Tracks words final w s) (hs : s.pending = t :: rest)
    (kind : TokenKind) : Walk.check kind (words ++ [final]) w = .ok (t.kind == kind) w :=
  (Walk.bind_ok (h.isAtEnd_cons ht hs) _).trans (Walk.bind_ok (ht.peek_cons hs) _)

theorem check_nil (h : EndsOnce words final) (ht : Tracks words final w s) (hs : s.pending = [])
    (kind : TokenKind) : Walk.check kind (words ++ [final]) w = .ok false w :=
  Walk.bind_ok (h.isAtEnd_nil ht hs) _

/-- Behind a token, a look back finds this token. -/
theorem previous (ht : TracksBehind words final t w s) :
    Walk.previous (words ++ [final]) w = .ok t (w.note (.lookedBack w.position)) ∧
      TracksBehind words final t (w.note (.lookedBack w.position)) s := by
  have hlt : w.position - 1 < words.length := (List.getElem?_eq_some_iff.1 ht.before).1
  refine ⟨?_, ⟨ht.pending, ht.endLine, ht.nextId, ht.errors, ht.sound.lookBack ht.moved⟩, ht.moved, ht.before⟩
  unfold Walk.previous
  rw [if_neg (Nat.ne_of_gt ht.moved), List.getElem?_append_left hlt, ht.before]

theorem move (ht : Tracks words final w s) (hs : s.pending = t :: rest) :
    TracksBehind words final t w.next { s with pending := rest } where
  pending := by
    change rest = words.drop (w.position + 1)
    rw [← List.tail_drop, ← ht.pending, hs]
    rfl
  endLine := ht.endLine
  nextId := ht.nextId
  errors := ht.errors
  sound := ht.sound.next (ht.lt hs)
  moved := Nat.succ_pos _
  before := ht.here hs

/-- In front of the end token, a token is taken. -/
theorem advance_cons (h : EndsOnce words final) (ht : Tracks words final w s) (hs : s.pending = t :: rest) :
    ∃ w', Walk.advance (words ++ [final]) w = .ok t w' ∧ TracksBehind words final t w' { s with pending := rest } := by
  obtain ⟨hback, hbehind⟩ := previous (move ht hs)
  refine ⟨_, ?_, hbehind⟩
  exact (Walk.bind_ok (h.isAtEnd_cons ht hs) _).trans hback

/-- At the end token nothing is taken, and a token stands in front. -/
theorem advance_nil (h : EndsOnce words final) (ht : Tracks words final w s) (hs : s.pending = []) :
    ∃ t w', Walk.advance (words ++ [final]) w = .ok t w' ∧ TracksBehind words final t w' s := by
  have hposition := ht.position_nil hs
  have hmoved : 0 < w.position := hposition ▸ List.length_pos_iff.2 h.nonempty
  have hlt : w.position - 1 < words.length := by omega
  obtain ⟨hback, hbehind⟩ := previous ⟨ht, hmoved, List.getElem?_eq_getElem hlt⟩
  refine ⟨_, _, ?_, hbehind⟩
  exact (Walk.bind_ok (h.isAtEnd_nil ht hs) _).trans hback

end EndsOnce

/-! ## Steps in step -/

namespace Walk
variable {words : List Token} {final : Token} {α β γ δ : Type} {before : WalkState → ReadState → Prop}

theorem keeps_exhausted : (exhausted : Walk α).Keeps words final Reader.exhausted := fun _ _ _ => .outOfFuel

theorem keeps_pure (a : α) : (pure a : Walk α).Keeps words final (pure a) := fun _ _ h => .ok ⟨rfl, h⟩

theorem keeps_failWith (e : StaticError) : (failWith e : Walk α).Keeps words final (Reader.failWith e) :=
  fun _ _ h => .fail e h

theorem Along.bind {walk : Walk α} {read : Reader β} {between : α → β → WalkState → ReadState → Prop}
    {after : γ → δ → WalkState → ReadState → Prop} {f : α → Walk γ} {g : β → Reader δ}
    (h : walk.Along words final before read between)
    (hn : ∀ a b, (f a).Along words final (between a b) (g b) after) :
    (walk >>= f).Along words final before (read >>= g) after := by
  intro w s hws
  have hfirst := h w s hws
  change WalkResult.Along words final after (andThen walk f _ w) (Reader.andThen read g s)
  unfold andThen Reader.andThen
  generalize walk (words ++ [final]) w = r at hfirst ⊢
  generalize read s = r' at hfirst ⊢
  cases hfirst with
  | ok hbetween => exact hn _ _ _ _ hbetween
  | fail e hfail => exact .fail e hfail
  | outOfFuel => exact .outOfFuel

theorem Keeps.bind {walk : Walk α} {read : Reader α} {after : γ → δ → WalkState → ReadState → Prop}
    {f : α → Walk γ} {g : α → Reader δ} (h : walk.Keeps words final read)
    (hn : ∀ a, (f a).Along words final (Tracks words final) (g a) after) :
    (walk >>= f).Along words final (Tracks words final) (read >>= g) after := by
  refine Along.bind h fun a b w s hws => ?_
  obtain ⟨rfl, hws⟩ := hws
  exact hn a w s hws

theorem Keeps.map {walk : Walk α} {read : Reader α} (f : α → γ) (h : walk.Keeps words final read) :
    (f <$> walk).Keeps words final (f <$> read) := h.bind fun a => keeps_pure (f a)

/-- Where the token in front does not matter. -/
theorem Along.anywhere {t : Token} {walk : Walk α} {read : Reader β} {after : α → β → WalkState → ReadState → Prop}
    (h : walk.Along words final (Tracks words final) read after) :
    walk.Along words final (TracksBehind words final t) read after := fun w s hws => h w s hws.toTracks

/-- A look back behind a token that was taken. -/
theorem Along.previous {t : Token} {f : Token → Walk α} {read : Reader β}
    {after : α → β → WalkState → ReadState → Prop}
    (h : (f t).Along words final (TracksBehind words final t) read after) :
    (previous >>= f).Along words final (TracksBehind words final t) read after := by
  intro w s hws
  obtain ⟨hback, hbehind⟩ := EndsOnce.previous hws
  rw [bind_ok hback]
  exact h _ s hbehind

theorem keeps_newReference (name : Name) :
    (newReference name).Keeps words final (Reader.newReference name) := by
  intro w s hws
  unfold newReference Reader.newReference
  rw [← hws.nextId]
  exact .ok ⟨rfl, hws.pending, hws.endLine, rfl, hws.errors, ⟨hws.sound.inside, hws.sound.moves,
    hws.sound.looksBack, hws.sound.advances⟩⟩

end Walk

namespace EndsOnce
variable {words : List Token} {final : Token} (h : EndsOnce words final) {α β γ : Type}
include h

theorem isAtEnd : Walk.isAtEnd.Keeps words final Reader.atEnd := by
  intro w s hws
  change WalkResult.Along _ _ _ _ (.ok (s.pending.head?.map Token.kind).isNone s)
  cases hs : s.pending with
  | nil =>
    rw [h.isAtEnd_nil hws hs]
    exact .ok ⟨rfl, hws⟩
  | cons t rest =>
    rw [h.isAtEnd_cons hws hs]
    exact .ok ⟨rfl, hws⟩

theorem check (mark : Mark) : (Walk.check (.mark mark)).Keeps words final (Reader.at? mark) := by
  intro w s hws
  change WalkResult.Along _ _ _ _ (.ok (s.pending.head?.map Token.kind == some (.mark mark)) s)
  cases hs : s.pending with
  | nil =>
    rw [h.check_nil hws hs]
    exact .ok ⟨rfl, hws⟩
  | cons t rest =>
    rw [h.check_cons hws hs]
    exact .ok ⟨by simp, hws⟩

/-- An error at the position stands at the next token. -/
theorem peek {f : Token → Walk α} {read : Reader β} {after : α → β → WalkState → ReadState → Prop}
    (hf : ∀ t w s, Tracks words final w s → s.line = t.line → s.place = t.place →
      (f t (words ++ [final]) w).Along words final after (read s)) :
    (Walk.peek >>= f).Along words final (Tracks words final) read after := by
  intro w s hws
  cases hs : s.pending with
  | nil =>
    rw [Walk.bind_ok (hws.peek_nil hs)]
    refine hf final w s hws ?_ ?_
    · unfold ReadState.line
      rw [hs]
      exact hws.endLine
    · unfold ReadState.place Token.place
      rw [hs, h.last]
  | cons t rest =>
    rw [Walk.bind_ok (hws.peek_cons hs)]
    refine hf t w s hws ?_ ?_
    · unfold ReadState.line
      rw [hs]
    · unfold ReadState.place
      rw [hs]

/-- A look at the token at the position, of which nothing is kept. -/
theorem glance {walk : Walk α} {read : Reader β} {after : α → β → WalkState → ReadState → Prop}
    (hw : walk.Along words final (Tracks words final) read after) :
    (Walk.peek >>= fun _ => walk).Along words final (Tracks words final) read after :=
  h.peek fun _ w s hws _ _ => hw w s hws

theorem fail (fault : GrammarFault) : (Walk.fail fault : Walk α).Keeps words final (Reader.fail fault) := by
  refine h.peek fun t w s hws hline hplace => ?_
  unfold Reader.fail ReadState.errorHere
  rw [hline, hplace]
  exact .fail _ hws

theorem reportIf (condition : Bool) (fault : GrammarFault) :
    (Walk.reportIf condition fault).Keeps words final (Reader.reportIf condition fault) := by
  cases condition with
  | false => exact Walk.keeps_pure ()
  | true =>
    refine h.peek fun t w s hws hline hplace => ?_
    unfold Reader.reportIf ReadState.errorHere
    rw [hline, hplace]
    refine .ok ⟨rfl, hws.pending, hws.endLine, hws.nextId, ?_, ⟨hws.sound.inside, hws.sound.moves,
      hws.sound.looksBack, hws.sound.advances⟩⟩
    exact congrArg (· ++ _) hws.errors

/-- Behind a token that is taken if it comes next, or where it does not come next. -/
theorem accepts (kind : TokenKind) {f : Bool → Walk α} {g : Option Token → Reader β}
    {after : α → β → WalkState → ReadState → Prop}
    (ht : ∀ t, (f true).Along words final (TracksBehind words final t) (g (some t)) after)
    (hn : (f false).Along words final (Tracks words final) (g none) after) :
    (Walk.accepts kind >>= f).Along words final (Tracks words final) (Reader.accept kind >>= g) after := by
  intro w s hws
  cases hs : s.pending with
  | nil =>
    have haccepts : Walk.accepts kind (words ++ [final]) w = .ok false w :=
      Walk.bind_ok (h.check_nil hws hs kind) _
    rw [Walk.bind_ok haccepts, Reader.accept_bind_absent (by rw [hs]; exact absent_nil)]
    exact hn w s hws
  | cons t rest =>
    by_cases hk : t.kind = kind
    · obtain ⟨w', hadvance, hbehind⟩ := h.advance_cons hws hs
      have haccepts : Walk.accepts kind (words ++ [final]) w = .ok true w' := by
        refine (Walk.bind_ok (h.check_cons hws hs kind) _).trans ?_
        rw [beq_iff_eq.2 hk]
        exact Walk.bind_ok hadvance _
      rw [Walk.bind_ok haccepts, Reader.accept_bind_taken hs hk]
      exact ht t w' _ hbehind
    · have haccepts : Walk.accepts kind (words ++ [final]) w = .ok false w := by
        refine (Walk.bind_ok (h.check_cons hws hs kind) _).trans ?_
        rw [beq_eq_false_iff_ne.2 hk]
        rfl
      rw [Walk.bind_ok haccepts, Reader.accept_bind_absent (by rw [hs]; exact absent_cons.2 hk)]
      exact hn w s hws

/-- A token that has to come next. -/
theorem consume (kind : TokenKind) (fault : GrammarFault) {expect : Option Token → Reader Token}
    (ht : ∀ t, expect (some t) = pure t) (hn : expect none = Reader.fail fault) :
    (Walk.consume kind fault).Keeps words final (Reader.accept kind >>= expect) := by
  intro w s hws
  cases hs : s.pending with
  | nil =>
    have hconsume : Walk.consume kind fault (words ++ [final]) w = Walk.fail fault (words ++ [final]) w :=
      Walk.bind_ok (h.check_nil hws hs kind) _
    rw [hconsume, Reader.accept_bind_absent (by rw [hs]; exact absent_nil), hn]
    exact h.fail fault w s hws
  | cons t rest =>
    by_cases hk : t.kind = kind
    · obtain ⟨w', hadvance, hbehind⟩ := h.advance_cons hws hs
      have hconsume : Walk.consume kind fault (words ++ [final]) w = .ok t w' := by
        refine (Walk.bind_ok (h.check_cons hws hs kind) _).trans ?_
        rw [beq_iff_eq.2 hk]
        exact hadvance
      rw [hconsume, Reader.accept_bind_taken hs hk, ht]
      exact .ok ⟨rfl, hbehind.toTracks⟩
    · have hconsume : Walk.consume kind fault (words ++ [final]) w = Walk.fail fault (words ++ [final]) w := by
        refine (Walk.bind_ok (h.check_cons hws hs kind) _).trans ?_
        rw [beq_eq_false_iff_ne.2 hk]
        rfl
      rw [hconsume, Reader.accept_bind_absent (by rw [hs]; exact absent_cons.2 hk), hn]
      exact h.fail fault w s hws

theorem consumeMark (mark : Mark) (context : MarkContext) :
    (Walk.consumeMark mark context).Keeps words final (Reader.expectMark mark context) :=
  h.consume _ _ (fun _ => rfl) rfl

theorem consumeName (role : NameRole) :
    (Walk.consumeName role).Keeps words final (Reader.expectName role) := by
  let expect : Option Token → Reader Token
    | some t => pure t
    | none => Reader.fail (.missingName role)
  have hexpect : Reader.expectName role =
      (Reader.accept .identifier >>= expect) >>= fun t => pure t.toName := by
    rw [Reader.bind_assoc]
    refine congrArg _ (funext fun found => ?_)
    cases found <;> rfl
  rw [hexpect]
  exact (h.consume .identifier (.missingName role) (fun _ => rfl) rfl).bind fun t => Walk.keeps_pure t.toName

theorem takeIf {choose : TokenKind → Option α} (hc : choose .eof = none) :
    (Walk.takeIf choose).Keeps words final (Reader.takeIf choose) := by
  intro w s hws
  unfold Reader.takeIf
  cases hs : s.pending with
  | nil =>
    have htake : Walk.takeIf choose (words ++ [final]) w = .ok none w := by
      refine (Walk.bind_ok (hws.peek_nil hs) _).trans ?_
      rw [h.last, hc]
      rfl
    rw [htake]
    exact .ok ⟨rfl, hws⟩
  | cons t rest =>
    dsimp only
    cases hk : choose t.kind with
    | none =>
      have htake : Walk.takeIf choose (words ++ [final]) w = .ok none w := by
        refine (Walk.bind_ok (hws.peek_cons hs) _).trans ?_
        rw [hk]
        rfl
      rw [htake]
      exact .ok ⟨rfl, hws⟩
    | some a =>
      obtain ⟨w', hadvance, hbehind⟩ := h.advance_cons hws hs
      have htake : Walk.takeIf choose (words ++ [final]) w = .ok (some (a, t)) w' := by
        refine (Walk.bind_ok (hws.peek_cons hs) _).trans ?_
        rw [hk]
        exact Walk.bind_ok hadvance _
      rw [htake]
      exact .ok ⟨rfl, hbehind.toTracks⟩

theorem behind? (kind : TokenKind) {walk : Walk α} {read : Reader α} (hs : walk.Keeps words final read) :
    (Walk.behind? kind walk).Keeps words final (Reader.behind? kind read) :=
  h.accepts kind (fun _ => (hs.map some).anywhere) (Walk.keeps_pure none)

theorem unlessAt (mark : Mark) {walk : Walk α} {read : Reader α} (hs : walk.Keeps words final read) :
    (Walk.unlessAt mark walk).Keeps words final (Reader.unlessAt mark read) := by
  refine (h.check mark).bind fun found => ?_
  cases found with
  | true => exact Walk.keeps_pure none
  | false => exact hs.map some

theorem skip_next {t u : Token} {us : List Token} {w : WalkState} {s : ReadState} (fuel : Nat)
    (hws : TracksBehind words final t w s) (hs : s.pending = u :: us) :
    Walk.skip (fuel + 1) (words ++ [final]) w =
      (if t.kind = .mark .semicolon then pure () else if u.kind.startsStatement then pure () else
        Walk.advance >>= fun _ => Walk.skip fuel : Walk Unit) (words ++ [final]) (w.note (.lookedBack w.position)) := by
  obtain ⟨hback, hbehind⟩ := previous hws
  rw [Walk.skip]
  refine (Walk.bind_ok (h.isAtEnd_cons hws.toTracks hs) _).trans ((Walk.bind_ok hback _).trans ?_)
  split
  · rfl
  · exact Walk.bind_ok (hbehind.toTracks.peek_cons hs) _

/-- Behind a token the walk skips what a recovery does that begins at this token. -/
theorem skip {t : Token} {w : WalkState} {s : ReadState} (fuel : Nat) (hws : TracksBehind words final t w s)
    (hfuel : s.pending.length < fuel) : ∃ w', Walk.skip fuel (words ++ [final]) w = .ok () w' ∧
      Tracks words final w' { s with pending := recover (t :: s.pending) } := by
  induction fuel generalizing t w s with
  | zero => exact absurd hfuel (Nat.not_lt_zero _)
  | succ fuel ih =>
    cases hs : s.pending with
    | nil =>
      refine ⟨w, ?_, ?_⟩
      · rw [Walk.skip]
        exact Walk.bind_ok (h.isAtEnd_nil hws.toTracks hs) _
      · rw [recover_single, ← hs]
        exact hws.toTracks
    | cons u us =>
      have hbehind := (previous hws).2
      have hstay : Tracks words final (w.note (.lookedBack w.position)) { s with pending := u :: us } := by
        rw [← hs]
        exact hbehind.toTracks
      rw [h.skip_next fuel hws hs, recover_cons]
      split
      · exact ⟨_, rfl, hstay⟩
      split
      · exact ⟨_, rfl, hstay⟩
      · obtain ⟨w', hadvance, hbehind⟩ := h.advance_cons hbehind.toTracks hs
        rw [Walk.bind_ok hadvance]
        rw [hs, List.length_cons] at hfuel
        exact ih hbehind (Nat.lt_of_succ_lt_succ hfuel)

/-- The walk goes on where a recovery does. -/
theorem synchronize {w : WalkState} {s : ReadState} (hws : Tracks words final w s) :
    ∃ w', Walk.synchronize (words ++ [final]) w = .ok () w' ∧
      Tracks words final w' { s with pending := recover s.pending } := by
  have hlength : (words ++ [final]).length = words.length + 1 := List.length_append
  have hposition := hws.length
  cases hs : s.pending with
  | nil =>
    obtain ⟨t, w', hadvance, hbehind⟩ := h.advance_nil hws hs
    obtain ⟨w'', hskip, hafter⟩ := h.skip (words.length + 1) hbehind (by omega)
    rw [hs, recover_single] at hafter
    refine ⟨w'', ?_, hafter⟩
    refine (Walk.bind_ok hadvance _).trans ?_
    rw [hlength, hskip]
  | cons t rest =>
    obtain ⟨w', hadvance, hbehind⟩ := h.advance_cons hws hs
    rw [hs, List.length_cons] at hposition
    obtain ⟨w'', hskip, hafter⟩ := h.skip (words.length + 1) hbehind (by dsimp only; omega)
    refine ⟨w'', ?_, hafter⟩
    refine (Walk.bind_ok hadvance _).trans ?_
    rw [hlength, hskip]

theorem attempt {walk : Walk α} {read : Reader α} (hs : walk.Keeps words final read) :
    (Walk.attempt walk).Keeps words final (Reader.attempt read) := by
  intro w s hws
  have hresult := hs w s hws
  unfold Walk.attempt Reader.attempt
  generalize walk (words ++ [final]) w = r at hresult ⊢
  generalize read s = r' at hresult ⊢
  cases hresult with
  | ok hafter =>
    obtain ⟨rfl, hafter⟩ := hafter
    exact .ok ⟨rfl, hafter⟩
  | @fail w' s' e hfail =>
    have hreport : Tracks words final { w' with errors := w'.errors ++ [e] } (s'.report e) :=
      ⟨hfail.pending, hfail.endLine, hfail.nextId, congrArg (· ++ [e]) hfail.errors, ⟨hfail.sound.inside,
        hfail.sound.moves, hfail.sound.looksBack, hfail.sound.advances⟩⟩
    obtain ⟨w'', hsync, hafter⟩ := h.synchronize hreport
    have hgiveUp : (Walk.giveUp e : Walk (Option α)) (words ++ [final]) w' = .ok none w'' :=
      Walk.bind_ok hsync _
    dsimp only
    rw [hgiveUp]
    exact .ok ⟨rfl, hafter⟩
  | outOfFuel => exact .outOfFuel

end EndsOnce

end LoxLang
