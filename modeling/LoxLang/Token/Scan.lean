import LoxLang.Diagnostic

/-!
# Scanning a text

The lexemes of a text with their lines: every token, every lexical error, and one end token behind
everything else. Lines are counted from one. A token stands on the line on which its text ends, an error
on the line that was reached when it was found, and the errors inside a token come before it.
-/

namespace LoxLang

/-- What a scan yields. -/
inductive ScanItem where
  | token (token : Token)
  | error (error : StaticError)
deriving DecidableEq, Repr

namespace ScanItem

/-- The token of an item. -/
def token? : ScanItem → Option Token
  | token t => some t
  | error _ => none

/-- The error of an item. -/
def error? : ScanItem → Option StaticError
  | token _ => none
  | error e => some e

end ScanItem

/-- The error of an unknown escape in a string that begins on `line`. -/
def BadEscape.error (line : Nat) (e : BadEscape) : StaticError :=
  .lexical (line + e.breaks) (.unknownEscape e.escaped)

/-- The items of a lexeme that begins on `line`. -/
def Lexeme.items (line : Nat) (l : Lexeme) : List ScanItem :=
  let last := line + lineBreaks l.text
  l.badEscapes.map (fun e => .error (e.error line)) ++
    match l.kind with
    | .blank => []
    | .comment => []
    | .token kind => [.token ⟨kind, String.ofList l.text, last⟩]
    | .fault fault => [.error (.lexical last fault)]

/-- The items of lexemes of which the first begins on `line`, and the end token. -/
def itemsFrom (line : Nat) : List Lexeme → List ScanItem
  | [] => [.token ⟨.eof, "", line⟩]
  | l :: rest => l.items line ++ itemsFrom (line + lineBreaks l.text) rest

/-- The items of a text. -/
def scan (source : String) : List ScanItem := itemsFrom 1 (lexemes source.toList)

/-- The tokens of a text; the last one is the end token. -/
def tokens (source : String) : List Token := (scan source).filterMap ScanItem.token?

/-- The lexical errors of a text. -/
def lexicalErrors (source : String) : List StaticError := (scan source).filterMap ScanItem.error?

end LoxLang
