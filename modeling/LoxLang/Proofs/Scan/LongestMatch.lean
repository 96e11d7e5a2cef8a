import LoxLang.Proofs.Scan.Lexemes

/-!
# The scan is an exact longest match

The lexemes of a text make up the text, and each of them is the only one that can stand at its place. Tokens
are as long as they can be. The scan yields the items of the lexemes in order, then the end token, and then
nothing; done on the bytes of the text it yields the same and never stands inside a character.
-/

namespace LoxLang

/-- The lexemes of a text behind some of them are those of the remaining text. -/
theorem lexemes_split {text : List Char} {before after : List Lexeme} {l : Lexeme}
    (h : lexemes text = before ++ l :: after) : ∃ c rest,
      text = before.flatMap Lexeme.text ++ c :: rest ∧ l = cut c rest ∧ lexemes (c :: rest) = l :: after := by
  induction before generalizing text with
  | nil =>
    cases text with
    | nil => cases h
    | cons c rest =>
      have hfirst : cut c rest = l := (List.cons.inj h).1
      exact ⟨c, rest, rfl, hfirst.symm, h⟩
  | cons first before ih =>
    cases text with
    | nil => cases h
    | cons c rest =>
      obtain ⟨behind, hb⟩ := cut_begins c rest
      rw [lexemes_cons hb, List.cons_append] at h
      obtain ⟨rfl, hmore⟩ := List.cons.inj h
      obtain ⟨c', rest', htext, hl, hafter⟩ := ih hmore
      refine ⟨c', rest', ?_, hl, hafter⟩
      rw [List.flatMap_cons, List.append_assoc, ← htext, hb]

theorem lexemes_texts (text : List Char) : (lexemes text).flatMap Lexeme.text = text :=
  lexemesFrom_texts 0 text (Nat.zero_le _)

theorem itemsFrom_append (line : Nat) (ls ls' : List Lexeme) : ∃ items,
    itemsFrom line (ls ++ ls') = items ++ itemsFrom (lineBehind line ls) ls' := by
  induction ls generalizing line with
  | nil => exact ⟨[], rfl⟩
  | cons l rest ih =>
    obtain ⟨items, hitems⟩ := ih (line + lineBreaks l.text)
    refine ⟨l.items line ++ items, ?_⟩
    rw [List.cons_append, itemsFrom, hitems, List.append_assoc]
    rfl

theorem itemsFrom_end (line : Nat) (ls : List Lexeme) : ∃ items,
    itemsFrom line ls = items ++ [.token ⟨.eof, "", lineBehind line ls⟩] := by
  have hitems := itemsFrom_append line ls []
  rwa [List.append_nil] at hitems

/-- The messages of the errors of a lexeme. -/
theorem Lexeme.items_messages (line : Nat) (l : Lexeme) :
    ((l.items line).filterMap ScanItem.error?).map StaticError.message =
      (l.badEscapes.map fun e => (LexicalFault.unknownEscape e.escaped).message) ++
        match l.kind with
        | .fault fault => [fault.message]
        | _ => [] := by
  have hescapes (es : List BadEscape) :
      ((es.map fun e => ScanItem.error (e.error line)).filterMap ScanItem.error?).map StaticError.message =
        es.map fun e => (LexicalFault.unknownEscape e.escaped).message := by
    induction es with
    | nil => rfl
    | cons e rest ih => exact congrArg (List.cons _) ih
  unfold items
  rw [List.filterMap_append, List.map_append, hescapes]
  cases l.kind <;> rfl

/-- A lexeme stands at its place in a text: between others, of which the texts before it and behind it are
made, and on a line. -/
structure CutExactly (source : String) (before : List Lexeme) (l : Lexeme) (after : List Lexeme) : Prop where
  nonempty : l.text ≠ []
  /-- It begins and ends between characters. -/
  begins : String.Pos.Raw.IsValid source ⟨(encode (before.flatMap Lexeme.text)).length⟩
  ends : String.Pos.Raw.IsValid source
    ⟨(encode (before.flatMap Lexeme.text)).length + (encode l.text).length⟩
  /-- It is a lexeme of its kind, and no other lexeme may stand there. -/
  isLexeme : IsLexeme l.text (after.flatMap Lexeme.text) l.kind (l.badEscapes.map BadEscape.escaped)
  only (text behind : List Char) (kind : LexemeKind) (bad : List Char) :
    text ++ behind = l.text ++ after.flatMap Lexeme.text → IsLexeme text behind kind bad →
    text = l.text ∧ kind = l.kind ∧ bad = l.badEscapes.map BadEscape.escaped
  /-- Its items stand in the scan behind those of the lexemes before it. -/
  items : ∃ earlier, scan source = earlier ++
    (l.items (lineBehind 1 before) ++ itemsFrom (lineBehind 1 (before ++ [l])) after)
  /-- It yields one token if it is one, and otherwise none. -/
  tokens : (l.items (lineBehind 1 before)).filterMap ScanItem.token? =
    match l.kind with
    | .token kind => [⟨kind, String.ofList l.text, lineBehind 1 before + lineBreaks l.text⟩]
    | _ => []
  /-- It yields one error if it is a fault, behind those of its unknown escapes. -/
  errors : ((l.items (lineBehind 1 before)).filterMap ScanItem.error?).map StaticError.message =
    (l.badEscapes.map fun e => (LexicalFault.unknownEscape e.escaped).message) ++
      match l.kind with
      | .fault fault => [fault.message]
      | _ => []
  /-- It is read from its bytes, and they are no more and no fewer than those of its characters. -/
  bytes : readLexeme source (encode (before.flatMap Lexeme.text)).length (lineBehind 1 before) =
    some (l.bytes (encode (before.flatMap Lexeme.text)).length (lineBehind 1 before))

theorem cutExactly {source : String} {before after : List Lexeme} {l : Lexeme}
    (h : lexemes source.toList = before ++ l :: after) : CutExactly source before l after := by
  obtain ⟨c, rest, htext, rfl, hafter⟩ := lexemes_split h
  have hbehind : (cut c rest).text ++ after.flatMap Lexeme.text = c :: rest := by
    have htexts := lexemes_texts (c :: rest)
    rwa [hafter, List.flatMap_cons] at htexts
  have hat : At source (encode (before.flatMap Lexeme.text)).length (c :: rest) := ⟨_, htext, rfl⟩
  have hat' : At source (encode (before.flatMap Lexeme.text)).length
      ((cut c rest).text ++ after.flatMap Lexeme.text) := hbehind.symm ▸ hat
  have hitems : ∃ earlier, scan source = earlier ++ itemsFrom (lineBehind 1 before) (cut c rest :: after) := by
    unfold scan
    rw [h]
    exact itemsFrom_append 1 before _
  have hline : lineBehind 1 (before ++ [cut c rest]) =
      lineBehind 1 before + lineBreaks (cut c rest).text := by
    unfold lineBehind
    rw [List.foldl_append]
    rfl
  constructor
  case nonempty => exact cut_nonempty c rest
  case begins => exact hat.isValid
  case ends => exact hat'.skip.isValid
  case isLexeme => exact isLexeme_cut hbehind
  case only =>
    intro text behind kind bad hsplit hother
    obtain ⟨ht, hk, hb⟩ := hother.eq_cut (hsplit.trans hbehind)
    exact ⟨ht.symm, hk.symm, hb.symm⟩
  case items =>
    rw [hline]
    exact hitems
  case tokens => exact Lexeme.items_tokens _ _
  case errors => exact Lexeme.items_messages _ _
  case bytes => exact readLexeme_eq _ hat

/-- The lexemes of any text make up the text, each of them being the only lexeme at its place; the scan yields
their items in order and one end token, which comes last; and asked for items over the bytes of the text, it
yields these and then nothing, without ever cutting a text inside a character. -/
theorem scan_is_longest_match (source : String) :
    (lexemes source.toList).flatMap Lexeme.text = source.toList ∧
      (∀ before l after, lexemes source.toList = before ++ l :: after → CutExactly source before l after) ∧
      (∃ items line, scan source = items ++ [.token ⟨.eof, "", line⟩] ∧
        ∀ t, ScanItem.token t ∈ items → t.kind ≠ .eof) ∧
      ∀ n, Cursor.answers source n {} = some ((List.range n).map fun k => (scan source)[k]?) := by
  refine ⟨lexemes_texts _, fun _ _ _ => cutExactly, ?_, ?_⟩
  · obtain ⟨items, hitems⟩ := itemsFrom_end 1 (lexemes source.toList)
    refine ⟨items, lineBehind 1 (lexemes source.toList), hitems, ?_⟩
    intro t ht
    have htokens : items.filterMap ScanItem.token? = sourceWords source := by
      have hall := tokens_eq source
      unfold tokens scan at hall
      rw [hitems, List.filterMap_append] at hall
      exact List.append_cancel_right hall
    have hmem : t ∈ sourceWords source := by
      rw [← htokens]
      exact List.mem_filterMap.2 ⟨_, ht, rfl⟩
    exact (sourceWords_spelled source t hmem).1
  · exact fun n => Cursor.answers_eq n (Cursor.due_start source)

/-- A mark stands between a name and a character beyond ASCII. -/
theorem scan_is_longest_match_mark : ∃ before after,
    lexemes "a<=é".toList = before ++ ⟨['<', '='], .token (.mark .lessEqual), []⟩ :: after ∧
      CutExactly "a<=é" before ⟨['<', '='], .token (.mark .lessEqual), []⟩ after := by
  have hcut : lexemes "a<=é".toList =
      [⟨['a'], .token .identifier, []⟩] ++
        ⟨['<', '='], .token (.mark .lessEqual), []⟩ :: [⟨['é'], .fault (.unexpectedCharacter 'é'), []⟩] := rfl
  obtain ⟨-, hexactly, -⟩ := scan_is_longest_match "a<=é"
  exact ⟨_, _, hcut, hexactly _ _ _ hcut⟩

end LoxLang
