import Mathlib
import ScriptLexer.Proofs.Grammar.Rule
import ScriptLexer.Proofs.Numeral.Decimal
import ScriptLexer.Proofs.Scan.Events

namespace ScriptLexer

theorem event_number {piece : Segment} {place : Place} {token : Token}
    (told : piece.event? place = some (.token token)) (kind : token.kind = .number) :
    ∃ whole fraction, piece = .number whole fraction ∧
      token.lexeme = Segment.numberText whole fraction ∧
      token.literal = some (.number (Decimal.ofDigits whole fraction).toBinary64) := by
  cases piece with
  | number whole fraction =>
    cases told
    exact ⟨whole,fraction,rfl,rfl,rfl⟩
  | word letters =>
    cases told
    unfold TokenKind.ofWord at kind
    split at kind <;> cases kind
  | string body | operator o =>
    cases told
    cases kind
  | _ => cases told

theorem token_number {source : List Char} {token : Token} (member : token ∈ (scan source).tokens)
    (kind : token.kind = .number) :
    ∃ whole fraction, (whole ≠ [] ∧ (∀ c ∈ whole, c.isDigit = true) ∧ ∀ c ∈ fraction, c.isDigit = true) ∧
      token.lexeme = Segment.numberText whole fraction ∧
      token.literal = some (.number (Decimal.ofDigits whole fraction).toBinary64) := by
  have told : token ∈ (events source).filterMap Event.token? := by
    rw [← tokens_told]
    exact List.mem_filter.mpr ⟨member,by simp [kind]⟩
  obtain ⟨event,present,seen⟩ := List.mem_filterMap.mp told
  obtain ⟨_,piece,_,stands,_,placed⟩ := event_piece (segments_splits source) [] present
  cases event with
  | token t =>
    cases seen
    obtain ⟨whole,fraction,rfl,lexeme,literal⟩ := event_number placed kind
    exact ⟨whole,fraction,stands.1,lexeme,literal⟩
  | _ => cases seen

theorem number_literal_rounded {source : List Char} {token : Token}
    (member : token ∈ (scan source).tokens) (kind : token.kind = .number) :
    token.lexeme ∈ Grammar.number ∧
      ∃ x, token.literal = some (.number x) ∧ x.IsRounded (textValue token.lexeme) := by
  obtain ⟨whole,fraction,spelled,lexeme,literal⟩ := token_number member kind
  have digits := spelled.2.1
  rw [lexeme,textValue_numberText fraction digits,← Decimal.value_ofDigits]
  exact ⟨Grammar.mem_number.mpr ⟨whole,fraction,rfl,spelled⟩,_,literal,Decimal.toBinary64_isRounded _⟩

theorem number_literal_rounded_tie :
    let source := ['9','0','0','7','1','9','9','2','5','4','7','4','0','9','9','3']
    let token : Token :=
      ⟨.number,source,some (.number ⟨0x4340000000000000⟩),⟨1,⟨0,16⟩⟩⟩
    token ∈ (scan source).tokens ∧ token.kind = .number ∧
      (⟨0x4340000000000000⟩ : Binary64).IsRounded 9007199254740993 := by
  intro source token
  have digits : ∀ c ∈ source, c.isDigit = true := by simp [source]
  have stands : (Segment.number source []).StandsBefore [] := by
    refine ⟨⟨List.cons_ne_nil _ _,digits,by simp⟩,stops_nil _,?_⟩
    simp [PointFollows]
  have pieces : segments source = [.number source []] := by
    have read := segments_stands stands
    rwa [segments_nil] at read
  have member : token ∈ (scan source).tokens := by
    have told : events source = [.token token] := by
      rw [events_from,pieces]
      decide +kernel
    simp [Scan.tokens,scan,told,Event.token?]
  have value : textValue source = 9007199254740993 := by
    have written := textValue_numberText [] digits
    have whole : placeValue source = 9007199254740993 := by decide +kernel
    rw [Segment.numberText,whole] at written
    simpa [fractionValue,placeValue] using written
  obtain ⟨_,x,literal,rounded⟩ := number_literal_rounded member rfl
  cases literal
  rw [value] at rounded
  exact ⟨member,rfl,rounded⟩

end ScriptLexer
