import ScriptLexer.Proofs.Grammar.Munch
import ScriptLexer.Proofs.Numeral.Decimal
import ScriptLexer.Proofs.Scan.Events

-- What a scan reports, read off a split by longest match and the text before each of
-- its pieces. Kinds come from the tables of the grammar, places from bytes and line feeds.
namespace ScriptLexer

namespace Grammar

def bytes (text : List Char) : Nat := (text.map Char.utf8Size).sum

def spanAfter (before text : List Char) : Span := ⟨bytes before,bytes before + bytes text⟩

def wordKind (letters : List Char) : TokenKind :=
  match reserved.lookup (String.ofList letters) with
  | some k => .keyword k
  | none => .identifier

def Piece.token? (before : List Char) (piece : Piece) : Option Token :=
  let token (kind : TokenKind) (literal : Option Literal) : Option Token :=
    some ⟨kind,piece.text,literal,⟨1 + before.count '\n',spanAfter before piece.text⟩⟩
  match piece.rule with
  | some .string => token .string (some (.text (piece.text.drop 1).dropLast))
  | some .number => token .number (some (.number (numeralValue piece.text)))
  | some .word => token (wordKind piece.text) none
  | some (.operator o) => token (.operator o) none
  | _ => none

def Piece.error? (before : List Char) (piece : Piece) : Option LexError :=
  match piece.rule,piece.text with
  | some .openString,text =>
    some ⟨.unterminatedString,⟨1 + (before ++ text).count '\n',spanAfter before text⟩⟩
  | none,[c] => some ⟨.unexpectedCharacter c,⟨1 + before.count '\n',spanAfter before [c]⟩⟩
  | _,_ => none

def image {α : Type} (view : List Char → Piece → Option α) (before : List Char) : List Piece → List α
  | [] => []
  | piece :: pieces => (view before piece).toList ++ image view (before ++ piece.text) pieces

theorem numeralValue_isRounded {text : List Char} (spelled : text ∈ number) :
    (numeralValue text).IsRounded (textValue text) := by
  obtain ⟨whole,fraction,rfl,_,digits,_⟩ := mem_number.mp spelled
  rw [numeralValue_text digits,textValue_numberText fraction digits,← Decimal.value_ofDigits]
  exact Decimal.toBinary64_isRounded _

theorem bytes_eq (text : List Char) : bytes text = byteLength text := by
  induction text with
  | nil => rfl
  | cons c text ih => exact congrArg (c.utf8Size + ·) ih

theorem wordKind_eq (letters : List Char) : wordKind letters = .ofWord letters := by
  rw [wordKind,lookup_reserved]
  rfl

theorem span_after (before text : List Char) :
    (⟨(Place.start.after before).offset,((Place.start.after before).after text).offset⟩ : Span) =
      spanAfter before text := by
  rw [← Place.after_append,start_after,start_after,spanAfter,bytes_eq,bytes_eq,byteLength_append]

theorem token_piece {s : Segment} {after : List Char} (stands : s.StandsBefore after)
    (before : List Char) :
    (s.event? (Place.start.after before)).bind Event.token? = s.piece.token? before := by
  have span := span_after before s.text
  cases s with
  | number whole fraction =>
    simp only [Segment.event?,Option.bind_some,Event.token?,span,Segment.piece,Segment.rule?,Piece.token?,
      ← numeralValue_text stands.1.2.1]
    rfl
  | string body =>
    have inside : ((Segment.string body).text.drop 1).dropLast = body := List.dropLast_concat
    simp only [Segment.event?,Option.bind_some,Event.token?,span,Segment.piece,Segment.rule?,Piece.token?,
      inside]
    rfl
  | word letters =>
    simp only [Segment.event?,Option.bind_some,Event.token?,span,Segment.piece,Segment.rule?,Piece.token?,
      wordKind_eq]
    rfl
  | operator o =>
    simp only [Segment.event?,Option.bind_some,Event.token?,span,Segment.piece,Segment.rule?,Piece.token?]
    rfl
  | _ => rfl

theorem error_piece {s : Segment} {after : List Char} (stands : s.StandsBefore after)
    (before : List Char) :
    (s.event? (Place.start.after before)).bind Event.error? = s.piece.error? before := by
  have span := span_after before s.text
  cases s with
  | openString body =>
    simp only [Segment.event?,Option.bind_some,Event.error?,span]
    rw [← Place.after_append,start_after]
    rfl
  | stray c =>
    have line : lineFeeds (before ++ [c]) = lineFeeds before := by
      rw [lineFeeds_append,lineFeeds_plain stands.notFeed,Nat.add_zero]
    simp only [Segment.event?,Option.bind_some,Event.error?,span]
    rw [← Place.after_append,start_after]
    simp only [Segment.text,line]
    rfl
  | _ => rfl

theorem image_events {α : Type} {see : Event → Option α} {view : List Char → Piece → Option α}
    (agree : ∀ {s : Segment} {after : List Char}, s.StandsBefore after → ∀ before,
      (s.event? (Place.start.after before)).bind see = view before s.piece)
    {source : List Char} {pieces : List Segment} (split : Splits source pieces) (before : List Char) :
    (eventsFrom (Place.start.after before) pieces).filterMap see =
      image view before (pieces.map Segment.piece) := by
  induction split generalizing before with
  | nil => rw [eventsFrom_nil,List.filterMap_nil,List.map_nil,image]
  | @cons s after pieces stands tail ih =>
    rw [seen_cons,agree stands,← Place.after_append,ih,
      List.map_cons,image]
    rfl

theorem munch_text {source : List Char} {pieces : List Piece} (munch : Munch source pieces) :
    pieces.flatMap Piece.text = source ∧ ∀ piece ∈ pieces, piece.text ≠ [] := by
  induction munch with
  | nil => exact ⟨rfl,by simp⟩
  | @longest rule text rest pieces found tail ih =>
    refine ⟨by rw [List.flatMap_cons,ih.1],?_⟩
    intro piece member
    rcases List.mem_cons.mp member with rfl | present
    · exact found.fits.ne_nil
    · exact ih.2 piece present
  | @other c rest pieces unmatched tail ih =>
    refine ⟨by rw [List.flatMap_cons,ih.1]; rfl,?_⟩
    intro piece member
    rcases List.mem_cons.mp member with rfl | present
    · exact List.cons_ne_nil c []
    · exact ih.2 piece present

theorem munch_fits {source : List Char} {pieces : List Piece} (munch : Munch source pieces) {piece : Piece}
    (member : piece ∈ pieces) {rule : Rule} (under : piece.rule = some rule) :
    ∃ rest, rule.Matches piece.text rest := by
  induction munch with
  | nil => cases member
  | longest found tail ih =>
    rcases List.mem_cons.mp member with rfl | present
    · cases under
      exact ⟨_,found.fits⟩
    · exact ih present
  | other unmatched tail ih =>
    rcases List.mem_cons.mp member with rfl | present
    · cases under
    · exact ih present

-- The literals of numbers are the one part of an image that no table settles: they are
-- the rationals that the pieces write, rounded once.
theorem scan_longest_match (source : List Char) :
    ∃ pieces : List Piece, (∀ other, Munch source other ↔ other = pieces) ∧
      pieces.flatMap Piece.text = source ∧ (∀ piece ∈ pieces, piece.text ≠ []) ∧
      (scan source).tokens = image Piece.token? [] pieces ++
        [⟨.endOfSource,[],none,⟨1 + source.count '\n',⟨bytes source,bytes source⟩⟩⟩] ∧
      (scan source).errors = image Piece.error? [] pieces ∧
      ∀ piece ∈ pieces, piece.rule = some .number →
        (numeralValue piece.text).IsRounded (textValue piece.text) := by
  have split := segments_splits source
  have munch := munch_splits split
  have tokens := image_events token_piece split []
  have errors := image_events error_piece split []
  refine ⟨_,fun other => munch_exact,(munch_text munch).1,(munch_text munch).2,?_,errors,?_⟩
  · rw [Scan.tokens,Scan.endToken,← tokens,bytes_eq]
    simp only [scan,start_after]
    rfl
  · intro piece member under
    obtain ⟨rest,fits⟩ := munch_fits munch member under
    exact numeralValue_isRounded fits

end Grammar

end ScriptLexer
