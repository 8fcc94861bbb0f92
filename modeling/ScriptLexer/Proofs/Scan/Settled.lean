import ScriptLexer.Proofs.Scan.Events
import ScriptLexer.Proofs.Segment.Outlook
import ScriptLexer.Proofs.Text.Slice

namespace ScriptLexer

theorem seen_piece {α : Type} {see : Event → Option α} {place : Place} {pieces : List Segment}
    {index : Nat} {a : α} (found : ((eventsFrom place pieces).filterMap see)[index]? = some a) :
    ∃ front piece back, pieces = front ++ piece :: back ∧
      ((eventsFrom place front).filterMap see).length = index ∧
      (piece.event? (place.after (front.flatMap Segment.text))).bind see = some a := by
  induction pieces generalizing place index with
  | nil =>
    rw [eventsFrom_nil] at found
    cases found
  | cons piece pieces ih =>
    rw [seen_cons] at found
    cases here : (piece.event? place).bind see with
    | none =>
      rw [here,Option.toList_none,List.nil_append] at found
      obtain ⟨front,later,back,rfl,count,told⟩ := ih found
      refine ⟨piece :: front,later,back,rfl,?_,?_⟩
      · rw [seen_cons,here]
        exact count
      · rw [List.flatMap_cons,Place.after_append]
        exact told
    | some b =>
      rw [here,Option.toList_some,List.singleton_append] at found
      cases index with
      | zero =>
        rw [List.getElem?_cons_zero] at found
        exact ⟨[],piece,pieces,rfl,by rw [eventsFrom_nil]; rfl,here.trans found⟩
      | succ index =>
        rw [List.getElem?_cons_succ] at found
        obtain ⟨front,later,back,rfl,count,told⟩ := ih found
        refine ⟨piece :: front,later,back,rfl,?_,?_⟩
        · rw [seen_cons,here]
          exact congrArg Nat.succ count
        · rw [List.flatMap_cons,Place.after_append]
          exact told

theorem seen_behind {α : Type} {see : Event → Option α} {place : Place} {front : List Segment}
    {piece : Segment} {a : α}
    (told : (piece.event? (place.after (front.flatMap Segment.text))).bind see = some a)
    (back : List Segment) :
    ((eventsFrom place (front ++ piece :: back)).filterMap see)[((eventsFrom place front).filterMap see).length]? =
      some a := by
  rw [seen_append,seen_cons,told,List.getElem?_append_right (Nat.le_refl _),Nat.sub_self]
  rfl

-- A piece that stands where text is added stays where it was, if the text from its
-- start on settles the pieces before it.
theorem seen_settled {α : Type} {see : Event → Option α} {source : List Char} {index : Nat} {a : α}
    (found : ((events source).filterMap see)[index]? = some a) (more : List Char)
    (stays : ∀ (front after : List Char) (piece : Segment), source = front ++ piece.text ++ after →
      piece.StandsBefore after → (piece.event? (Place.start.after front)).bind see = some a →
        Settles (piece.text ++ after) ∧ piece.StandsBefore (after ++ more)) :
    ((events (source ++ more)).filterMap see)[index]? = some a := by
  rw [events_from] at found
  obtain ⟨front,piece,back,pieces,count,told⟩ := seen_piece found
  have split := segments_splits source
  rw [pieces] at split
  have whole : source = front.flatMap Segment.text ++ piece.text ++ back.flatMap Segment.text := by
    rw [← splits_text split,List.flatMap_append,List.flatMap_cons,List.append_assoc]
  obtain ⟨settles,stands⟩ := stays _ _ piece whole (splits_stands split) told
  rw [events_from,segments_settled split settles,List.flatMap_cons,List.append_assoc,
    segments_stands stands,← count]
  exact seen_behind told _

theorem token_told {source : List Char} {index : Nat} {token : Token}
    (found : (scan source).tokens[index]? = some token) (kind : token.kind ≠ .endOfSource) :
    ((events source).filterMap Event.token?)[index]? = some token := by
  rw [Scan.tokens,List.getElem?_append] at found
  split at found
  · exact found
  · have last := List.mem_singleton.mp (List.mem_of_getElem? found)
    rw [last] at kind
    exact absurd rfl kind

theorem slice_back (front back : List Char) :
    slice (front ++ back) (byteLength front) (byteLength (front ++ back)) = back := by
  have between := slice_between front back []
  rwa [List.append_nil] at between

theorem IsStray.settles {c : Char} (stray : IsStray c) (after : List Char) : Settles (c :: after) := by
  refine ⟨List.cons_ne_nil c after,?_⟩
  intro same
  have notOperator := stray.notOperator
  rw [(List.cons.inj same).1] at notOperator
  cases notOperator

-- A token is decided as soon as two characters stand behind it, and a character that
-- begins no token at once.
theorem scan_append (source more : List Char) :
    (∀ (index : Nat) (token : Token), (scan source).tokens[index]? = some token →
      token.kind ≠ .endOfSource →
      2 ≤ (slice source token.position.span.stop (byteLength source)).length →
        (scan (source ++ more)).tokens[index]? = some token) ∧
    ∀ (index : Nat) (error : LexError) (c : Char), (scan source).errors[index]? = some error →
      error.cause = .unexpectedCharacter c → (scan (source ++ more)).errors[index]? = some error := by
  refine ⟨?_,?_⟩
  · intro index token found kind behind
    have stays : ((events (source ++ more)).filterMap Event.token?)[index]? = some token := by
      refine seen_settled (token_told found kind) more ?_
      intro front after piece whole stands seen
      have stop : token.position.span.stop = byteLength (front ++ piece.text) := by
        rw [token_span (token_seen seen)]
        exact offset_after front piece.text
      rw [stop,whole,slice_back] at behind
      have settles := settles_length behind
      exact ⟨settles_append settles piece.text,stands_settled stands settles more⟩
    obtain ⟨inside,_⟩ := List.getElem?_eq_some_iff.mp stays
    exact (List.getElem?_append_left inside).trans stays
  · intro index error c found cause
    refine seen_settled found more ?_
    intro front after piece whole stands seen
    cases piece with
    | stray d => exact ⟨stands.settles after,stands⟩
    | openString body =>
      cases error_seen seen
      cases cause
    | _ => cases seen

theorem scan_append_point :
    let source := ['1','.','@']
    let one : Token := ⟨.number,['1'],some (.number ⟨0x3ff0000000000000⟩),⟨1,⟨0,1⟩⟩⟩
    let stray : LexError := ⟨.unexpectedCharacter '@',⟨1,⟨2,3⟩⟩⟩
    (scan source).tokens[0]? = some one ∧ (scan source).errors[0]? = some stray ∧
      slice source 1 3 = ['.','@'] ∧ (scan (source ++ ['5','"'])).tokens[0]? = some one ∧
      (scan (source ++ ['5','"'])).errors[0]? = some stray := by
  intro source one stray
  have number : Segment.read '1' ['.','@'] = (.number ['1'] [],['.','@']) := rfl
  have point : Segment.read '.' ['@'] = (.operator .dot,['@']) := rfl
  have other : Segment.read '@' [] = (.stray '@',[]) := rfl
  have told : events source = [.token one,.token ⟨.operator .dot,['.'],none,⟨1,⟨1,2⟩⟩⟩,.error stray] := by
    rw [events_from,segments_cons,number,segments_cons,point,segments_cons,other,segments_nil]
    decide +kernel
  have token : (scan source).tokens[0]? = some one := by
    rw [Scan.tokens,scan,told]
    rfl
  have error : (scan source).errors[0]? = some stray := by
    rw [Scan.errors,scan,told]
    rfl
  have behind : slice source 1 3 = ['.','@'] := slice_back ['1'] ['.','@']
  obtain ⟨tokens,errors⟩ := scan_append source ['5','"']
  refine ⟨token,error,behind,tokens 0 one token (by simp [one]) ?_,errors 0 stray '@' error rfl⟩
  exact Nat.le_of_eq (congrArg List.length behind).symm

end ScriptLexer
