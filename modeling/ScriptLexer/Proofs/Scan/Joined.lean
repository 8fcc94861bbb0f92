import ScriptLexer.Proofs.Scan.Events
import ScriptLexer.Proofs.Segment.Outlook

namespace ScriptLexer

def Place.moved (before : List Char) (place : Place) : Place :=
  ⟨place.line + lineFeeds before,place.offset + byteLength before⟩

def Position.moved (before : List Char) (position : Position) : Position :=
  ⟨position.line + lineFeeds before,
    ⟨position.span.start + byteLength before,position.span.stop + byteLength before⟩⟩

def Token.moved (before : List Char) (token : Token) : Token :=
  {token with position := token.position.moved before}

def LexError.moved (before : List Char) (error : LexError) : LexError :=
  {error with position := error.position.moved before}

def Event.moved (before : List Char) : Event → Event
  | .token t => .token (t.moved before)
  | .error e => .error (e.moved before)
  | .openComment line => .openComment (line + lineFeeds before)

theorem moved_after (before text : List Char) (place : Place) :
    (place.moved before).after text = (place.after text).moved before := by
  simp only [Place.moved,Place.after,Nat.add_right_comm]

theorem start_moved (before : List Char) : Place.start.moved before = Place.start.after before := rfl

theorem event_moved (before : List Char) (piece : Segment) (place : Place) :
    piece.event? (place.moved before) = (piece.event? place).map (Event.moved before) := by
  cases piece with
  | blank c | lineComment body | blockComment body => rfl
  | _ =>
    simp only [Segment.event?,moved_after,Option.map_some]
    rfl

theorem eventsFrom_moved (before : List Char) (place : Place) (pieces : List Segment) :
    eventsFrom (place.moved before) pieces = (eventsFrom place pieces).map (Event.moved before) := by
  induction pieces generalizing place with
  | nil => rw [eventsFrom_nil,eventsFrom_nil,List.map_nil]
  | cons piece pieces ih =>
    rw [eventsFrom_cons,eventsFrom_cons,event_moved,moved_after,ih,List.map_append]
    cases piece.event? place <;> rfl

def IsClosed (text : List Char) : Prop := ¬ (scan text).LeavesString ∧ ¬ (scan text).LeavesComment

theorem isClosed_pieces {text : List Char} (closed : IsClosed text) :
    ∀ piece ∈ segments text, piece.isOpen = false := by
  intro piece member
  cases piece with
  | openString body => exact absurd ((leavesString_iff text).mpr ⟨body,member⟩) closed.1
  | openComment body => exact absurd ((leavesComment_iff text).mpr ⟨body,member⟩) closed.2
  | _ => rfl

theorem splits_feed {front back : List Char} {pieces more : List Segment} (split : Splits front pieces)
    (closed : ∀ piece ∈ pieces, piece.isOpen = false) (tail : Splits back more) :
    Splits (front ++ '\n' :: back) (pieces ++ .blank '\n' :: more) := by
  induction split with
  | nil =>
    have feed : (Segment.blank '\n').StandsBefore back := rfl
    exact .cons feed tail
  | @cons piece after pieces stands _ ih =>
    have later := ih fun other member => closed other (List.mem_cons_of_mem piece member)
    have goes := stands_endsNoLess stands (closed piece List.mem_cons_self) (endsNoLess_feed after back)
    have head := Splits.cons goes later
    rwa [← List.append_assoc] at head

theorem segments_feed {front : List Char} (closed : IsClosed front) (back : List Char) :
    segments (front ++ '\n' :: back) = segments front ++ .blank '\n' :: segments back :=
  splits_segments (splits_feed (segments_splits front) (isClosed_pieces closed) (segments_splits back))

def startsOf (before : List Char) : List (List Char) → List (List Char × List Char)
  | [] => []
  | text :: texts => (before,text) :: startsOf (before ++ text ++ ['\n']) texts

theorem events_after (before text : List Char) :
    eventsFrom (Place.start.after before) (segments text) = (events text).map (Event.moved before) := by
  rw [← start_moved,eventsFrom_moved,← events_from]

theorem events_feed (place : Place) {front : List Char} (closed : IsClosed front) (back : List Char) :
    eventsFrom place (segments (front ++ '\n' :: back)) =
      eventsFrom place (segments front) ++
        eventsFrom (place.after (front ++ ['\n'])) (segments back) := by
  rw [segments_feed closed,eventsFrom_append,eventsFrom_cons,segments_text,← Place.after_append]
  rfl

theorem events_joined (before : List Char) (texts : List (List Char)) (last : List Char)
    (closed : ∀ text ∈ texts, IsClosed text) :
    eventsFrom (Place.start.after before) (segments (List.intercalate ['\n'] (texts ++ [last]))) =
      (startsOf before (texts ++ [last])).flatMap fun (front,text) =>
        (events text).map (Event.moved front) := by
  induction texts generalizing before with
  | nil =>
    rw [List.nil_append,List.intercalate_singleton,events_after,startsOf,startsOf,
      List.flatMap_singleton]
  | cons text texts ih =>
    have rest : texts ++ [last] ≠ [] := List.concat_ne_nil last texts
    have later := ih (before ++ text ++ ['\n']) fun other member =>
      closed other (List.mem_cons_of_mem text member)
    rw [List.cons_append,List.intercalate_cons_of_ne_nil rest,List.append_assoc,
      List.singleton_append,events_feed _ (closed text List.mem_cons_self),← Place.after_append,
      ← List.append_assoc,later,events_after,startsOf,List.flatMap_cons]

theorem joined_text (texts : List (List Char)) (last : List Char) :
    List.intercalate ['\n'] (texts ++ [last]) = texts.flatMap (· ++ ['\n']) ++ last := by
  induction texts with
  | nil => rw [List.nil_append,List.intercalate_singleton,List.flatMap_nil,List.nil_append]
  | cons text texts ih =>
    have rest : texts ++ [last] ≠ [] := List.concat_ne_nil last texts
    rw [List.cons_append,List.intercalate_cons_of_ne_nil rest,ih,List.flatMap_cons]
    simp only [List.append_assoc]

theorem token_moved (before : List Char) (told : List Event) :
    (told.map (Event.moved before)).filterMap Event.token? =
      (told.filterMap Event.token?).map (Token.moved before) := by
  rw [List.filterMap_map,List.map_filterMap]
  apply congrFun
  apply congrArg
  funext event
  cases event <;> rfl

theorem error_moved (before : List Char) (told : List Event) :
    (told.map (Event.moved before)).filterMap Event.error? =
      (told.filterMap Event.error?).map (LexError.moved before) := by
  rw [List.filterMap_map,List.map_filterMap]
  apply congrFun
  apply congrArg
  funext event
  cases event <;> rfl

theorem endToken_moved (before last : List Char) :
    (scan (before ++ last)).endToken = (scan last).endToken.moved before := by
  unfold Scan.endToken scan
  rw [Place.after_append,← start_moved,moved_after]
  rfl

-- Where no text but the last is left open, each is scanned as if it stood alone: only
-- the lines and offsets move by what stands before it.
theorem scan_joined (texts : List (List Char)) (last : List Char)
    (closed : ∀ text ∈ texts, IsClosed text) :
    let whole := scan (List.intercalate ['\n'] (texts ++ [last]))
    let parts := startsOf [] (texts ++ [last])
    whole.tokens =
        (parts.flatMap fun (before,text) =>
          ((scan text).tokens.filter (·.kind ≠ .endOfSource)).map (Token.moved before)) ++
            [(scan last).endToken.moved (texts.flatMap (· ++ ['\n']))] ∧
      whole.errors = parts.flatMap fun (before,text) => (scan text).errors.map (LexError.moved before) := by
  intro whole parts
  have told : whole.events = parts.flatMap fun (before,text) => (events text).map (Event.moved before) :=
    events_joined [] texts last closed
  refine ⟨?_,?_⟩
  · have final : whole.endToken = (scan last).endToken.moved (texts.flatMap (· ++ ['\n'])) := by
      rw [← endToken_moved,← joined_text]
    rw [Scan.tokens,final,told,List.filterMap_flatMap]
    simp only [tokens_told,token_moved]
  · rw [Scan.errors,told,List.filterMap_flatMap]
    simp only [error_moved]
    rfl

theorem scan_joined_bang :
    let whole := scan (List.intercalate ['\n'] ([['!'],['@']] ++ [['=']]))
    IsClosed ['!'] ∧ IsClosed ['@'] ∧
      whole.tokens =
        [⟨.operator .bang,['!'],none,⟨1,⟨0,1⟩⟩⟩,⟨.operator .equal,['='],none,⟨3,⟨4,5⟩⟩⟩,
          ⟨.endOfSource,[],none,⟨3,⟨5,5⟩⟩⟩] ∧
      whole.errors = [⟨.unexpectedCharacter '@',⟨2,⟨2,3⟩⟩⟩] := by
  have single {c : Char} {piece : Segment} (read : Segment.read c [] = (piece,[])) :
      segments [c] = [piece] := by
    rw [segments_cons,read,segments_nil]
  have bang : segments ['!'] = [.operator .bang] := single rfl
  have stray : segments ['@'] = [.stray '@'] := single rfl
  have equal : segments ['='] = [.operator .equal] := single rfl
  have first : IsClosed ['!'] := by
    simp [IsClosed,leavesString_iff,leavesComment_iff,bang]
  have second : IsClosed ['@'] := by
    simp [IsClosed,leavesString_iff,leavesComment_iff,stray]
  obtain ⟨tokens,errors⟩ := scan_joined [['!'],['@']] ['='] (by simp [first,second])
  refine ⟨first,second,?_,?_⟩
  · rw [tokens]
    simp only [tokens_told,events_from,List.cons_append,List.nil_append,startsOf,List.flatMap_cons,
      List.flatMap_nil,bang,stray,equal]
    rfl
  · rw [errors]
    simp only [Scan.errors,scan,events_from,List.cons_append,List.nil_append,startsOf,
      List.flatMap_cons,List.flatMap_nil,bang,stray,equal]
    rfl

end ScriptLexer
