import ScriptLexer.Proofs.Scan.Settled

namespace ScriptLexer

theorem pieces_open {source : List Char} {piece : Segment} (member : piece ∈ segments source)
    (opened : piece.isOpen = true) :
    ∃ front, segments source = front ++ [piece] ∧ ∀ other ∈ front, other.isOpen = false := by
  have split := segments_splits source
  obtain ⟨front,back,pieces⟩ := List.append_of_mem member
  rw [pieces] at split
  obtain rfl := splits_open split opened
  refine ⟨front,pieces,?_⟩
  intro other earlier
  cases kind : other.isOpen with
  | false => rfl
  | true =>
    obtain ⟨first,rest,rfl⟩ := List.append_of_mem earlier
    rw [List.append_assoc,List.cons_append] at split
    exact absurd (splits_open split kind) (List.concat_ne_nil piece rest)

theorem segments_closed {source more : List Char} {front : List Segment} {piece whole : Segment}
    (pieces : segments source = front ++ [piece]) (settles : Settles piece.text)
    (written : whole.text = piece.text ++ more) (stands : whole.StandsBefore []) :
    segments (source ++ more) = front ++ [whole] := by
  have split := segments_splits source
  rw [pieces] at split
  have last : [piece].flatMap Segment.text = piece.text := List.flatMap_singleton Segment.text piece
  have alone : segments whole.text = [whole] := by
    have read := segments_stands stands
    rwa [List.append_nil,segments_nil] at read
  rw [segments_settled split (last.symm ▸ settles) more,last,← written,alone]

theorem holdsClosing_star {body : List Char} (closes : HoldsClosing (body ++ ['*'])) : HoldsClosing body := by
  induction body with
  | nil => simp [holdsClosing_cons,holdsClosing_nil] at closes
  | cons c body ih =>
    rw [List.cons_append,holdsClosing_cons] at closes
    rw [holdsClosing_cons]
    rcases closes with ⟨star,slash⟩ | later
    · cases body with
      | nil => simp at slash
      | cons d body => exact .inl ⟨star,slash⟩
    · exact .inr (ih later)

theorem seen_concat {α : Type} (see : Event → Option α) (place : Place) (front : List Segment)
    (piece : Segment) :
    (eventsFrom place (front ++ [piece])).filterMap see =
      (eventsFrom place front).filterMap see ++
        ((piece.event? (place.after (front.flatMap Segment.text))).bind see).toList := by
  rw [seen_append,seen_cons,eventsFrom_nil,List.filterMap_nil,List.append_nil]

def endAt (line offset : Nat) : Token := ⟨.endOfSource,[],none,⟨line,⟨offset,offset⟩⟩⟩

def stringAt (source : List Char) (start : Nat) : Token :=
  let size := byteLength source
  ⟨.string,slice source start size ++ ['"'],some (.text (slice source (start + 1) size)),
    ⟨1 + lineFeeds (slice source 0 start),⟨start,size + 1⟩⟩⟩

theorem endToken_append {more : List Char} (plain : lineFeeds more = 0) (source : List Char) :
    (scan (source ++ more)).endToken =
      endAt (scan source).endToken.position.line (byteLength source + byteLength more) := by
  simp only [Scan.endToken,scan,start_after,lineFeeds_append,byteLength_append,plain,Nat.add_zero]
  rfl

theorem stringAt_piece (before body : List Char) :
    (Segment.string body).event? (Place.start.after before) =
      some (.token (stringAt (before ++ '"' :: body) (byteLength before))) := by
  have inside : slice (before ++ '"' :: body) (byteLength before + 1) (byteLength (before ++ '"' :: body)) = body := by
    have back := slice_back (before ++ ['"']) body
    rwa [byteLength_append,List.append_assoc] at back
  have whole : before ++ (Segment.string body).text = before ++ '"' :: body ++ ['"'] :=
    (List.append_assoc before ('"' :: body) ['"']).symm
  have stop : ((Place.start.after before).after (Segment.string body).text).offset =
      byteLength (before ++ '"' :: body) + 1 := by
    rw [offset_after,whole,byteLength_append _ ['"']]
    rfl
  simp only [Segment.event?,stop,stringAt,slice_back,slice_front,inside]
  rw [start_after]
  rfl

section Completed

variable {source more : List Char} {front : List Segment} {piece whole : Segment}

theorem tokens_closed (pieces : segments source = front ++ [piece])
    (closed : segments (source ++ more) = front ++ [whole]) (opened : piece.isOpen = true)
    (plain : lineFeeds more = 0) :
    (scan (source ++ more)).tokens = (scan source).tokens.filter (·.kind ≠ .endOfSource) ++
      ((whole.event? (Place.start.after (front.flatMap Segment.text))).bind Event.token?).toList ++
        [endAt (scan source).endToken.position.line (byteLength source + byteLength more)] := by
  have silent (place : Place) : (piece.event? place).bind Event.token? = none := by
    cases piece with
    | openComment body | openString body => rfl
    | _ => cases opened
  have before : (events source).filterMap Event.token? = (eventsFrom .start front).filterMap Event.token? := by
    rw [events_from,pieces,seen_concat,silent,Option.toList_none,List.append_nil]
  rw [Scan.tokens,endToken_append plain,tokens_told,before,← seen_concat,← closed]
  rfl

theorem errors_last (pieces : segments source = front ++ [piece]) :
    (scan source).errors = (eventsFrom .start front).filterMap Event.error? ++
      ((piece.event? (Place.start.after (front.flatMap Segment.text))).bind Event.error?).toList := by
  rw [← seen_concat,← pieces]
  rfl

end Completed

theorem unterminated_last {source : List Char} {error : LexError} (member : error ∈ (scan source).errors)
    (cause : error.cause = .unterminatedString) :
    ∃ front body, segments source = front ++ [.openString body] ∧
      source = front.flatMap Segment.text ++ '"' :: body ∧ (∀ c ∈ body, (c != '"') = true) ∧
      (scan source).errors = (eventsFrom .start front).filterMap Event.error? ++ [error] ∧
      (∀ other ∈ (eventsFrom .start front).filterMap Event.error?, other.cause ≠ .unterminatedString) ∧
      error.position.span = ⟨byteLength (front.flatMap Segment.text),byteLength source⟩ := by
  obtain ⟨body,found⟩ := (leavesString_iff source).mp ⟨error,member,cause⟩
  obtain ⟨front,pieces,closed⟩ := pieces_open found rfl
  have split := segments_splits source
  rw [pieces] at split
  have written : source = front.flatMap Segment.text ++ '"' :: body := by
    rw [← splits_text split,List.flatMap_append,List.flatMap_singleton]
    rfl
  have terminated : ∀ other ∈ (eventsFrom .start front).filterMap Event.error?, other.cause ≠ .unterminatedString := by
    intro other earlier same
    obtain ⟨inside,present⟩ := (unterminated_iff .start front).mp ⟨other,earlier,same⟩
    cases closed _ present
  have errors := errors_last pieces
  rw [errors] at member
  have last := (List.mem_append.mp member).resolve_left fun earlier => terminated error earlier cause
  have told := Option.mem_toList.mp last
  refine ⟨front,body,pieces,written,(splits_stands split).1,?_,terminated,?_⟩
  · rw [errors,Option.mem_def.mp told]
    rfl
  · rw [error_span (error_seen told),offset_after,start_after]
    exact congrArg _ (congrArg byteLength written.symm)

theorem closed_string {source : List Char} {error : LexError} (member : error ∈ (scan source).errors)
    (cause : error.cause = .unterminatedString) :
    ∃ earlier, (scan source).errors = earlier ++ [error] ∧
      (∀ other ∈ earlier, other.cause ≠ .unterminatedString) ∧
      error.position.span.stop = byteLength source ∧
      (scan (source ++ ['"'])).tokens = (scan source).tokens.filter (·.kind ≠ .endOfSource) ++
        [stringAt source error.position.span.start,
          endAt (scan source).endToken.position.line (byteLength source + 1)] ∧
      (scan (source ++ ['"'])).errors = earlier := by
  obtain ⟨front,body,pieces,written,inside,errors,terminated,span⟩ := unterminated_last member cause
  have settles : Settles (Segment.openString body).text := ⟨by simp [Segment.text],by simp [Segment.text]⟩
  have stands : (Segment.string body).StandsBefore [] := inside
  have closed : segments (source ++ ['"']) = front ++ [.string body] :=
    segments_closed pieces settles rfl stands
  have token := stringAt_piece (front.flatMap Segment.text) body
  rw [← written] at token
  refine ⟨_,errors,terminated,by rw [span],?_,?_⟩
  · rw [tokens_closed pieces closed rfl rfl,token,span,List.append_assoc]
    rfl
  · rw [errors_last closed]
    exact List.append_nil _

theorem closed_comment {source : List Char} (left : (scan source).LeavesComment) :
    (scan (source ++ ['*','/'])).tokens = (scan source).tokens.filter (·.kind ≠ .endOfSource) ++
        [endAt (scan source).endToken.position.line (byteLength source + 2)] ∧
      (scan (source ++ ['*','/'])).errors = (scan source).errors ∧
      ¬ (scan (source ++ ['*','/'])).LeavesComment := by
  obtain ⟨body,found⟩ := (leavesComment_iff source).mp left
  obtain ⟨front,pieces,before⟩ := pieces_open found rfl
  have split := segments_splits source
  rw [pieces] at split
  have never : ¬ HoldsClosing body := (splits_stands split).1
  have settles : Settles (Segment.openComment body).text := ⟨by simp [Segment.text],by simp [Segment.text]⟩
  have stands : (Segment.blockComment body).StandsBefore [] := fun closes => never (holdsClosing_star closes)
  have closed : segments (source ++ ['*','/']) = front ++ [.blockComment body] :=
    segments_closed pieces settles rfl stands
  refine ⟨?_,?_,?_⟩
  · rw [tokens_closed pieces closed rfl rfl]
    exact congrArg (· ++ _) (List.append_nil _)
  · exact (errors_last closed).trans (errors_last pieces).symm
  · rw [leavesComment_iff,closed]
    intro again
    obtain ⟨other,member⟩ := again
    rcases List.mem_append.mp member with earlier | last
    · cases before _ earlier
    · cases List.mem_singleton.mp last

theorem not_both_open (source : List Char) :
    ¬ ((scan source).LeavesString ∧ (scan source).LeavesComment) := by
  intro both
  obtain ⟨body,found⟩ := (leavesString_iff source).mp both.1
  obtain ⟨inside,other⟩ := (leavesComment_iff source).mp both.2
  obtain ⟨front,pieces,closed⟩ := pieces_open found rfl
  rw [pieces] at other
  rcases List.mem_append.mp other with earlier | last
  · cases closed _ earlier
  · cases List.mem_singleton.mp last

-- What is left open is closed by its mark: a string is a token then and its error is
-- gone, a comment still tells nothing, and all before it is told as before.
theorem scan_closed (source : List Char) :
    (∀ error ∈ (scan source).errors, error.cause = .unterminatedString →
      ∃ earlier, (scan source).errors = earlier ++ [error] ∧
        (∀ other ∈ earlier, other.cause ≠ .unterminatedString) ∧
        error.position.span.stop = byteLength source ∧
        (scan (source ++ ['"'])).tokens = (scan source).tokens.filter (·.kind ≠ .endOfSource) ++
          [stringAt source error.position.span.start,
            endAt (scan source).endToken.position.line (byteLength source + 1)] ∧
        (scan (source ++ ['"'])).errors = earlier) ∧
    ((scan source).LeavesComment →
      (scan (source ++ ['*','/'])).tokens = (scan source).tokens.filter (·.kind ≠ .endOfSource) ++
          [endAt (scan source).endToken.position.line (byteLength source + 2)] ∧
        (scan (source ++ ['*','/'])).errors = (scan source).errors ∧
        ¬ (scan (source ++ ['*','/'])).LeavesComment) ∧
    ¬ ((scan source).LeavesString ∧ (scan source).LeavesComment) := by
  refine ⟨?_,?_,not_both_open source⟩
  · intro error member cause
    exact closed_string member cause
  · intro left
    exact closed_comment left

theorem scan_closed_nested :
    let string := ['@','"','/','*','\n']
    let comment := ['@','/','*','"','*']
    let stray : LexError := ⟨.unexpectedCharacter '@',⟨1,⟨0,1⟩⟩⟩
    (scan string).errors = [stray,⟨.unterminatedString,⟨2,⟨1,5⟩⟩⟩] ∧
      (scan (string ++ ['"'])).errors = [stray] ∧
      (scan (string ++ ['"'])).tokens =
        [⟨.string,['"','/','*','\n','"'],some (.text ['/','*','\n']),⟨1,⟨1,6⟩⟩⟩,endAt 2 6] ∧
      (scan comment).LeavesComment ∧ (scan (comment ++ ['*','/'])).errors = [stray] ∧
      (scan (comment ++ ['*','/'])).tokens = [endAt 1 7] := by
  intro string comment stray
  let unclosed : LexError := ⟨.unterminatedString,⟨2,⟨1,5⟩⟩⟩
  have strings : events string = [.error stray,.error unclosed] := by
    have first : Segment.read '@' ['"','/','*','\n'] = (.stray '@',['"','/','*','\n']) := rfl
    have opened : Segment.read '"' ['/','*','\n'] = (.openString ['/','*','\n'],[]) := rfl
    rw [events_from,segments_cons,first,segments_cons,opened,segments_nil]
    decide +kernel
  have comments : events comment = [.error stray,.openComment 1] := by
    have first : Segment.read '@' ['/','*','"','*'] = (.stray '@',['/','*','"','*']) := rfl
    have opened : Segment.read '/' ['*','"','*'] = (.openComment ['"','*'],[]) := rfl
    rw [events_from,segments_cons,first,segments_cons,opened,segments_nil]
    decide +kernel
  have errors : (scan string).errors = [stray] ++ [unclosed] := by
    rw [Scan.errors,scan,strings]
    rfl
  have left : (scan comment).LeavesComment := by
    refine ⟨1,?_⟩
    simp [Scan.log,scan,comments]
  have member : unclosed ∈ (scan string).errors := by simp [errors]
  obtain ⟨earlier,same,_,_,tokens,closed⟩ := (scan_closed string).1 unclosed member rfl
  obtain ⟨silent,kept,_⟩ := (scan_closed comment).2.1 left
  obtain rfl := (List.append_inj' (errors.symm.trans same) rfl).1
  refine ⟨errors,closed,?_,left,?_,?_⟩
  · rw [tokens,tokens_told,strings]
    decide +kernel
  · rw [kept,Scan.errors,scan,comments]
    rfl
  · rw [silent,tokens_told,comments]
    decide +kernel

end ScriptLexer
