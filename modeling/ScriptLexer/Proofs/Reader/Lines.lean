import ScriptLexer.Proofs.Reader.Run

namespace ScriptLexer

def LexError.lineIn (source : List Char) (error : LexError) : Nat :=
  match error.cause with
  | .unexpectedCharacter _ => 1 + lineFeeds (slice source 0 error.position.span.start)
  | .unterminatedString => 1 + lineFeeds source

theorem error_line {piece : Segment} {before after : List Char} {error : LexError}
    (stands : piece.StandsBefore after)
    (told : piece.event? (Place.start.after before) = some (.error error)) :
    error.position.line = error.lineIn (before ++ piece.text ++ after) := by
  cases piece with
  | stray c =>
    cases told
    rw [← Place.after_append]
    simp only [LexError.lineIn,start_after,List.append_assoc,slice_front,Segment.text,lineFeeds_append,
      lineFeeds_plain stands.notFeed,Nat.add_zero]
  | openString body =>
    cases told
    rw [← Place.after_append,stands.2,List.append_nil]
    simp only [LexError.lineIn,start_after]
  | _ => cases told

theorem lines_rise (place : Place) (pieces : List Segment) :
    (((eventsFrom place pieces).filterMap Event.token?).map (·.position.line)).Pairwise (· ≤ ·) ∧
      ∀ token ∈ (eventsFrom place pieces).filterMap Event.token?,
        place.line ≤ token.position.line ∧
          token.position.line ≤ (place.after (pieces.flatMap Segment.text)).line := by
  induction pieces generalizing place with
  | nil =>
    rw [eventsFrom_nil]
    exact ⟨.nil,by simp⟩
  | cons piece pieces ih =>
    obtain ⟨rising,bounds⟩ := ih (place.after piece.text)
    rw [← Place.after_append] at bounds
    have below : place.line ≤ (place.after piece.text).line := Nat.le_add_right _ _
    have above : place.line ≤ (place.after (piece.text ++ pieces.flatMap Segment.text)).line :=
      Nat.le_add_right _ _
    have widened : ∀ token ∈ (eventsFrom (place.after piece.text) pieces).filterMap Event.token?,
        place.line ≤ token.position.line ∧
          token.position.line ≤ (place.after (piece.text ++ pieces.flatMap Segment.text)).line :=
      fun token member => ⟨Nat.le_trans below (bounds token member).1,(bounds token member).2⟩
    rw [seen_cons,List.map_append,List.flatMap_cons]
    cases seen : (piece.event? place).bind Event.token? with
    | none => exact ⟨rising,widened⟩
    | some token =>
      have here : token.position.line = place.line := by
        obtain ⟨event,told,found⟩ := Option.bind_eq_some_iff.mp seen
        cases event with
        | token t =>
          cases found
          exact (token_place told).1
        | _ => cases found
      refine ⟨?_,?_⟩
      · rw [Option.toList_some,List.map_singleton,List.singleton_append,List.pairwise_cons]
        refine ⟨?_,rising⟩
        intro line member
        obtain ⟨other,present,rfl⟩ := List.mem_map.mp member
        rw [here]
        exact (widened other present).1
      · intro other member
        rcases List.mem_cons.mp member with rfl | later
        · rw [here]
          exact ⟨Nat.le_refl _,above⟩
        · exact widened other later

theorem token_line {source : List Char} {token : Token} (member : token ∈ (scan source).tokens) :
    token.position.line = 1 + lineFeeds (slice source 0 token.position.span.start) := by
  rcases List.mem_append.mp member with told | last
  · obtain ⟨event,present,seen⟩ := List.mem_filterMap.mp told
    obtain ⟨front,piece,after,_,rfl,placed⟩ := event_piece (segments_splits source) [] present
    cases event with
    | token t =>
      cases seen
      obtain ⟨line,start⟩ := token_place placed
      rw [line,start,start_after,List.append_assoc,slice_front]
    | _ => cases seen
  · have whole := slice_front source []
    rw [List.append_nil] at whole
    rw [List.mem_singleton.mp last]
    simp only [Scan.endToken,scan,start_after,whole]

theorem Reader.Valid.line_outer {source : List Char} {s : Reader} (valid : Valid source s)
    (outer : s.stage = .outer) : s.line = 1 + lineFeeds (slice source 0 s.current) := by
  cases valid with
  | between stage here =>
    obtain ⟨before,inside,front,located⟩ := here.located
    rw [here.line,front,located.current,located.whole,slice_front]
  | within fits here =>
    rw [outer] at fits
    exact fits.elim
  | counted fits body here => cases outer
  | ended stage told located line =>
    rw [stage] at outer
    cases outer

-- Lines count the line feeds before a lexeme, whatever these lie in, and between two
-- lexemes the counter of a reader has counted each line feed once.
theorem scan_lines (source : List Char) :
    (∀ token ∈ (scan source).tokens,
      token.position.line = 1 + lineFeeds (slice source 0 token.position.span.start)) ∧
    (∀ error ∈ (scan source).errors, error.position.line = error.lineIn source) ∧
    ((scan source).tokens.map (·.position.line)).Pairwise (· ≤ ·) ∧
    (scan source).tokens.getLast? = some (scan source).endToken ∧
    (scan source).endToken.position.line = 1 + lineFeeds source ∧
    ∀ passed s, Reader.Runs source .initial passed s → s.stage = .outer →
      s.line = 1 + lineFeeds (slice source 0 s.current) := by
  have finish : (scan source).endToken.position.line = 1 + lineFeeds source := by
    simp only [Scan.endToken,scan,start_after]
  refine ⟨fun token member => token_line member,?_,?_,List.getLast?_concat,finish,?_⟩
  · intro error member
    obtain ⟨event,present,seen⟩ := List.mem_filterMap.mp member
    obtain ⟨front,piece,after,stands,rfl,placed⟩ := event_piece (segments_splits source) [] present
    cases event with
    | error e =>
      cases seen
      exact error_line stands placed
    | _ => cases seen
  · obtain ⟨rising,bounds⟩ := lines_rise .start (segments source)
    rw [segments_text,start_after] at bounds
    rw [Scan.tokens,List.map_append,List.pairwise_append]
    refine ⟨rising,List.pairwise_singleton _ _,?_⟩
    intro line member last final
    obtain ⟨token,told,rfl⟩ := List.mem_map.mp member
    rw [List.mem_singleton.mp final]
    show token.position.line ≤ (scan source).endToken.position.line
    rw [finish]
    exact (bounds token told).2
  · intro passed s run outer
    exact (run.gains (Reader.initial_valid source)).1.line_outer outer

end ScriptLexer
