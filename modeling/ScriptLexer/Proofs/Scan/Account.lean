import ScriptLexer.Proofs.Reader.Run
import ScriptLexer.Proofs.Scan.Closing
import ScriptLexer.Proofs.Scan.Filter

namespace ScriptLexer

def LogRecord.written (entry : LogRecord) : LogLevel × String := (entry.level,entry.message)

def Reader.log (s : Reader) : List LogRecord :=
  s.told.map .event ++
    if s.stage = .ended then [.finished (s.told.filterMap Event.token?).length s.line] else []

inductive Told where
  | token (token : Token)
  | error (error : LexError)
deriving DecidableEq

namespace Told

def position : Told → Position
  | token t => t.position
  | error e => e.position

def written : Told → LogLevel × String
  | token t => (.trace,t.position.display ++ " " ++ t.display)
  | error e => (.debug,"lexical error at " ++ e.position.display ++ ": " ++ e.cause.message)

def token? : Told → Option Token
  | token t => some t
  | error _ => none

def error? : Told → Option LexError
  | token _ => none
  | error e => some e

end Told

def Event.told? : Event → Option Told
  | token t => some (.token t)
  | error e => some (.error e)
  | openComment _ => none

theorem tokens_of_told (events : List Event) :
    (events.filterMap Event.told?).filterMap Told.token? = events.filterMap Event.token? := by
  rw [List.filterMap_filterMap]
  congr 1
  funext event
  cases event <;> rfl

theorem errors_of_told (events : List Event) :
    (events.filterMap Event.told?).filterMap Told.error? = events.filterMap Event.error? := by
  rw [List.filterMap_filterMap]
  congr 1
  funext event
  cases event <;> rfl

theorem written_told {events : List Event} (closed : ∀ line, .openComment line ∉ events) :
    (events.map LogRecord.event).map LogRecord.written = (events.filterMap Event.told?).map Told.written := by
  induction events with
  | nil => rfl
  | cons event events ih =>
    have later := ih fun line member => closed line (List.mem_cons_of_mem event member)
    cases event with
    | token t => exact congrArg ((Told.token t).written :: ·) later
    | error e => exact congrArg ((Told.error e).written :: ·) later
    | openComment line => exact absurd List.mem_cons_self (closed line)

theorem told_span {piece : Segment} {place : Place} {told : Told}
    (seen : (piece.event? place).bind Event.told? = some told) :
    told.position.span = ⟨place.offset,(place.after piece.text).offset⟩ := by
  obtain ⟨event,told,found⟩ := Option.bind_eq_some_iff.mp seen
  cases event with
  | token t =>
    cases found
    exact token_span told
  | error e =>
    cases found
    exact error_span told
  | openComment line => cases found

theorem spans_rise (place : Place) (pieces : List Segment) :
    (((eventsFrom place pieces).filterMap Event.told?).map (·.position.span)).Pairwise
        (fun one other => one.stop ≤ other.start) ∧
      ∀ told ∈ (eventsFrom place pieces).filterMap Event.told?,
        place.offset ≤ told.position.span.start ∧
          told.position.span.stop ≤ (place.after (pieces.flatMap Segment.text)).offset := by
  induction pieces generalizing place with
  | nil => simp [eventsFrom_nil]
  | cons piece pieces ih =>
    obtain ⟨rising,bounds⟩ := ih (place.after piece.text)
    rw [← Place.after_append] at bounds
    have below : place.offset ≤ (place.after piece.text).offset := Nat.le_add_right _ _
    have above : (place.after piece.text).offset ≤ (place.after (piece.text ++ pieces.flatMap Segment.text)).offset := by
      rw [Place.after_append]
      exact Nat.le_add_right _ _
    rw [seen_cons,List.map_append,List.flatMap_cons]
    cases seen : (piece.event? place).bind Event.told? with
    | none =>
      refine ⟨rising,?_⟩
      intro told member
      have := bounds told member
      omega
    | some told =>
      have here := told_span seen
      refine ⟨?_,?_⟩
      · simp only [Option.toList_some,List.map_cons,List.map_nil,List.singleton_append,List.pairwise_cons]
        refine ⟨?_,rising⟩
        intro span member
        obtain ⟨other,later,rfl⟩ := List.mem_map.mp member
        rw [here]
        exact (bounds other later).1
      · intro other member
        rcases List.mem_cons.mp member with rfl | later
        · rw [here]
          exact ⟨Nat.le_refl _,above⟩
        · have := bounds other later
          omega

theorem openComment_piece {line : Nat} {place : Place} {pieces : List Segment}
    (told : .openComment line ∈ eventsFrom place pieces) : ∃ body, .openComment body ∈ pieces := by
  have each (piece : Segment) (place : Place) :
      (∃ event, piece.event? place = some event ∧ ∃ line, event = .openComment line) ↔
        ∃ body, piece = .openComment body := by
    cases piece <;> simp [Segment.event?]
  obtain ⟨piece,member,body,rfl⟩ := (told_iff each place pieces).mp ⟨_,told,line,rfl⟩
  exact ⟨body,member⟩

theorem events_written (source : List Char) :
    ((events source).map LogRecord.event).map LogRecord.written =
      ((events source).filterMap Event.told?).map Told.written ++
        if (strip .code source).2 = .blockComment then
          [(.trace,"block comment at line " ++ (1 + lineFeeds source).repr ++ " runs to end of input")]
        else [] := by
  obtain ⟨_,_,comment⟩ := strip_splits (segments_splits source)
  by_cases left : (strip .code source).2 = .blockComment
  · obtain ⟨body,found⟩ := comment.mp left
    obtain ⟨front,pieces,before⟩ := pieces_open found rfl
    have whole : front.flatMap Segment.text ++ (Segment.openComment body).text = source := by
      rw [← segments_text source,pieces,List.flatMap_append,List.flatMap_singleton]
    have closed : ∀ line, .openComment line ∉ eventsFrom .start front := by
      intro line told
      obtain ⟨inside,member⟩ := openComment_piece told
      cases before _ member
    have told : events source = eventsFrom .start front ++ [.openComment (1 + lineFeeds source)] := by
      rw [events_from,pieces,eventsFrom_append,eventsFrom_cons,eventsFrom_nil,List.append_nil]
      simp only [Segment.event?,Option.toList_some]
      rw [← Place.after_append,whole,start_after]
    have silent : [Event.openComment (1 + lineFeeds source)].filterMap Event.told? = [] := rfl
    rw [if_pos left,told,List.map_append,List.map_append,written_told closed,List.filterMap_append,silent,
      List.append_nil]
    rfl
  · have closed : ∀ line, .openComment line ∉ events source := by
      intro line told
      exact left (comment.mpr (openComment_piece told))
    rw [if_neg left,written_told closed,List.append_nil]

namespace Reader

theorem Valid.log_eq {source : List Char} {s : Reader} (valid : Valid source s) (ended : s.stage = .ended) :
    s.log = (scan source).log := by
  have told := valid.told_all ended
  cases valid with
  | between stage here => simp [stage] at ended
  | within fits here => simp [ended,Stage.Fits] at fits
  | counted fits body here => cases ended
  | ended stage told located line =>
    simp [log,stage,told,line,Scan.log,Scan.tokens,scan,start_after,Event.token?]

end Reader

-- The log has a record for every token and every error, in the order of their spans, and
-- one for a comment left open, which stands right before that of the end and never with an
-- open string. The sum comes last. A reader that runs to its end has written this log.
theorem scan_log (source : List Char) :
    ∃ told : List Told,
      let result := scan source
      let last := result.endToken
      let lines := 1 + lineFeeds source
      result.log.map LogRecord.written =
        told.map Told.written ++
          (if (strip .code source).2 = .blockComment then
            [(.trace,"block comment at line " ++ lines.repr ++ " runs to end of input")]
          else []) ++
          [(.trace,last.position.display ++ " " ++ last.display),
           (.debug,"scanned " ++ result.tokens.length.repr ++ " tokens over " ++ lines.repr ++ " lines")] ∧
      told.filterMap Told.token? ++ [last] = result.tokens ∧
      told.filterMap Told.error? = result.errors ∧
      ((told ++ [Told.token last]).map (·.position.span)).Pairwise (fun one other => one.stop ≤ other.start) ∧
      ((strip .code source).2 = .blockComment → ∀ error ∈ result.errors, error.cause ≠ .unterminatedString) ∧
      last.position.line = lines ∧
      ∃ passed s, Reader.Runs source .initial passed s ∧ s.stage = .ended ∧ s.log = result.log := by
  obtain ⟨_,_,comment⟩ := strip_splits (segments_splits source)
  refine ⟨(events source).filterMap Event.told?,?_⟩
  intro result last lines
  refine ⟨?_,?_,errors_of_told _,?_,?_,?_,?_⟩
  · have finish : result.finish.line = lines := by simp [result,lines,scan,start_after]
    have ending : [LogRecord.event (.token last),.finished result.tokens.length result.finish.line].map
        LogRecord.written =
          [(.trace,last.position.display ++ " " ++ last.display),
           (.debug,"scanned " ++ result.tokens.length.repr ++ " tokens over " ++ lines.repr ++ " lines")] := by
      rw [finish]
      rfl
    rw [Scan.log,List.map_append,ending]
    exact congrArg (· ++ _) (events_written source)
  · exact congrArg (· ++ [last]) (tokens_of_told _)
  · obtain ⟨rising,bounds⟩ := spans_rise .start (segments source)
    rw [segments_text] at bounds
    rw [List.map_append,List.pairwise_append]
    refine ⟨rising,List.pairwise_singleton _ _,?_⟩
    intro span member final single
    obtain ⟨told,present,rfl⟩ := List.mem_map.mp member
    rw [List.mem_singleton.mp single]
    exact (bounds told present).2
  · intro left error member cause
    exact not_both_open source ⟨⟨error,member,cause⟩,(leavesComment_iff source).mpr (comment.mp left)⟩
  · simp [last,lines,result,Scan.endToken,scan,start_after]
  · obtain ⟨passed,s,run,ended,valid⟩ := Reader.runs_ended source
    exact ⟨passed,s,run,ended,valid.log_eq ended⟩

end ScriptLexer
