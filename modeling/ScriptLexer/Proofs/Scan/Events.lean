import ScriptLexer.Scan.Log
import ScriptLexer.Proofs.Segment.Splits

namespace ScriptLexer

def viewFrom {α : Type} (view : Place → Segment → Option α) (place : Place) (pieces : List Segment) : List α :=
  (placed place pieces).filterMap fun (place,piece) => view place piece

section View

variable {α β : Type} (view : Place → Segment → Option α)

theorem viewFrom_nil (place : Place) : viewFrom view place [] = [] := by
  rw [viewFrom,placed_nil,List.filterMap_nil]

theorem viewFrom_cons (place : Place) (piece : Segment) (pieces : List Segment) :
    viewFrom view place (piece :: pieces) =
      (view place piece).toList ++ viewFrom view (place.after piece.text) pieces := by
  simp only [viewFrom,placed_cons,List.filterMap_cons]
  cases view place piece <;> rfl

theorem viewFrom_append (place : Place) (front back : List Segment) :
    viewFrom view place (front ++ back) =
      viewFrom view place front ++ viewFrom view (place.after (front.flatMap Segment.text)) back := by
  induction front generalizing place with
  | nil => rw [List.nil_append,viewFrom_nil,List.nil_append,List.flatMap_nil,Place.after_nil]
  | cons piece front ih =>
    rw [List.cons_append,viewFrom_cons,viewFrom_cons,ih,List.flatMap_cons,Place.after_append,
      List.append_assoc]

theorem viewFrom_filterMap (see : α → Option β) (place : Place) (pieces : List Segment) :
    (viewFrom view place pieces).filterMap see =
      viewFrom (fun place piece => (view place piece).bind see) place pieces := by
  rw [viewFrom,List.filterMap_filterMap]
  rfl

end View

def eventsFrom (place : Place) (pieces : List Segment) : List Event :=
  (placed place pieces).filterMap fun (place,piece) => piece.event? place

theorem events_from (source : List Char) : events source = eventsFrom .start (segments source) := rfl

theorem eventsFrom_nil (place : Place) : eventsFrom place [] = [] := viewFrom_nil _ place

theorem eventsFrom_cons (place : Place) (piece : Segment) (pieces : List Segment) :
    eventsFrom place (piece :: pieces) =
      (piece.event? place).toList ++ eventsFrom (place.after piece.text) pieces :=
  viewFrom_cons _ place piece pieces

theorem eventsFrom_append (place : Place) (front back : List Segment) :
    eventsFrom place (front ++ back) =
      eventsFrom place front ++ eventsFrom (place.after (front.flatMap Segment.text)) back :=
  viewFrom_append _ place front back

theorem eventsFrom_blank (place : Place) (text : List Char) : eventsFrom place (text.map Segment.blank) = [] := by
  induction text generalizing place with
  | nil => exact eventsFrom_nil place
  | cons c text ih =>
    rw [List.map_cons,eventsFrom_cons,ih]
    rfl

theorem blank_text (text : List Char) : (text.map Segment.blank).flatMap Segment.text = text := by
  rw [List.flatMap_map]
  exact List.flatMap_singleton' text

theorem events_blank {text : List Char} (blank : ∀ c ∈ text, isBlank c = true) (place : Place)
    (after : List Char) :
    eventsFrom place (segments (text ++ after)) = eventsFrom (place.after text) (segments after) := by
  rw [splits_segments (splits_blank blank (segments_splits after)),eventsFrom_append,eventsFrom_blank,
    blank_text]
  rfl

theorem filterMap_toList {α β : Type} (f : α → Option β) (found : Option α) :
    found.toList.filterMap f = (found.bind f).toList := by
  cases found with
  | none => rfl
  | some a => cases seen : f a <;> simp [seen]

theorem seen_cons {α : Type} (see : Event → Option α) (place : Place) (piece : Segment)
    (pieces : List Segment) :
    (eventsFrom place (piece :: pieces)).filterMap see =
      ((piece.event? place).bind see).toList ++ (eventsFrom (place.after piece.text) pieces).filterMap see := by
  rw [eventsFrom_cons,List.filterMap_append,filterMap_toList]

theorem seen_append {α : Type} (see : Event → Option α) (place : Place) (front back : List Segment) :
    (eventsFrom place (front ++ back)).filterMap see =
      (eventsFrom place front).filterMap see ++
        (eventsFrom (place.after (front.flatMap Segment.text)) back).filterMap see := by
  rw [eventsFrom_append,List.filterMap_append]

theorem start_after (text : List Char) : Place.start.after text = ⟨1 + lineFeeds text,byteLength text⟩ := by
  rw [Place.after,Place.start,Nat.zero_add]

theorem offset_after (front text : List Char) :
    ((Place.start.after front).after text).offset = byteLength (front ++ text) := by
  rw [← Place.after_append,start_after]

theorem event_kind {piece : Segment} {place : Place} {token : Token}
    (told : piece.event? place = some (.token token)) : token.kind ≠ .endOfSource := by
  cases piece with
  | string body => cases told; simp
  | number whole fraction => cases told; simp
  | word letters =>
    cases told
    simp only [TokenKind.ofWord]
    split <;> simp
  | operator o => cases told; simp
  | _ => cases told

theorem tokens_told (source : List Char) :
    (scan source).tokens.filter (·.kind ≠ .endOfSource) = (events source).filterMap Event.token? := by
  have told : ∀ token ∈ (events source).filterMap Event.token?, decide (token.kind ≠ .endOfSource) = true := by
    intro token member
    obtain ⟨event,present,seen⟩ := List.mem_filterMap.mp member
    obtain ⟨⟨place,piece⟩,_,told⟩ := List.mem_filterMap.mp present
    cases event with
    | token t =>
      cases seen
      exact decide_eq_true (event_kind told)
    | _ => cases seen
  have final : decide ((scan source).endToken.kind ≠ .endOfSource) = false := rfl
  rw [Scan.tokens,List.filter_append,List.filter_cons_of_neg (by rw [final]; exact Bool.false_ne_true),
    List.filter_nil,List.append_nil]
  exact List.filter_eq_self.mpr told

theorem told_iff {told : Event → Prop} {tells : Segment → Prop}
    (each : ∀ (piece : Segment) (place : Place),
      (∃ event, piece.event? place = some event ∧ told event) ↔ tells piece)
    (place : Place) (pieces : List Segment) :
    (∃ event ∈ eventsFrom place pieces, told event) ↔ ∃ piece ∈ pieces, tells piece := by
  induction pieces generalizing place with
  | nil =>
    rw [eventsFrom_nil]
    simp
  | cons piece pieces ih =>
    rw [eventsFrom_cons]
    simp only [List.mem_append,Option.mem_toList,or_and_right,exists_or,ih,each,List.mem_cons,
      exists_eq_left]

theorem event_piece {rest : List Char} {pieces : List Segment} {event : Event}
    (split : Splits rest pieces) (before : List Char)
    (member : event ∈ eventsFrom (Place.start.after before) pieces) :
    ∃ (front : List Char) (piece : Segment) (after : List Char), piece.StandsBefore after ∧
      front ++ piece.text ++ after = before ++ rest ∧ piece.event? (Place.start.after front) = some event := by
  induction split generalizing before with
  | nil =>
    rw [eventsFrom_nil] at member
    cases member
  | @cons piece after pieces stands tail ih =>
    rw [eventsFrom_cons,← Place.after_append] at member
    rcases List.mem_append.mp member with here | later
    · refine ⟨before,piece,after,stands,List.append_assoc _ _ _,?_⟩
      exact Option.mem_toList.mp here
    · obtain ⟨front,other,behind,fits,whole,told⟩ := ih (before ++ piece.text) later
      rw [List.append_assoc before] at whole
      exact ⟨front,other,behind,fits,whole,told⟩

theorem token_place {piece : Segment} {place : Place} {token : Token}
    (told : piece.event? place = some (.token token)) :
    token.position.line = place.line ∧ token.position.span.start = place.offset := by
  cases piece with
  | string body | number whole fraction | word letters | operator o =>
    cases told
    exact ⟨rfl,rfl⟩
  | _ => cases told

theorem token_seen {told : Option Event} {token : Token} (seen : told.bind Event.token? = some token) :
    told = some (.token token) := by
  obtain ⟨event,same,found⟩ := Option.bind_eq_some_iff.mp seen
  cases event with
  | token t =>
    cases found
    exact same
  | _ => cases found

theorem error_seen {told : Option Event} {error : LexError} (seen : told.bind Event.error? = some error) :
    told = some (.error error) := by
  obtain ⟨event,same,found⟩ := Option.bind_eq_some_iff.mp seen
  cases event with
  | error e =>
    cases found
    exact same
  | _ => cases found

theorem token_span {piece : Segment} {place : Place} {token : Token}
    (told : piece.event? place = some (.token token)) :
    token.position.span = ⟨place.offset,(place.after piece.text).offset⟩ := by
  cases piece with
  | string body | number whole fraction | word letters | operator o =>
    cases told
    rfl
  | _ => cases told

theorem error_span {piece : Segment} {place : Place} {error : LexError}
    (told : piece.event? place = some (.error error)) :
    error.position.span = ⟨place.offset,(place.after piece.text).offset⟩ := by
  cases piece with
  | openString body | stray c =>
    cases told
    rfl
  | _ => cases told

def Scan.LeavesString (result : Scan) : Prop := ∃ error ∈ result.errors, error.cause = .unterminatedString

def Scan.LeavesComment (result : Scan) : Prop := ∃ line, .event (.openComment line) ∈ result.log

theorem unterminated_iff (place : Place) (pieces : List Segment) :
    (∃ error ∈ (eventsFrom place pieces).filterMap Event.error?, error.cause = .unterminatedString) ↔
      ∃ body, .openString body ∈ pieces := by
  have each (piece : Segment) (place : Place) :
      (∃ event, piece.event? place = some event ∧
        ∃ error, event.error? = some error ∧ error.cause = .unterminatedString) ↔
          ∃ body, piece = .openString body := by
    cases piece <;> simp [Segment.event?,Event.error?]
  have told := told_iff each place pieces
  constructor
  · intro left
    obtain ⟨error,member,cause⟩ := left
    obtain ⟨event,present,seen⟩ := List.mem_filterMap.mp member
    obtain ⟨piece,found,body,rfl⟩ := told.mp ⟨event,present,error,seen,cause⟩
    exact ⟨body,found⟩
  · intro left
    obtain ⟨body,found⟩ := left
    obtain ⟨event,present,error,seen,cause⟩ := told.mpr ⟨_,found,body,rfl⟩
    exact ⟨error,List.mem_filterMap.mpr ⟨event,present,seen⟩,cause⟩

theorem leavesString_iff (source : List Char) :
    (scan source).LeavesString ↔ ∃ body, .openString body ∈ segments source :=
  unterminated_iff .start (segments source)

theorem leavesComment_iff (source : List Char) :
    (scan source).LeavesComment ↔ ∃ body, .openComment body ∈ segments source := by
  have each (piece : Segment) (place : Place) :
      (∃ event, piece.event? place = some event ∧ ∃ line, event = .openComment line) ↔
        ∃ body, piece = .openComment body := by
    cases piece <;> simp [Segment.event?]
  have told := told_iff each .start (segments source)
  rw [← events_from] at told
  constructor
  · intro left
    obtain ⟨line,member⟩ := left
    have present : Event.openComment line ∈ events source := by simpa [Scan.log,scan] using member
    obtain ⟨piece,found,body,rfl⟩ := told.mp ⟨_,present,line,rfl⟩
    exact ⟨body,found⟩
  · intro left
    obtain ⟨body,found⟩ := left
    obtain ⟨event,present,line,rfl⟩ := told.mpr ⟨_,found,body,rfl⟩
    exact ⟨line,by simpa [Scan.log,scan] using present⟩

end ScriptLexer
