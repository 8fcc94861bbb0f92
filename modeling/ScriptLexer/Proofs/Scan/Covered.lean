import ScriptLexer.Proofs.Scan.Events
import ScriptLexer.Proofs.Segment.Faded
import ScriptLexer.Proofs.Text.Overwrite

-- Spaces written over some pieces of a source take away what these pieces tell and
-- nothing else: every other piece is told of as before, at its old place.
namespace ScriptLexer

theorem events_viewFrom (source : List Char) :
    events source = viewFrom (fun place piece => piece.event? place) .start (segments source) := rfl

theorem viewFrom_congr {α : Type} {first second : Place → Segment → Option α}
    (same : ∀ place piece, first place piece = second place piece) (place : Place) (pieces : List Segment) :
    viewFrom first place pieces = viewFrom second place pieces := by
  have equal : first = second := funext fun place => funext fun piece => same place piece
  rw [equal]

section Hidden

variable (hidden : Segment → Bool)

def hiddenSpan? (place : Place) (piece : Segment) : Option Span :=
  if hidden piece then some ⟨place.offset,(place.after piece.text).offset⟩ else none

def shownEvent? (place : Place) (piece : Segment) : Option Event :=
  if hidden piece then none else piece.event? place

theorem hiddenSpan_bounds {place : Place} {piece : Segment} :
    ∀ span ∈ hiddenSpan? hidden place piece,
      span.start = place.offset ∧ span.stop = place.offset + byteLength piece.text := by
  intro span member
  rw [hiddenSpan?] at member
  split at member
  · cases member
    exact ⟨rfl,rfl⟩
  · cases member

theorem hiddenSpans_start {place : Place} {pieces : List Segment} :
    ∀ span ∈ viewFrom (hiddenSpan? hidden) place pieces, place.offset ≤ span.start := by
  induction pieces generalizing place with
  | nil =>
    rw [viewFrom_nil]
    simp
  | cons piece pieces ih =>
    rw [viewFrom_cons]
    intro span member
    rcases List.mem_append.mp member with here | later
    · exact Nat.le_of_eq (hiddenSpan_bounds hidden span (Option.mem_toList.mp here)).1.symm
    · exact Nat.le_trans (Nat.le_add_right _ _) (ih span later)

theorem isCovered_piece {place : Place} {piece : Segment} {earlier later : List Span} {offset : Nat}
    (ended : ∀ span ∈ earlier, span.stop ≤ place.offset)
    (begins : ∀ span ∈ later, (place.after piece.text).offset ≤ span.start)
    (start : place.offset ≤ offset) (stop : offset < place.offset + byteLength piece.text) :
    isCovered (earlier ++ ((hiddenSpan? hidden place piece).toList ++ later)) offset = hidden piece := by
  have before : isCovered earlier offset = false :=
    isCovered_apart fun span member => .inl (Nat.le_trans (ended span member) start)
  have behind : isCovered later offset = false :=
    isCovered_apart fun span member => .inr (Nat.lt_of_lt_of_le stop (begins span member))
  have here : isCovered (hiddenSpan? hidden place piece).toList offset = hidden piece := by
    rw [hiddenSpan?]
    cases hidden piece with
    | true =>
      have inside : (⟨place.offset,(place.after piece.text).offset⟩ : Span).covers offset = true :=
        covers_iff.mpr ⟨start,stop⟩
      rw [if_pos rfl,Option.toList_some,isCovered,List.any_cons,List.any_nil,inside,Bool.or_false]
    | false => rfl
  rw [isCovered_append,isCovered_append,before,behind,here,Bool.false_or,Bool.or_false]

theorem overwrite_pieces (anew : Char → List Char) {place : Place} {pieces : List Segment}
    {earlier : List Span} (ended : ∀ span ∈ earlier, span.stop ≤ place.offset) :
    overwriteFrom anew (earlier ++ viewFrom (hiddenSpan? hidden) place pieces) place.offset
        (pieces.flatMap Segment.text) =
      pieces.flatMap fun piece => if hidden piece then piece.text.flatMap anew else piece.text := by
  induction pieces generalizing place earlier with
  | nil => rfl
  | cons piece pieces ih =>
    have passed : ∀ span ∈ earlier ++ (hiddenSpan? hidden place piece).toList,
        span.stop ≤ (place.after piece.text).offset := by
      intro span member
      rcases List.mem_append.mp member with early | here
      · exact Nat.le_trans (ended span early) (Nat.le_add_right _ _)
      · exact Nat.le_of_eq (hiddenSpan_bounds hidden span (Option.mem_toList.mp here)).2
    have front : overwriteFrom anew (earlier ++ ((hiddenSpan? hidden place piece).toList ++
          viewFrom (hiddenSpan? hidden) (place.after piece.text) pieces)) place.offset piece.text =
        if hidden piece then piece.text.flatMap anew else piece.text :=
      overwriteFrom_uniform anew fun offset start stop =>
        isCovered_piece hidden ended (hiddenSpans_start hidden) start stop
    rw [List.flatMap_cons,List.flatMap_cons,overwriteFrom_append,viewFrom_cons,front,← ih passed,
      List.append_assoc]
    rfl

theorem eventsFrom_covered (place : Place) (pieces : List Segment) :
    eventsFrom place (covered hidden pieces) = viewFrom (shownEvent? hidden) place pieces := by
  induction pieces generalizing place with
  | nil =>
    rw [viewFrom_nil]
    exact eventsFrom_nil place
  | cons piece pieces ih =>
    rw [covered,List.flatMap_cons,eventsFrom_append,viewFrom_cons,shownEvent?]
    split
    · rw [eventsFrom_blank,blank_text,(Faded.blank piece.text).after]
      exact congrArg ([] ++ ·) (ih _)
    · rw [eventsFrom_cons,eventsFrom_nil,List.append_nil,List.flatMap_singleton]
      exact congrArg ((piece.event? place).toList ++ ·) (ih _)

variable {anew : Char → List Char} (source : List Char)

def hiddenSpans : List Span := viewFrom (hiddenSpan? hidden) .start (segments source)

theorem overwrite_hidden
    (blank : ∀ piece ∈ segments source, hidden piece = true → piece.text.flatMap anew = piece.text.flatMap blankFor) :
    overwrite anew (hiddenSpans hidden source) source = coveredText hidden (segments source) := by
  have before : ∀ span ∈ ([] : List Span), span.stop ≤ Place.start.offset := by simp
  have written : overwriteFrom anew (hiddenSpans hidden source) 0 ((segments source).flatMap Segment.text) =
      (segments source).flatMap fun piece => if hidden piece then piece.text.flatMap anew else piece.text :=
    overwrite_pieces hidden anew before
  rw [segments_text] at written
  refine written.trans (List.flatMap_congr ?_)
  intro piece member
  split
  · rename_i hides
    exact blank piece member hides
  · rfl

theorem segments_coveredText :
    segments (coveredText hidden (segments source)) = covered hidden (segments source) :=
  splits_segments (splits_covered hidden (segments_splits source))

theorem scan_coveredText :
    scan (coveredText hidden (segments source)) =
      ⟨viewFrom (shownEvent? hidden) .start (segments source),(scan source).finish⟩ := by
  have faded := coveredText_faded hidden (segments source)
  rw [segments_text] at faded
  rw [scan,events_from,segments_coveredText,eventsFrom_covered,faded.after]
  rfl

theorem seen_coveredText {α : Type} {see : Event → Option α}
    (silent : ∀ piece place, hidden piece = true → (piece.event? place).bind see = none) :
    (scan (coveredText hidden (segments source))).events.filterMap see = (events source).filterMap see := by
  rw [scan_coveredText,viewFrom_filterMap,events_viewFrom,viewFrom_filterMap]
  apply viewFrom_congr
  intro place piece
  rw [shownEvent?]
  split
  · rename_i hides
    exact (silent piece place hides).symm
  · rfl

theorem endToken_coveredText :
    (scan (coveredText hidden (segments source))).endToken = (scan source).endToken := by
  rw [Scan.endToken,scan_coveredText]
  rfl

theorem tokens_coveredText
    (silent : ∀ piece place, hidden piece = true → (piece.event? place).bind Event.token? = none) :
    (scan (coveredText hidden (segments source))).tokens = (scan source).tokens := by
  rw [Scan.tokens,endToken_coveredText,seen_coveredText hidden source silent]
  rfl

theorem not_mem_covered {piece : Segment} (hides : hidden piece = true) (notBlank : ∀ c, piece ≠ .blank c)
    (pieces : List Segment) : piece ∉ covered hidden pieces := by
  intro member
  obtain ⟨other,_,here⟩ := List.mem_flatMap.mp member
  split at here
  · obtain ⟨c,_,same⟩ := List.mem_map.mp here
    exact notBlank c same.symm
  · rename_i shown
    rw [← List.mem_singleton.mp here] at shown
    exact shown hides

end Hidden

def Segment.isComment : Segment → Bool
  | lineComment _ => true
  | blockComment _ => true
  | openComment _ => true
  | _ => false

theorem comment_silent {piece : Segment} (place : Place) (comment : piece.isComment = true) :
    (piece.event? place).bind Event.token? = none ∧ (piece.event? place).bind Event.error? = none := by
  cases piece with
  | lineComment body | blockComment body | openComment body => exact ⟨rfl,rfl⟩
  | _ => cases comment

def commentSpans (source : List Char) : List Span := hiddenSpans Segment.isComment source

def withoutComments (source : List Char) : List Char := overwrite blankFor (commentSpans source) source

theorem withoutComments_eq (source : List Char) :
    withoutComments source = coveredText Segment.isComment (segments source) :=
  overwrite_hidden Segment.isComment source fun _ _ _ => rfl

-- A comment is blank space: without its comments a source scans to the same, and no
-- comment is left open.
theorem scan_comments_blank (source : List Char) :
    (scan (withoutComments source)).tokens = (scan source).tokens ∧
      (scan (withoutComments source)).errors = (scan source).errors ∧
        ¬ (scan (withoutComments source)).LeavesComment := by
  rw [withoutComments_eq]
  refine ⟨?_,?_,?_⟩
  · apply tokens_coveredText
    intro piece place comment
    exact (comment_silent place comment).1
  · apply seen_coveredText
    intro piece place comment
    exact (comment_silent place comment).2
  · rw [leavesComment_iff,segments_coveredText]
    intro left
    obtain ⟨body,member⟩ := left
    refine not_mem_covered Segment.isComment rfl ?_ _ member
    intro c same
    cases same

def Segment.isStray : Segment → Bool
  | stray _ => true
  | _ => false

def LexError.Cause.isUnexpected : LexError.Cause → Bool
  | unexpectedCharacter _ => true
  | unterminatedString => false

def unexpectedSpans (source : List Char) : List Span :=
  ((scan source).errors.filter (·.cause.isUnexpected)).map (·.position.span)

theorem unexpectedSpans_eq (source : List Char) :
    unexpectedSpans source = hiddenSpans Segment.isStray source := by
  rw [unexpectedSpans,Scan.errors,List.filter_filterMap,List.map_filterMap,scan,events_viewFrom,
    viewFrom_filterMap]
  apply viewFrom_congr
  intro place piece
  cases piece <;> rfl

theorem stray_silent {piece : Segment} (place : Place) (stray : piece.isStray = true) :
    (piece.event? place).bind Event.token? = none := by
  cases piece with
  | stray c => rfl
  | _ => cases stray

def withoutUnexpected (source : List Char) : List Char := overwrite spacesFor (unexpectedSpans source) source

theorem withoutUnexpected_eq (source : List Char) :
    withoutUnexpected source = coveredText Segment.isStray (segments source) := by
  rw [withoutUnexpected,unexpectedSpans_eq]
  refine overwrite_hidden Segment.isStray source ?_
  intro piece member stray
  cases piece with
  | stray c =>
    obtain ⟨after,stands⟩ := stands_of_mem member
    have notFeed : c ≠ '\n' := IsStray.notFeed stands
    have same : blankFor c = spacesFor c := if_neg notFeed
    rw [Segment.text,List.flatMap_singleton,List.flatMap_singleton,same]
  | _ => cases stray

theorem scan_without_unexpected (source : List Char) :
    (scan (withoutUnexpected source)).tokens = (scan source).tokens ∧
      (scan (withoutUnexpected source)).errors =
        (scan source).errors.filter (·.cause = .unterminatedString) := by
  rw [withoutUnexpected_eq]
  refine ⟨?_,?_⟩
  · apply tokens_coveredText
    intro piece place stray
    exact stray_silent place stray
  · rw [Scan.errors,Scan.errors,List.filter_filterMap,scan_coveredText,scan,events_viewFrom,
      viewFrom_filterMap,viewFrom_filterMap]
    apply viewFrom_congr
    intro place piece
    cases piece <;> rfl

end ScriptLexer
