import ScriptLexer.Proofs.Scan.Closing
import ScriptLexer.Proofs.Scan.Joined

-- Returns at the end of a line. They are blank wherever they stand, or part of a line
-- comment, and tell nothing either way.
namespace ScriptLexer

def IsReturns (text : List Char) : Prop := ∀ c ∈ text, c = '\r'

variable {returns after body : List Char}

theorem IsReturns.blank (plain : IsReturns returns) : ∀ c ∈ returns, isBlank c = true := by
  intro c member
  rw [plain c member]
  rfl

theorem events_lineComment (plain : IsReturns returns) (inside : ∀ c ∈ body, (c != '\n') = true)
    (stops : Stops (· != '\n') after) (place : Place) :
    eventsFrom place (segments ('/' :: '/' :: body ++ (returns ++ after))) =
      eventsFrom (place.after ('/' :: '/' :: body)) (segments (returns ++ after)) := by
  have stands : (Segment.lineComment (body ++ returns)).StandsBefore after := by
    refine ⟨List.forall_mem_append.mpr ⟨inside,?_⟩,stops⟩
    intro c member
    rw [plain c member]
    rfl
  have longer : '/' :: '/' :: body ++ (returns ++ after) =
      (Segment.lineComment (body ++ returns)).text ++ after := by
    simp only [Segment.text,List.cons_append,List.append_assoc]
  have reached : place.after (Segment.lineComment (body ++ returns)).text =
      (place.after ('/' :: '/' :: body)).after returns :=
    Place.after_append place ('/' :: '/' :: body) returns
  rw [longer,segments_stands stands,eventsFrom_cons,reached,events_blank plain.blank]
  rfl

theorem stops_append_cons {p : Char → Bool} {c : Char} {rest : List Char} (stops : Stops p (c :: rest))
    (more : List Char) : Stops p (c :: rest ++ more) := stops_cons.mpr (stops_cons.mp stops)

theorem stops_append {p : Char → Bool} {front back : List Char} (first : Stops p front)
    (second : Stops p back) : Stops p (front ++ back) := by
  cases front with
  | nil => exact second
  | cons c front => exact stops_append_cons first back

theorem stops_blank {p : Char → Bool} {text : List Char} (plain : [' ','\r','\t','\n'].any p = false)
    (blank : ∀ c ∈ text, isBlank c = true) : Stops p text := by
  intro c head
  exact blank_outside plain c (blank c (List.mem_of_mem_head? head))

theorem IsReturns.notPoint (plain : IsReturns returns) : ¬ PointFollows returns := by
  intro follows
  obtain ⟨d,rest,rfl,_⟩ := follows
  cases plain '.' List.mem_cons_self

theorem events_returns {text : List Char} {pieces : List Segment} (split : Splits text pieces)
    (closed : ∀ piece ∈ pieces, piece.isOpen = false) (plain : IsReturns returns) (place : Place) :
    eventsFrom place (segments (text ++ returns)) = eventsFrom place pieces := by
  induction split generalizing place with
  | nil =>
    have behind := events_blank plain.blank place []
    rw [List.append_nil,segments_nil] at behind
    rw [List.nil_append,behind,eventsFrom_nil,eventsFrom_nil]
  | @cons piece after pieces stands tail ih =>
    have later := ih (fun other member => closed other (List.mem_cons_of_mem piece member))
    have goes (stays : piece.StandsBefore (after ++ returns)) :
        eventsFrom place (segments (piece.text ++ after ++ returns)) = eventsFrom place (piece :: pieces) := by
      rw [List.append_assoc,segments_stands stays,eventsFrom_cons,eventsFrom_cons,later]
    by_cases line : ∃ body, piece = .lineComment body
    · obtain ⟨body,rfl⟩ := line
      cases after with
      | nil =>
        -- The comment takes the returns in: what it tells, nothing, is told all the same.
        have taken := events_lineComment plain stands.1 (stops_nil _) place
        rw [List.append_nil] at taken
        rw [List.append_nil,eventsFrom_cons,← later]
        exact taken
      | cons c rest => exact goes ⟨stands.1,stops_append_cons stands.2 returns⟩
    · refine goes (stands_return stands (closed piece List.mem_cons_self) (fun body same => line ⟨body,same⟩) ?_ ?_)
      · intro p member ended stops
        exact stops_append stops (stops_blank (lookahead_return member ended).1 plain.blank)
      · exact pointFollows_append (fun _ => plain.notPoint) (fun _ => stops_blank rfl plain.blank)

theorem holdsClosing_returns (plain : IsReturns returns) {text : List Char}
    (closes : HoldsClosing (text ++ returns)) : HoldsClosing text := by
  induction text with
  | nil =>
    rw [List.nil_append] at closes
    cases plain '*' (closes.subset List.mem_cons_self)
  | cons c text ih =>
    rw [List.cons_append,holdsClosing_cons] at closes
    rw [holdsClosing_cons]
    rcases closes with ⟨star,slash⟩ | later
    · cases text with
      | nil => cases plain '/' (List.mem_of_mem_head? slash)
      | cons d text => exact .inl ⟨star,slash⟩
    · exact .inr (ih later)

theorem isClosed_returns (plain : IsReturns returns) {text : List Char} (closed : IsClosed (text ++ returns)) :
    IsClosed text := by
  refine ⟨fun left => closed.1 ?_,fun left => closed.2 ?_⟩
  · obtain ⟨body,found⟩ := (leavesString_iff text).mp left
    obtain ⟨front,pieces,_⟩ := pieces_open found rfl
    have split := segments_splits text
    rw [pieces] at split
    have inside := (splits_stands split).1
    have stands : (Segment.openString (body ++ returns)).StandsBefore [] := by
      refine ⟨List.forall_mem_append.mpr ⟨inside,?_⟩,rfl⟩
      intro c member
      rw [plain c member]
      rfl
    have settles : Settles (Segment.openString body).text := ⟨by simp [Segment.text],by simp [Segment.text]⟩
    refine (leavesString_iff _).mpr ⟨body ++ returns,?_⟩
    rw [segments_closed pieces settles rfl stands]
    exact List.mem_append_right front List.mem_cons_self
  · obtain ⟨body,found⟩ := (leavesComment_iff text).mp left
    obtain ⟨front,pieces,_⟩ := pieces_open found rfl
    have split := segments_splits text
    rw [pieces] at split
    have never := (splits_stands split).1
    have stands : (Segment.openComment (body ++ returns)).StandsBefore [] :=
      ⟨fun closes => never (holdsClosing_returns plain closes),rfl⟩
    have settles : Settles (Segment.openComment body).text := ⟨by simp [Segment.text],by simp [Segment.text]⟩
    refine (leavesComment_iff _).mpr ⟨body ++ returns,?_⟩
    rw [segments_closed pieces settles rfl stands]
    exact List.mem_append_right front List.mem_cons_self

end ScriptLexer
