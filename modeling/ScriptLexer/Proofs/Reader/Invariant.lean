import ScriptLexer.Proofs.Reader.Place

namespace ScriptLexer

def Stage.Fits (inside rest : List Char) : Stage → Prop
  | .outer | .stringCharacter | .ended => False
  | .dispatch => inside = [] ∧ rest ≠ []
  | .afterOperator o => inside = o.text ∧ o ≠ .slash ∧ o.withEqual?.isSome = true
  | .afterSlash => inside = ['/']
  | .lineComment => ∃ body, inside = '/' :: '/' :: body ∧ ∀ c ∈ body, (c != '\n') = true
  | .blockComment => ∃ body, inside = '/' :: '*' :: body ∧ ¬ HoldsClosing (body ++ rest.take 1)
  | .closingSlash => ∃ body after, inside = '/' :: '*' :: body ++ ['*'] ∧ rest = '/' :: after ∧
      ¬ HoldsClosing (body ++ ['*'])
  | .string => ∃ body, inside = '"' :: body ∧ ∀ c ∈ body, (c != '"') = true
  | .wholeDigits => inside ≠ [] ∧ ∀ c ∈ inside, c.isDigit = true
  | .fractionDigits => ∃ whole fraction, inside = whole ++ '.' :: fraction ∧ whole ≠ [] ∧
      (∀ c ∈ whole, c.isDigit = true) ∧ (∀ c ∈ fraction, c.isDigit = true) ∧
        (fraction = [] → ¬ Stops Char.isDigit rest)
  | .word => IsWord inside

-- The stages in which a step must read stand lowest, and every loop stands above the
-- outer one, to which it returns.
def Stage.height : Stage → Nat
  | .dispatch | .closingSlash | .stringCharacter | .ended => 0
  | .outer => 1
  | _ => 2

namespace Reader

structure Within (source : List Char) (s : Reader) (pieces : List Segment) (inside rest : List Char) :
    Prop where
  split : segments source = pieces ++ segments (inside ++ rest)
  told : s.told = eventsFrom .start pieces
  located : Located source s (pieces.flatMap Segment.text) inside rest
  startLine : s.startLine = 1 + lineFeeds (pieces.flatMap Segment.text)
  line : s.line = s.startLine + lineFeeds inside

structure Between (source : List Char) (s : Reader) (pieces : List Segment) (rest : List Char) : Prop where
  split : segments source = pieces ++ segments rest
  told : s.told = eventsFrom .start pieces
  located : ∃ before inside, pieces.flatMap Segment.text = before ++ inside ∧
    Located source s before inside rest
  line : s.line = 1 + lineFeeds (pieces.flatMap Segment.text)

inductive Valid (source : List Char) : Reader → Prop where
  | between {s : Reader} {pieces : List Segment} {rest : List Char} (stage : s.stage = .outer)
      (here : Between source s pieces rest) : Valid source s
  | within {s : Reader} {pieces : List Segment} {inside rest : List Char} (fits : s.stage.Fits inside rest)
      (here : Within source s pieces inside rest) : Valid source s
  | counted {s : Reader} {pieces : List Segment} {inside rest : List Char} {c : Char}
      (fits : Stage.string.Fits inside (c :: rest)) (body : c ≠ '"')
      (here : Within source s pieces inside (c :: rest)) :
      Valid source {s with stage := .stringCharacter,line := s.line + lineFeeds [c]}
  | ended {s : Reader} (stage : s.stage = .ended)
      (told : s.told = (scan source).events ++ [.token (scan source).endToken])
      (located : Located source s source [] []) (line : s.line = 1 + lineFeeds source) : Valid source s

variable {source inside rest : List Char} {pieces : List Segment} {s t : Reader} {c : Char}

-- A step reads the next character, or it comes closer to a stage that must.
inductive Moves (source : List Char) (s t : Reader) : Prop where
  | reads {c : Char} {rest : List Char} (next : unread source s = .ok (c :: rest))
      (current : t.current = s.current + c.utf8Size)
  | stays (current : t.current = s.current) (lower : t.stage.height < s.stage.height)

def Proceeds (source : List Char) (s : Reader) : Prop :=
  ∃ t, s.step source = .ok t ∧ Valid source t ∧ Moves source s t

theorem Within.staged (here : Within source s pieces inside rest) (stage : Stage) :
    Within source {s with stage := stage} pieces inside rest :=
  ⟨here.split,here.told,⟨here.located.whole,here.located.start,here.located.current⟩,here.startLine,
    here.line⟩

theorem Within.read (here : Within source s pieces inside (c :: rest)) :
    Within source {s.moved c with line := s.line + lineFeeds [c]} pieces (inside ++ [c]) rest := by
  have located := here.located.moved
  refine ⟨?_,here.told,⟨located.whole,located.start,located.current⟩,here.startLine,?_⟩
  · rw [here.split,List.append_assoc,List.singleton_append]
  · rw [lineFeeds_append,← Nat.add_assoc]
    exact congrArg (· + lineFeeds [c]) here.line

theorem Within.moved (here : Within source s pieces inside (c :: rest)) (plain : c ≠ '\n') :
    Within source (s.moved c) pieces (inside ++ [c]) rest := by
  have read := here.read
  rw [lineFeeds_plain plain,Nat.add_zero] at read
  exact read

theorem Within.reached (here : Within source s pieces inside rest) :
    (⟨s.startLine,s.start⟩ : Place).after inside = ⟨s.line,s.current⟩ := by
  rw [Place.after,here.line,here.located.current,byteLength_append,here.located.start]

theorem Within.reads (here : Within source s pieces inside (c :: rest))
    (current : t.current = s.current + c.utf8Size) : Moves source s t :=
  .reads here.located.unread_eq current

theorem Within.close (piece : Segment) (here : Within source s pieces inside rest)
    (text : piece.text = inside) (stands : piece.StandsBefore rest) :
    Valid source
      {s with stage := .outer,told := s.told ++ (piece.event? ⟨s.startLine,s.start⟩).toList} := by
  subst text
  have front : (pieces ++ [piece]).flatMap Segment.text = pieces.flatMap Segment.text ++ piece.text := by
    rw [List.flatMap_append,List.flatMap_singleton]
  have place : Place.start.after (pieces.flatMap Segment.text) = ⟨s.startLine,s.start⟩ := by
    rw [start_after,here.startLine,here.located.start]
  apply Valid.between rfl
  show Between source _ (pieces ++ [piece]) rest
  refine ⟨?_,?_,?_,?_⟩
  · rw [here.split,segments_stands stands,List.append_assoc,List.singleton_append]
  · rw [eventsFrom_append,place,eventsFrom_cons,eventsFrom_nil,List.append_nil,← here.told]
  · exact ⟨_,_,front,here.located.whole,here.located.start,here.located.current⟩
  · rw [front,lineFeeds_append,← Nat.add_assoc,← here.startLine]
    exact here.line

theorem Within.close_told {event : Event} (piece : Segment) (here : Within source s pieces inside rest)
    (text : piece.text = inside) (stands : piece.StandsBefore rest)
    (told : piece.event? ⟨s.startLine,s.start⟩ = some event) : Valid source (s.tell event) := by
  have closed := here.close piece text stands
  rw [told] at closed
  exact closed

theorem Within.close_silent (piece : Segment) (here : Within source s pieces inside rest)
    (text : piece.text = inside) (stands : piece.StandsBefore rest)
    (silent : piece.event? ⟨s.startLine,s.start⟩ = none) : Valid source {s with stage := .outer} := by
  have closed := here.close piece text stands
  rw [silent,Option.toList_none,List.append_nil] at closed
  exact closed

end Reader

end ScriptLexer
