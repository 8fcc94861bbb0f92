import ScriptLexer.Proofs.Segment.Splits

-- What a segment sees of the text behind it. Reading looks at one character past a
-- segment, and at a second one only past a point, so a text that shows no more there
-- leaves every segment before it as it was.
namespace ScriptLexer

def lookahead : List (Char → Bool) :=
  [Char.isDigit,isWordPart,(· == '='),fun c => c == '/' || c == '*',(· != '\n')]

theorem lookahead_feed {p : Char → Bool} (member : p ∈ lookahead) : p '\n' = false := by
  simp only [lookahead,List.mem_cons,List.not_mem_nil,or_false] at member
  rcases member with rfl | rfl | rfl | rfl | rfl <;> rfl

theorem lookahead_space {p : Char → Bool} (member : p ∈ lookahead) (space : p ' ' = true) (c : Char)
    (notFeed : c ≠ '\n') : p c = true := by
  simp only [lookahead,List.mem_cons,List.not_mem_nil,or_false] at member
  rcases member with rfl | rfl | rfl | rfl | rfl
  · cases space
  · cases space
  · cases space
  · cases space
  · exact bne_iff_ne.mpr notFeed

theorem lookahead_return {p : Char → Bool} (member : p ∈ lookahead) (ends : p '\r' = false) :
    [' ','\r','\t','\n'].any p = false ∧ ∀ c, IsStray c → p c = false := by
  simp only [lookahead,List.mem_cons,List.not_mem_nil,or_false] at member
  rcases member with rfl | rfl | rfl | rfl | rfl
  · exact ⟨rfl,fun c stray => stray.notDigit⟩
  · exact ⟨rfl,fun c stray => stray.notWordPart⟩
  · exact ⟨rfl,fun c stray => beq_false_of_ne (stray.ne_operator (o := .equal) rfl)⟩
  · refine ⟨rfl,fun c stray => Bool.or_eq_false_iff.mpr ⟨beq_false_of_ne stray.notSlash,?_⟩⟩
    exact beq_false_of_ne (stray.ne_operator (o := .star) rfl)
  · cases ends

structure EndsNoLess (first second : List Char) : Prop where
  stops : ∀ p ∈ lookahead, Stops p first → Stops p second
  point : PointFollows second → PointFollows first

-- These two run to the end of the source, and only they see where that is.
def Segment.isOpen : Segment → Bool
  | openComment _ => true
  | openString _ => true
  | _ => false

theorem stands_open {piece : Segment} {after : List Char} (stands : piece.StandsBefore after)
    (opened : piece.isOpen = true) : after = [] := by
  cases piece with
  | openComment body | openString body => exact stands.2
  | _ => cases opened

theorem stands_endsNoLess {piece : Segment} {after other : List Char} (stands : piece.StandsBefore after)
    (closed : piece.isOpen = false) (ends : EndsNoLess after other) : piece.StandsBefore other := by
  obtain ⟨stops,point⟩ := ends
  cases piece with
  | blank c | blockComment body | string body | stray c => exact stands
  | openComment body | openString body => cases closed
  | lineComment body => exact ⟨stands.1,stops _ (by simp [lookahead]) stands.2⟩
  | number whole fraction =>
    obtain ⟨digits,digit,apart⟩ := stands
    exact ⟨digits,stops _ (by simp [lookahead]) digit,fun empty follows => apart empty (point follows)⟩
  | word letters => exact ⟨stands.1,stops _ (by simp [lookahead]) stands.2⟩
  | operator o =>
    exact ⟨fun joins => stops _ (by simp [lookahead]) (stands.1 joins),
      fun slash => stops _ (by simp [lookahead]) (stands.2 slash)⟩

theorem stands_return {piece : Segment} {after other : List Char} (stands : piece.StandsBefore after)
    (closed : piece.isOpen = false) (notLine : ∀ body, piece ≠ .lineComment body)
    (stops : ∀ p ∈ lookahead, p '\r' = false → Stops p after → Stops p other)
    (point : PointFollows other → PointFollows after) : piece.StandsBefore other := by
  cases piece with
  | blank c | blockComment body | string body | stray c => exact stands
  | openComment body | openString body => cases closed
  | lineComment body => exact absurd rfl (notLine body)
  | number whole fraction =>
    obtain ⟨digits,digit,apart⟩ := stands
    exact ⟨digits,stops _ (by simp [lookahead]) rfl digit,fun empty follows => apart empty (point follows)⟩
  | word letters => exact ⟨stands.1,stops _ (by simp [lookahead]) rfl stands.2⟩
  | operator o =>
    exact ⟨fun joins => stops _ (by simp [lookahead]) rfl (stands.1 joins),
      fun slash => stops _ (by simp [lookahead]) rfl (stands.2 slash)⟩

structure Settles (text : List Char) : Prop where
  more : text ≠ []
  notPoint : text ≠ ['.']

theorem settles_append {text : List Char} (settles : Settles text) (front : List Char) :
    Settles (front ++ text) := by
  cases front with
  | nil => exact settles
  | cons c front =>
    refine ⟨List.cons_ne_nil _ _,?_⟩
    intro same
    have empty := (List.cons.inj same).2
    exact settles.more (List.append_eq_nil_iff.mp empty).2

theorem settles_length {text : List Char} (two : 2 ≤ text.length) : Settles text := by
  refine ⟨?_,?_⟩ <;> rintro rfl <;> simp at two

theorem pointFollows_nil : ¬ PointFollows [] := by
  intro follows
  obtain ⟨d,tail,same,_⟩ := follows
  cases same

theorem pointFollows_append {text more : List Char} (empty : text = [] → ¬ PointFollows more)
    (point : text = ['.'] → Stops Char.isDigit more) (follows : PointFollows (text ++ more)) :
    PointFollows text := by
  cases text with
  | nil => exact absurd follows (empty rfl)
  | cons c text =>
    obtain ⟨d,tail,same,digit⟩ := follows
    obtain ⟨rfl,behind⟩ := List.cons.inj same
    cases text with
    | nil =>
      have stops := point rfl
      rw [show more = d :: tail from behind,stops_cons,digit] at stops
      cases stops
    | cons e text => exact ⟨d,text,by rw [(List.cons.inj behind).1],digit⟩

theorem endsNoLess_append {text more : List Char} (empty : text = [] → EndsNoLess [] more)
    (point : text = ['.'] → Stops Char.isDigit more) : EndsNoLess text (text ++ more) := by
  refine ⟨?_,pointFollows_append (fun bare follows => pointFollows_nil ((empty bare).point follows)) point⟩
  intro p member stops
  cases text with
  | nil => exact (empty rfl).stops p member stops
  | cons c text => exact stops_cons.mpr (stops_cons.mp stops)

theorem endsNoLess_feed (text more : List Char) : EndsNoLess text (text ++ '\n' :: more) := by
  refine endsNoLess_append (fun _ => ⟨?_,?_⟩) (fun _ => stops_cons.mpr rfl)
  · intro p member _
    exact stops_cons.mpr (lookahead_feed member)
  · intro follows
    obtain ⟨d,tail,same,_⟩ := follows
    cases same

theorem stands_settled {piece : Segment} {after : List Char} (stands : piece.StandsBefore after)
    (settles : Settles after) (more : List Char) : piece.StandsBefore (after ++ more) := by
  cases opened : piece.isOpen with
  | true => exact absurd (stands_open stands opened) settles.more
  | false =>
    refine stands_endsNoLess stands opened (endsNoLess_append ?_ ?_)
    · intro empty
      exact absurd empty settles.more
    · intro point
      exact absurd point settles.notPoint

theorem splits_text {source : List Char} {pieces : List Segment} (split : Splits source pieces) :
    pieces.flatMap Segment.text = source := by
  rw [← splits_segments split]
  exact segments_text source

theorem splits_cons {source : List Char} {piece : Segment} {pieces : List Segment}
    (split : Splits source (piece :: pieces)) :
    piece.StandsBefore (pieces.flatMap Segment.text) ∧ Splits (pieces.flatMap Segment.text) pieces := by
  cases split with
  | cons stands tail =>
    rw [splits_text tail]
    exact ⟨stands,tail⟩

theorem splits_behind {source : List Char} {front back : List Segment}
    (split : Splits source (front ++ back)) : Splits (back.flatMap Segment.text) back := by
  induction front generalizing source with
  | nil => rwa [← splits_text split] at split
  | cons piece front ih => exact ih (splits_cons split).2

theorem splits_stands {source : List Char} {front back : List Segment} {piece : Segment}
    (split : Splits source (front ++ piece :: back)) : piece.StandsBefore (back.flatMap Segment.text) :=
  (splits_cons (splits_behind split)).1

theorem stands_of_mem {source : List Char} {piece : Segment} (member : piece ∈ segments source) :
    ∃ after, piece.StandsBefore after := by
  obtain ⟨front,back,pieces⟩ := List.append_of_mem member
  have split := segments_splits source
  rw [pieces] at split
  exact ⟨_,splits_stands split⟩

theorem splits_open {source : List Char} {front back : List Segment} {piece : Segment}
    (split : Splits source (front ++ piece :: back)) (opened : piece.isOpen = true) : back = [] := by
  have empty := stands_open (splits_stands split) opened
  cases back with
  | nil => rfl
  | cons next back =>
    have behind : Splits source ((front ++ [piece]) ++ next :: back) := by rwa [List.append_assoc]
    exact absurd (List.append_eq_nil_iff.mp empty).1 (stands_ne_nil (splits_stands behind))

theorem segments_settled {source : List Char} {front back : List Segment}
    (split : Splits source (front ++ back)) (settles : Settles (back.flatMap Segment.text))
    (more : List Char) :
    segments (source ++ more) = front ++ segments (back.flatMap Segment.text ++ more) := by
  induction front generalizing source with
  | nil => rw [← splits_text split,List.nil_append,List.nil_append]
  | cons piece front ih =>
    rw [List.cons_append] at split
    obtain ⟨stands,tail⟩ := splits_cons split
    have behind : Settles ((front ++ back).flatMap Segment.text) := by
      rw [List.flatMap_append]
      exact settles_append settles _
    have stays := stands_settled stands behind more
    rw [← splits_text split,List.flatMap_cons,List.append_assoc,segments_stands stays,ih tail,
      List.cons_append]

end ScriptLexer
