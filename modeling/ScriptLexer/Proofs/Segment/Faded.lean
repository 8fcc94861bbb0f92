import ScriptLexer.Proofs.Segment.Outlook

-- Texts with spaces written over some characters. A space ends whatever a segment could
-- have ended at, so a segment that is kept ends where it did, and pieces written over
-- whole become blanks of the same extent.
namespace ScriptLexer

def spacesFor (c : Char) : List Char := List.replicate c.utf8Size ' '

def blankFor (c : Char) : List Char := if c = '\n' then [c] else spacesFor c

inductive Faded : List Char → List Char → Prop where
  | nil : Faded [] []
  | keep (c : Char) {text other : List Char} (tail : Faded text other) : Faded (c :: text) (c :: other)
  | cover {c : Char} {text other : List Char} (notFeed : c ≠ '\n') (tail : Faded text other) :
      Faded (c :: text) (spacesFor c ++ other)

theorem spacesFor_cons (c : Char) : ∃ more, spacesFor c = ' ' :: more := by
  obtain ⟨bytes,size⟩ := Nat.exists_eq_succ_of_ne_zero (Nat.ne_of_gt c.utf8Size_pos)
  exact ⟨List.replicate bytes ' ',by rw [spacesFor,size,List.replicate_succ]⟩

theorem byteLength_spaces (count : Nat) : byteLength (List.replicate count ' ') = count := by
  induction count with
  | zero => rfl
  | succ count ih =>
    rw [List.replicate_succ,byteLength_cons,ih]
    exact Nat.add_comm 1 count

theorem spacesFor_after (c : Char) (notFeed : c ≠ '\n') (place : Place) :
    place.after (spacesFor c) = place.after [c] := by
  have bytes : byteLength (spacesFor c) = byteLength [c] := byteLength_spaces c.utf8Size
  have feeds : lineFeeds (spacesFor c) = 0 := List.count_eq_zero.mpr fun member => by
    cases List.eq_of_mem_replicate member
  rw [Place.after,Place.after,bytes,feeds,lineFeeds_plain notFeed]

namespace Faded

variable {text other : List Char}

theorem refl (text : List Char) : Faded text text := by
  induction text with
  | nil => exact .nil
  | cons c text ih => exact .keep c ih

theorem append {front written : List Char} (head : Faded front written) (tail : Faded text other) :
    Faded (front ++ text) (written ++ other) := by
  induction head with
  | nil => exact tail
  | keep c _ ih => exact .keep c ih
  | cover notFeed _ ih =>
    rw [List.append_assoc]
    exact .cover notFeed ih

theorem blank (text : List Char) : Faded text (text.flatMap blankFor) := by
  induction text with
  | nil => exact .nil
  | cons c text ih =>
    rw [List.flatMap_cons,blankFor]
    split
    · exact .keep c ih
    · rename_i notFeed
      exact .cover notFeed ih

theorem after (faded : Faded text other) (place : Place) : place.after other = place.after text := by
  induction faded generalizing place with
  | nil => rfl
  | @keep c text other tail ih =>
    have head (rest : List Char) : place.after (c :: rest) = (place.after [c]).after rest :=
      Place.after_append place [c] rest
    exact (head other).trans ((ih (place.after [c])).trans (head text).symm)
  | @cover c text other notFeed tail ih =>
    have head : place.after (c :: text) = (place.after [c]).after text := Place.after_append place [c] text
    rw [head,Place.after_append,spacesFor_after c notFeed,ih]

theorem stops {p : Char → Bool} (spaced : p ' ' = true → ∀ c, c ≠ '\n' → p c = true)
    (faded : Faded text other) (stops : Stops p text) : Stops p other := by
  cases faded with
  | nil => exact stops
  | keep c tail => exact stops_cons.mpr (stops_cons.mp stops)
  | @cover c text other notFeed tail =>
    obtain ⟨more,spaces⟩ := spacesFor_cons c
    rw [spaces,List.cons_append,stops_cons]
    apply eq_false_of_ne_true
    intro space
    rw [stops_cons,spaced space c notFeed] at stops
    cases stops

theorem point (faded : Faded text other) (follows : PointFollows other) : PointFollows text := by
  obtain ⟨d,rest,same,digit⟩ := follows
  cases faded with
  | nil => cases same
  | keep c tail =>
    obtain ⟨rfl,behind⟩ := List.cons.inj same
    cases tail with
    | nil => cases behind
    | @keep e text other tail => exact ⟨d,text,by rw [(List.cons.inj behind).1],digit⟩
    | @cover e text other notFeed tail =>
      obtain ⟨more,spaces⟩ := spacesFor_cons e
      rw [spaces] at behind
      rw [← (List.cons.inj behind).1] at digit
      cases digit
  | @cover c text other notFeed tail =>
    obtain ⟨more,spaces⟩ := spacesFor_cons c
    rw [spaces] at same
    cases (List.cons.inj same).1

theorem endsNoLess (faded : Faded text other) : EndsNoLess text other := by
  refine ⟨?_,faded.point⟩
  intro p member
  exact faded.stops (lookahead_space member)

theorem stands {piece : Segment} (faded : Faded text other) (stands : piece.StandsBefore text) :
    piece.StandsBefore other := by
  cases opened : piece.isOpen with
  | true =>
    have ended := stands_open stands opened
    subst ended
    cases faded
    exact stands
  | false => exact stands_endsNoLess stands opened faded.endsNoLess

end Faded

theorem blankFor_blank {c d : Char} (member : d ∈ blankFor c) : isBlank d = true := by
  rw [blankFor] at member
  split at member
  · rename_i feed
    rw [List.mem_singleton.mp member,feed]
    rfl
  · rw [List.eq_of_mem_replicate member]
    rfl

variable (hidden : Segment → Bool)

def coveredText (pieces : List Segment) : List Char :=
  pieces.flatMap fun piece => if hidden piece then piece.text.flatMap blankFor else piece.text

def covered (pieces : List Segment) : List Segment :=
  pieces.flatMap fun piece =>
    if hidden piece then (piece.text.flatMap blankFor).map Segment.blank else [piece]

theorem coveredText_faded (pieces : List Segment) :
    Faded (pieces.flatMap Segment.text) (coveredText hidden pieces) := by
  induction pieces with
  | nil => exact .nil
  | cons piece pieces ih =>
    rw [coveredText,List.flatMap_cons,List.flatMap_cons]
    split
    · exact (Faded.blank piece.text).append ih
    · exact (Faded.refl piece.text).append ih

theorem splits_covered {source : List Char} {pieces : List Segment} (split : Splits source pieces) :
    Splits (coveredText hidden pieces) (covered hidden pieces) := by
  induction split with
  | nil => exact .nil
  | @cons piece after pieces stands tail ih =>
    have faded := coveredText_faded hidden pieces
    rw [splits_text tail] at faded
    rw [coveredText,covered,List.flatMap_cons,List.flatMap_cons]
    split
    · refine splits_blank ?_ ih
      intro d member
      obtain ⟨c,_,blank⟩ := List.mem_flatMap.mp member
      exact blankFor_blank blank
    · exact .cons (faded.stands stands) ih

end ScriptLexer
