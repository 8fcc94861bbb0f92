import ScriptLexer.Proofs.Scan.Events
import ScriptLexer.Proofs.Scan.Filter
import ScriptLexer.Proofs.Text.Slice
import Mathlib.Data.List.Nodup

namespace ScriptLexer

def Token.placedText (token : Token) : Nat × List Char := (token.position.span.start,token.lexeme)

def LexError.placedText (source : List Char) (error : LexError) : Nat × List Char :=
  (error.position.span.start,slice source error.position.span.start error.position.span.stop)

def beginsBefore (first second : Nat × List Char) : Bool := first.1 ≤ second.1

def inOrder (texts : List (Nat × List Char)) : List Char := (texts.mergeSort beginsBefore).flatMap (·.2)

def Event.placedText? (source : List Char) : Event → Option (Nat × List Char)
  | .token t => some t.placedText
  | .error e => some (e.placedText source)
  | .openComment _ => none

theorem inOrder_eq {texts sorted : List (Nat × List Char)} (same : texts.Perm sorted)
    (increasing : sorted.Pairwise fun first second => first.1 < second.1) :
    inOrder texts = sorted.flatMap (·.2) := by
  have distinct : (sorted.map (·.1)).Nodup :=
    List.pairwise_map.mpr (increasing.imp fun below => Nat.ne_of_lt below)
  have ordered : sorted.Pairwise fun first second => beginsBefore first second = true :=
    increasing.imp fun below => decide_eq_true (Nat.le_of_lt below)
  have merged : (texts.mergeSort beginsBefore).Pairwise fun first second => beginsBefore first second = true := by
    refine List.pairwise_mergeSort ?_ ?_ texts
    · intro first second third below above
      exact decide_eq_true (Nat.le_trans (of_decide_eq_true below) (of_decide_eq_true above))
    · intro first second
      simp only [beginsBefore,Bool.or_eq_true,decide_eq_true_eq]
      exact Nat.le_total _ _
  have arranged := (List.mergeSort_perm texts beginsBefore).trans same
  have equal : texts.mergeSort beginsBefore = sorted := by
    refine List.Perm.eq_of_pairwise ?_ merged ordered arranged
    intro first second left right below above
    refine List.inj_on_of_nodup_map distinct (arranged.subset left) right ?_
    exact Nat.le_antisymm (of_decide_eq_true below) (of_decide_eq_true above)
  rw [inOrder,equal]

theorem placedText_perm (source : List Char) (events : List Event) :
    (events.filterMap (Event.placedText? source)).Perm
      ((events.filterMap Event.token?).map Token.placedText ++
        (events.filterMap Event.error?).map (LexError.placedText source)) := by
  induction events with
  | nil => exact .nil
  | cons event events ih =>
    cases event with
    | token t => exact ih.cons t.placedText
    | error e => exact (ih.cons (e.placedText source)).trans List.perm_middle.symm
    | openComment line => exact ih

theorem placedText_clean (source : List Char) (events : List Event)
    (clean : events.filterMap Event.error? = []) :
    events.filterMap (Event.placedText? source) = (events.filterMap Event.token?).map Token.placedText := by
  induction events with
  | nil => rfl
  | cons event events ih =>
    cases event with
    | token t => exact congrArg (t.placedText :: ·) (ih clean)
    | error e => cases clean
    | openComment line => exact ih clean

theorem placedText_piece {piece : Segment} {after : List Char} (stands : piece.StandsBefore after)
    (before : List Char) :
    (piece.event? (Place.start.after before)).bind (Event.placedText? (before ++ (piece.text ++ after))) =
      if piece.kept = [] then none else some (byteLength before,piece.kept) := by
  have under : slice (before ++ (piece.text ++ after)) (Place.start.after before).offset
      ((Place.start.after before).after piece.text).offset = piece.text := by
    rw [← Place.after_append,start_after,start_after,← List.append_assoc]
    exact slice_between before piece.text after
  have written : piece.text ≠ [] := stands_ne_nil stands
  have start : byteLength before = (Place.start.after before).offset := by rw [start_after]
  rw [start]
  cases piece with
  | blank c | lineComment body | blockComment body | openComment body => rfl
  | string body | number whole fraction | word letters | operator o => exact (if_neg written).symm
  | openString body | stray c =>
    simp only [Segment.event?,Option.bind_some,Event.placedText?,LexError.placedText,under]
    exact (if_neg written).symm

structure LieWithin (texts : List (Nat × List Char)) (low high : Nat) : Prop where
  increasing : texts.Pairwise fun first second => first.1 < second.1
  bounds : ∀ text ∈ texts, low ≤ text.1 ∧ text.1 < high

theorem LieWithin.widen {texts : List (Nat × List Char)} {low middle high : Nat}
    (within : LieWithin texts middle high) (below : low ≤ middle) : LieWithin texts low high := by
  refine ⟨within.increasing,?_⟩
  intro text member
  have := within.bounds text member
  omega

theorem LieWithin.cons {texts : List (Nat × List Char)} {low middle high : Nat} (text : List Char)
    (within : LieWithin texts middle high) (below : low < middle) (above : middle ≤ high) :
    LieWithin ((low,text) :: texts) low high := by
  refine ⟨List.pairwise_cons.mpr ⟨?_,within.increasing⟩,?_⟩
  · intro other member
    have := within.bounds other member
    omega
  · intro other member
    rcases List.mem_cons.mp member with rfl | later
    · exact ⟨Nat.le_refl low,Nat.lt_of_lt_of_le below above⟩
    · have := within.bounds other later
      omega

theorem placedText_splits {rest : List Char} {pieces : List Segment} (split : Splits rest pieces)
    (before : List Char) (texts : List (Nat × List Char))
    (told : (eventsFrom (Place.start.after before) pieces).filterMap
      (Event.placedText? (before ++ rest)) = texts) :
    texts.flatMap (·.2) = pieces.flatMap Segment.kept ∧
      LieWithin texts (byteLength before) (byteLength (before ++ rest)) := by
  induction split generalizing before texts with
  | nil =>
    rw [eventsFrom_nil,List.filterMap_nil] at told
    subst told
    exact ⟨rfl,.nil,by simp⟩
  | @cons piece after pieces stands tail ih =>
    rw [seen_cons,placedText_piece stands,
      ← Place.after_append,← List.append_assoc] at told
    obtain ⟨kept,within⟩ := ih (before ++ piece.text) _ rfl
    have below : byteLength before < byteLength (before ++ piece.text) := by
      have letters := List.length_pos_iff.mpr (stands_ne_nil stands)
      have bytes := length_le_byteLength piece.text
      rw [byteLength_append]
      omega
    have above : byteLength (before ++ piece.text) ≤ byteLength (before ++ piece.text ++ after) := by
      rw [byteLength_append (before ++ piece.text)]
      exact Nat.le_add_right _ _
    rw [← List.append_assoc]
    by_cases dropped : piece.kept = []
    · rw [if_pos dropped,Option.toList_none,List.nil_append] at told
      subst told
      refine ⟨?_,within.widen (Nat.le_of_lt below)⟩
      rw [kept,List.flatMap_cons,dropped,List.nil_append]
    · rw [if_neg dropped,Option.toList_some,List.singleton_append] at told
      subst told
      refine ⟨?_,within.cons piece.kept below above⟩
      rw [List.flatMap_cons,List.flatMap_cons,kept]

theorem endToken_placedText (source : List Char) :
    (scan source).endToken.placedText = (byteLength source,[]) := by
  rw [Token.placedText,Scan.endToken,scan,start_after]

-- Nothing is lost and nothing told twice: in the order of their spans the tokens and
-- the errors write what the filter keeps, and both are left open alike.
theorem scan_residue (source : List Char) :
    inOrder ((scan source).tokens.map Token.placedText ++
        (scan source).errors.map (LexError.placedText source)) = (strip .code source).1 ∧
      ((scan source).LeavesString ↔ (strip .code source).2 = .string) ∧
      ((scan source).LeavesComment ↔ (strip .code source).2 = .blockComment) ∧
      ((scan source).errors = [] →
        (scan source).tokens.flatMap Token.lexeme = (strip .code source).1) := by
  have split := segments_splits source
  obtain ⟨kept,string,comment⟩ := strip_splits split
  obtain ⟨written,within⟩ :=
    placedText_splits split [] ((events source).filterMap (Event.placedText? source)) rfl
  have reported : inOrder ((scan source).tokens.map Token.placedText ++
      (scan source).errors.map (LexError.placedText source)) = (strip .code source).1 := by
    have arranged : ((scan source).tokens.map Token.placedText ++
        (scan source).errors.map (LexError.placedText source)).Perm
          ((events source).filterMap (Event.placedText? source) ++ [(byteLength source,[])]) := by
      rw [Scan.tokens,List.map_append,List.map_singleton,endToken_placedText,List.append_assoc]
      refine (List.Perm.append_left _ List.perm_append_comm).trans ?_
      rw [← List.append_assoc]
      exact (placedText_perm source (events source)).symm.append_right _
    rw [inOrder_eq arranged,List.flatMap_append,kept,← written]
    · exact List.append_nil _
    · refine List.pairwise_append.mpr ⟨within.increasing,List.pairwise_singleton _ _,?_⟩
      intro text member final last
      rw [List.mem_singleton.mp last]
      exact (within.bounds text member).2
  refine ⟨reported,(leavesString_iff source).trans string.symm,(leavesComment_iff source).trans comment.symm,?_⟩
  intro clean
  have tokens := placedText_clean source (events source) clean
  rw [Scan.tokens,List.flatMap_append,kept,← written,tokens,List.flatMap_map]
  exact List.append_nil _

end ScriptLexer
