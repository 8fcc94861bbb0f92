import ScriptLexer.Proofs.Grammar.Rule
import ScriptLexer.Proofs.Segment.Splits

-- The grammar read by longest match. A split of this kind is found by comparing all
-- rules at every cut; it is the split into segments, and the only one.
namespace ScriptLexer

namespace Grammar

structure Piece where
  rule : Option Rule
  text : List Char
deriving DecidableEq

structure Rule.Longest (rule : Rule) (text rest : List Char) : Prop where
  fits : rule.Matches text rest
  longest : ∀ (other : Rule) (front back : List Char), other.Matches front back →
    front ++ back = text ++ rest → front.length ≤ text.length

inductive Munch : List Char → List Piece → Prop where
  | nil : Munch [] []
  | longest {rule : Rule} {text rest : List Char} {pieces : List Piece}
      (found : rule.Longest text rest) (tail : Munch rest pieces) :
      Munch (text ++ rest) (⟨some rule,text⟩ :: pieces)
  | other {c : Char} {rest : List Char} {pieces : List Piece}
      (unmatched : ∀ (rule : Rule) (front back : List Char), front ++ back = c :: rest →
        ¬ rule.Matches front back)
      (tail : Munch rest pieces) : Munch (c :: rest) (⟨none,[c]⟩ :: pieces)

end Grammar

open Grammar

namespace Segment

def rule? : Segment → Option Rule
  | blank _ => some .blank
  | lineComment _ => some .lineComment
  | blockComment _ => some .blockComment
  | openComment _ => some .openComment
  | string _ => some .string
  | openString _ => some .openString
  | number _ _ => some .number
  | word _ => some .word
  | operator o => some (.operator o)
  | stray _ => none

def piece (s : Segment) : Piece := ⟨s.rule?,s.text⟩

theorem matches_of_stands {s : Segment} {after : List Char} {rule : Rule} (stands : s.StandsBefore after)
    (under : s.rule? = some rule) : rule.Matches s.text after := by
  cases s with
  | blank c =>
    cases under
    exact mem_blank.mpr ⟨c,stands,rfl⟩
  | lineComment body =>
    cases under
    exact mem_lineComment.mpr ⟨body,rfl,stands.1⟩
  | blockComment body =>
    cases under
    exact mem_blockComment.mpr ⟨body,rfl,stands⟩
  | openComment body =>
    cases under
    exact ⟨mem_openComment.mpr ⟨body,rfl,stands.1⟩,stands.2⟩
  | string body =>
    cases under
    exact mem_string.mpr ⟨body,rfl,stands⟩
  | openString body =>
    cases under
    exact ⟨mem_openString.mpr ⟨body,rfl,stands.1⟩,stands.2⟩
  | number whole fraction =>
    cases under
    exact mem_number.mpr ⟨whole,fraction,rfl,stands.1⟩
  | word letters =>
    cases under
    exact mem_word.mpr stands.1
  | operator o =>
    cases under
    exact mem_spelled.mpr rfl
  | stray c => cases under

-- What a rule matches is a segment that ends there, or a longer one begins at the
-- same place.
def Reaches (rule : Rule) (text rest : List Char) : Prop :=
  ∃ (s : Segment) (after : List Char), s.StandsBefore after ∧ s.text ++ after = text ++ rest ∧
    (s.piece = ⟨some rule,text⟩ ∨ text.length < s.text.length)

theorem reaches_of_append {rule : Rule} {text more rest after : List Char} {s : Segment}
    (stands : s.StandsBefore after) (under : s.rule? = some rule) (written : s.text = text ++ more)
    (behind : more ++ after = rest) : Reaches rule text rest := by
  refine ⟨s,after,stands,by rw [written,List.append_assoc,behind],?_⟩
  cases more with
  | nil =>
    left
    rw [piece,under,written,List.append_nil]
  | cons c more =>
    right
    simp [written]

theorem lineComment_reaches {body : List Char} (rest : List Char)
    (inside : ∀ c ∈ body, (c != '\n') = true) : Reaches .lineComment ('/' :: '/' :: body) rest := by
  have whole : ∀ c ∈ body ++ rest.takeWhile (· != '\n'), (c != '\n') = true :=
    List.forall_mem_append.mpr ⟨inside,inside_takeWhile _ rest⟩
  exact reaches_of_append (s := .lineComment _) ⟨whole,stops_dropWhile _ rest⟩ rfl rfl
    List.takeWhile_append_dropWhile

theorem word_reaches {letters : List Char} (rest : List Char) (spelled : IsWord letters) :
    Reaches .word letters rest := by
  obtain ⟨c,letters,rfl,start,inside⟩ := spelled
  have whole : ∀ d ∈ letters ++ rest.takeWhile isWordPart, isWordPart d = true :=
    List.forall_mem_append.mpr ⟨inside,inside_takeWhile _ rest⟩
  exact reaches_of_append (s := .word _) ⟨⟨c,_,rfl,start,whole⟩,stops_dropWhile _ rest⟩ rfl rfl
    List.takeWhile_append_dropWhile

theorem numberText_append (front whole fraction : List Char) :
    numberText (front ++ whole) fraction = front ++ numberText whole fraction := by
  cases fraction <;> simp [numberText]

theorem number_reaches {whole fraction : List Char} (rest : List Char) (nonempty : whole ≠ [])
    (digits : ∀ c ∈ whole, c.isDigit = true) (places : ∀ c ∈ fraction, c.isDigit = true) :
    Reaches .number (numberText whole fraction) rest := by
  have run := inside_takeWhile Char.isDigit rest
  cases fraction with
  | nil =>
    have ending := readFraction_stops (stops_dropWhile Char.isDigit rest)
    have longer : whole ++ rest.takeWhile Char.isDigit ≠ [] := by simp [nonempty]
    have all := List.forall_mem_append.mpr ⟨digits,run⟩
    have split := readFraction_text (rest.takeWhile Char.isDigit) (rest.dropWhile Char.isDigit)
    rw [List.takeWhile_append_dropWhile] at split
    exact reaches_of_append (s := .number _ _) ⟨⟨longer,all,ending.1⟩,ending.2⟩ rfl
      (numberText_append whole _ _) split
  | cons d fraction =>
    have all := List.forall_mem_append.mpr ⟨places,run⟩
    have stops := stops_dropWhile Char.isDigit rest
    have longer : numberText whole (d :: fraction ++ rest.takeWhile Char.isDigit) =
        numberText whole (d :: fraction) ++ rest.takeWhile Char.isDigit := by simp [numberText]
    exact reaches_of_append (s := .number _ _) ⟨⟨nonempty,digits,all⟩,stops,by simp⟩ rfl longer
      List.takeWhile_append_dropWhile

theorem readSlash_longer {c : Char} (rest : List Char) (opens : (c == '/' || c == '*') = true) :
    1 < (readSlash (c :: rest)).1.text.length := by
  simp only [Bool.or_eq_true,beq_iff_eq] at opens
  rcases opens with rfl | rfl
  · simp [readSlash,text]
  · simp only [readSlash]
    split <;> simp [text]

theorem operator_reaches (o : Operator) (rest : List Char) : Reaches (.operator o) o.text rest := by
  by_cases stands : (operator o).StandsBefore rest
  · exact ⟨operator o,rest,stands,rfl,.inl rfl⟩
  rw [StandsBefore,Classical.not_and_iff_not_or_not,Classical.not_imp,Classical.not_imp] at stands
  rcases stands with ⟨joins,follows⟩ | ⟨rfl,follows⟩
  · obtain ⟨longer,joined⟩ := Option.isSome_iff_exists.mp joins
    obtain ⟨ended,notSlash⟩ := joined_apart joined
    have spelled := Operator.text_of_withEqual joined
    cases rest with
    | nil => exact absurd (stops_nil _) follows
    | cons c rest =>
      rw [stops_cons,Bool.not_eq_false,beq_iff_eq] at follows
      subst follows
      refine ⟨operator longer,rest,⟨by simp [ended],fun same => absurd same notSlash⟩,?_,.inr ?_⟩
      · rw [text,spelled,List.append_assoc]
        rfl
      · simp [text,spelled]
  · cases rest with
    | nil => exact absurd (stops_nil _) follows
    | cons c rest =>
      rw [stops_cons,Bool.not_eq_false] at follows
      exact ⟨_,_,readSlash_stands _,readSlash_text _,.inr (readSlash_longer rest follows)⟩

theorem matches_reaches {rule : Rule} {text rest : List Char} (fits : rule.Matches text rest) :
    Reaches rule text rest := by
  cases rule with
  | blank =>
    obtain ⟨c,blank,rfl⟩ := mem_blank.mp fits
    exact ⟨.blank c,rest,blank,rfl,.inl rfl⟩
  | lineComment =>
    obtain ⟨body,rfl,inside⟩ := mem_lineComment.mp fits
    exact lineComment_reaches rest inside
  | blockComment =>
    obtain ⟨body,rfl,first⟩ := mem_blockComment.mp fits
    exact ⟨.blockComment body,rest,first,rfl,.inl rfl⟩
  | openComment =>
    obtain ⟨opened,rfl⟩ := fits
    obtain ⟨body,rfl,never⟩ := mem_openComment.mp opened
    exact ⟨.openComment body,[],⟨never,rfl⟩,rfl,.inl rfl⟩
  | string =>
    obtain ⟨body,rfl,inside⟩ := mem_string.mp fits
    exact ⟨.string body,rest,inside,rfl,.inl rfl⟩
  | openString =>
    obtain ⟨opened,rfl⟩ := fits
    obtain ⟨body,rfl,inside⟩ := mem_openString.mp opened
    exact ⟨.openString body,[],⟨inside,rfl⟩,rfl,.inl rfl⟩
  | number =>
    obtain ⟨whole,fraction,rfl,nonempty,digits,places⟩ := mem_number.mp fits
    exact number_reaches rest nonempty digits places
  | word => exact word_reaches rest (mem_word.mp fits)
  | operator o =>
    rw [mem_spelled.mp fits]
    exact operator_reaches o rest

theorem matches_within {s : Segment} {after front back : List Char} {rule : Rule}
    (stands : s.StandsBefore after) (fits : rule.Matches front back)
    (same : front ++ back = s.text ++ after) :
    s.piece = ⟨some rule,front⟩ ∨ front.length < s.text.length := by
  obtain ⟨found,rest,there,written,reached⟩ := matches_reaches fits
  have unique := stands_unique there stands (written.trans same)
  rwa [unique.1] at reached

theorem stray_of_unruled {s : Segment} (unruled : s.rule? = none) : ∃ c, s = .stray c := by
  cases s with
  | stray c => exact ⟨c,rfl⟩
  | _ => cases unruled

end Segment

namespace Grammar

theorem Rule.Matches.ne_nil {rule : Rule} {text rest : List Char} (fits : rule.Matches text rest) :
    text ≠ [] := by
  intro empty
  subst empty
  cases rule with
  | blank =>
    obtain ⟨c,_,same⟩ := mem_blank.mp fits
    cases same
  | lineComment =>
    obtain ⟨body,same,_⟩ := mem_lineComment.mp fits
    cases same
  | blockComment =>
    obtain ⟨body,same,_⟩ := mem_blockComment.mp fits
    cases same
  | openComment =>
    obtain ⟨body,same,_⟩ := mem_openComment.mp fits.1
    cases same
  | string =>
    obtain ⟨body,same,_⟩ := mem_string.mp fits
    cases same
  | openString =>
    obtain ⟨body,same,_⟩ := mem_openString.mp fits.1
    cases same
  | number =>
    obtain ⟨whole,fraction,same,nonempty,_⟩ := mem_number.mp fits
    obtain ⟨c,whole,rfl⟩ := List.exists_cons_of_ne_nil nonempty
    cases fraction <;> cases same
  | word =>
    obtain ⟨c,letters,same,_⟩ := mem_word.mp fits
    cases same
  | operator o =>
    have same := mem_spelled.mp fits
    cases o <;> cases same

theorem munch_segment {s : Segment} {after : List Char} {pieces : List Piece}
    (stands : s.StandsBefore after) (tail : Munch after pieces) :
    Munch (s.text ++ after) (s.piece :: pieces) := by
  cases under : s.rule? with
  | some rule =>
    have longest : rule.Longest s.text after := by
      refine ⟨Segment.matches_of_stands stands under,?_⟩
      intro other front back fits same
      rcases Segment.matches_within stands fits same with equal | shorter
      · exact Nat.le_of_eq (congrArg (List.length ∘ Piece.text) equal).symm
      · exact Nat.le_of_lt shorter
    have step := Munch.longest longest tail
    rwa [← under] at step
  | none =>
    obtain ⟨c,rfl⟩ := Segment.stray_of_unruled under
    refine .other ?_ tail
    intro rule front back same fits
    rcases Segment.matches_within stands fits same with equal | shorter
    · cases equal
    · exact fits.ne_nil (List.length_eq_zero_iff.mp (Nat.lt_one_iff.mp shorter))

theorem munch_splits {source : List Char} {pieces : List Segment} (split : Splits source pieces) :
    Munch source (pieces.map Segment.piece) := by
  induction split with
  | nil => exact .nil
  | cons stands tail ih => exact munch_segment stands ih

theorem munch_unique {source : List Char} {pieces : List Piece} (munch : Munch source pieces) :
    pieces = (segments source).map Segment.piece := by
  induction munch with
  | nil => rw [segments_nil,List.map_nil]
  | @longest rule text rest pieces found tail ih =>
    obtain ⟨s,after,stands,written⟩ := exists_stands (List.append_ne_nil_of_left_ne_nil found.fits.ne_nil rest)
    rcases Segment.matches_within stands found.fits written.symm with equal | longer
    · have same : s.text = text := congrArg Piece.text equal
      rw [same] at written
      rw [← List.append_cancel_left written] at ih ⊢
      rw [← same,segments_stands stands,List.map_cons,equal,same,ih]
    · exfalso
      cases under : s.rule? with
      | some other =>
        have shorter := found.longest other _ _ (Segment.matches_of_stands stands under) written
        omega
      | none =>
        obtain ⟨c,rfl⟩ := Segment.stray_of_unruled under
        exact found.fits.ne_nil (List.length_eq_zero_iff.mp (Nat.lt_one_iff.mp longer))
  | @other c rest pieces unmatched tail ih =>
    obtain ⟨s,after,stands,written⟩ := exists_stands (List.cons_ne_nil c rest)
    cases under : s.rule? with
    | some rule =>
      exact absurd (Segment.matches_of_stands stands under) (unmatched rule _ _ written)
    | none =>
      obtain ⟨d,rfl⟩ := Segment.stray_of_unruled under
      have same : d = c := (List.cons.inj written).1
      have behind : after = rest := (List.cons.inj written).2
      subst same behind
      have head := segments_stands stands
      rw [written] at head
      rw [head,List.map_cons,ih]
      rfl

theorem munch_exact {source : List Char} {pieces : List Piece} :
    Munch source pieces ↔ pieces = (segments source).map Segment.piece :=
  ⟨munch_unique,fun same => same ▸ munch_splits (segments_splits source)⟩

end Grammar

end ScriptLexer
