import Mathlib
import ScriptLexer.Proofs.Grammar.Rule
import ScriptLexer.Proofs.Numeral.ReadBack
import ScriptLexer.Proofs.Scan.Events

namespace ScriptLexer

theorem Binary64.cleared_sign (x : Binary64) :
    (⟨x.bits &&& 0x7FFFFFFFFFFFFFFF⟩ : Binary64) = .ofRank x.rank := by
  have mask : (0x7FFFFFFFFFFFFFFF : UInt64).toNat = 2 ^ 63 - 1 := by decide
  have small : x.rank < UInt64.size := (Nat.mod_lt _ (by decide)).trans (by decide)
  rw [Binary64.ofRank,Binary64.mk.injEq,← UInt64.toNat_inj,UInt64.toNat_and,mask,
    Nat.and_two_pow_sub_one_eq_mod,UInt64.toNat_ofNat_of_lt' small]
  rfl

theorem Binary64.text_finite {x : Binary64} (finite : x.isFinite = true) :
    x.text = (if x.isNegative then ['-'] else []) ++ (shortest x.rank).text := by
  have below : x.rank < infinityRank := of_decide_eq_true finite
  have number : x.isNaN = false := decide_eq_false below.not_gt
  unfold Binary64.text
  rw [number,finite]
  cases x.isNegative with
  | false => rfl
  | true => rfl

theorem Binary64.text_infinite {x : Binary64} (infinite : x.isFinite = false) :
    x.text ∈ [['i','n','f'],['-','i','n','f'],['N','a','N']] := by
  unfold Binary64.text
  rw [infinite]
  cases x.isNaN <;> cases x.isNegative <;> simp

namespace Decimal

theorem text_number (d : Decimal) : d.text ∈ Grammar.number :=
  Grammar.mem_number.mpr ⟨d.wholeDigits,d.fractionDigits,d.text_numberText,Nat.toDigits_ne_nil,
    d.wholeDigits_digits,d.fractionDigits_digits⟩

theorem text_stands (d : Decimal) :
    (Segment.number d.wholeDigits d.fractionDigits).StandsBefore [] := by
  refine ⟨⟨Nat.toDigits_ne_nil,d.wholeDigits_digits,d.fractionDigits_digits⟩,stops_nil _,fun _ => ?_⟩
  simp [PointFollows]

theorem fractionDigits_last (d : Decimal) : d.fractionDigits.getLast? ≠ some '0' := by
  intro last
  unfold fractionDigits at last
  rw [List.getLast?_reverse] at last
  exact absurd (stops_dropWhile _ _ '0' last) (by decide)

end Decimal

theorem ends_digit (d : Decimal) {sign : List Char} (plain : '.' ∉ sign) :
    ¬ ['.','0'] <:+ sign ++ d.text := by
  intro ending
  rw [d.text_numberText] at ending
  cases fraction : d.fractionDigits with
  | nil =>
    rw [fraction,Segment.numberText] at ending
    have point : '.' ∈ sign ++ d.wholeDigits := ending.subset (by simp)
    rcases List.mem_append.mp point with inside | digit
    · exact plain inside
    · exact absurd (d.wholeDigits_digits _ digit) (by decide)
  | cons c rest =>
    obtain ⟨front,same⟩ := ending
    have whole : sign ++ Segment.numberText d.wholeDigits d.fractionDigits =
        sign ++ d.wholeDigits ++ ['.'] ++ d.fractionDigits := by
      simp [fraction,Segment.numberText]
    have ends := congrArg List.getLast? (same.trans whole)
    have nonempty : d.fractionDigits ≠ [] := fraction ▸ List.cons_ne_nil c rest
    rw [List.getLast?_append_of_ne_nil _ nonempty,List.getLast?_append_of_ne_nil _ (by simp)] at ends
    exact d.fractionDigits_last ends.symm

theorem decimal_scanned (d : Decimal) (negative : Bool) :
    let text := (if negative then ['-'] else []) ++ d.text
    (scan text).errors = [] ∧
      (scan text).tokens.map (fun token => (token.kind,token.lexeme,token.literal)) =
        (if negative then [(.operator .minus,['-'],none)] else []) ++
          [(.number,d.text,some (.number (Decimal.ofDigits d.wholeDigits d.fractionDigits).toBinary64)),
            (.endOfSource,[],none)] := by
  have written : Segment.numberText d.wholeDigits d.fractionDigits = d.text := d.text_numberText.symm
  have number : Splits d.text [.number d.wholeDigits d.fractionDigits] := by
    have split := Splits.cons d.text_stands .nil
    rwa [List.append_nil,Segment.text,written] at split
  have minus : (Segment.operator .minus).StandsBefore d.text := by
    refine ⟨fun joins => ?_,fun slash => ?_⟩
    · cases joins
    · cases slash
  have pieces : segments ((if negative then ['-'] else []) ++ d.text) =
      (if negative then [.operator .minus] else []) ++ [.number d.wholeDigits d.fractionDigits] := by
    cases negative with
    | false => exact splits_segments number
    | true => exact splits_segments (Splits.cons minus number)
  simp only [Scan.errors,Scan.tokens,scan,Scan.endToken,events_from,pieces]
  cases negative <;>
    simp [eventsFrom_cons,eventsFrom_nil,Segment.event?,Event.error?,Event.token?,Segment.text,
      Operator.text,written]

-- A finite number is shown as a source could write it and is read back from there to the
-- bit, less the sign. No ending is left that the display would have to take off.
theorem display_scanned (x : Binary64) :
    let text := (Literal.number x).display.toList
    (x.isFinite = true →
      ∃ magnitude ∈ Grammar.number,
        text = (if x.isNegative then ['-'] else []) ++ magnitude ∧
        (scan text).errors = [] ∧
        (scan text).tokens.map (fun token => (token.kind,token.lexeme,token.literal)) =
          (if x.isNegative then [(.operator .minus,['-'],none)] else []) ++
            [(.number,magnitude,some (.number ⟨x.bits &&& 0x7FFFFFFFFFFFFFFF⟩)),(.endOfSource,[],none)]) ∧
    (x.isFinite = false → text ∈ [['i','n','f'],['-','i','n','f'],['N','a','N']]) ∧
    ¬ ['.','0'] <:+ text := by
  intro text
  have shown : text = x.text := String.toList_ofList
  rw [shown]
  cases finite : x.isFinite with
  | true =>
    have below : x.rank < Binary64.infinityRank := of_decide_eq_true finite
    have scanned := decimal_scanned (Binary64.shortest x.rank) x.isNegative
    rw [Binary64.shortest_reads below.le,← x.cleared_sign] at scanned
    rw [Binary64.text_finite finite]
    refine ⟨fun _ => ⟨_,(Binary64.shortest x.rank).text_number,rfl,scanned⟩,fun never => ?_,?_⟩
    · cases never
    · apply ends_digit
      split <;> decide
  | false =>
    have word := Binary64.text_infinite finite
    refine ⟨fun never => ?_,fun _ => word,?_⟩
    · cases never
    · have plain : ∀ text ∈ [['i','n','f'],['-','i','n','f'],['N','a','N']], ¬ ['.','0'] <:+ text := by decide
      exact plain x.text word

end ScriptLexer
