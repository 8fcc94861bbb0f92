import Mathlib
import ScriptLexer.Proofs.Numeral.Fifteen
import ScriptLexer.Proofs.Scan.Display
import ScriptLexer.Proofs.Scan.Numbers

namespace ScriptLexer

structure IsCanonical (text : List Char) : Prop where
  number : text ∈ Grammar.number
  leading : ∀ c rest, text = '0' :: c :: rest → c = '.'
  trailing : '.' ∈ text → text.getLast? ≠ some '0'
  point : text.getLast? ≠ some '.'

theorem toDigits_leading (n : Nat) (c : Char) (rest : List Char) : Nat.toDigits 10 n ≠ '0' :: c :: rest := by
  intro digits
  have value := placeValue_toDigits n
  have all : ∀ d ∈ Nat.toDigits 10 n, d.isDigit = true := fun _ member =>
    Nat.isDigit_of_mem_toDigits (by decide) (by decide) member
  rw [digits] at value all
  have padded := placeValue_padded 1 (c :: rest)
  have below : placeValue (c :: rest) < 10 ^ (c :: rest).length :=
    placeValue_lt fun d member => all d (List.mem_cons_of_mem _ member)
  rw [← padded,show List.replicate 1 '0' ++ c :: rest = '0' :: c :: rest from rfl,value] at below
  have shorter := (Nat.length_toDigits_le_iff (by decide) (Nat.succ_pos rest.length)).mpr below
  rw [digits] at shorter
  simp at shorter

theorem getLast_numberText {whole fraction : List Char} :
    (Segment.numberText whole fraction).getLast? =
      if fraction = [] then whole.getLast? else fraction.getLast? := by
  cases fraction with
  | nil => simp [Segment.numberText]
  | cons c rest =>
    rw [if_neg (List.cons_ne_nil c rest)]
    simp only [Segment.numberText]
    rw [List.getLast?_append_of_ne_nil _ (List.cons_ne_nil _ _),List.getLast?_cons_cons]

namespace Decimal

variable {count : Nat}

theorem textValue_text (d : Decimal) : textValue d.text = d.value := by
  rw [d.text_numberText,textValue_numberText _ d.wholeDigits_digits,← value_ofDigits,d.value_digits]

theorem hasDigits_value (d : Decimal) : HasDigits d.value count ↔ significantDigits d.text ≤ count := by
  rw [← d.textValue_text,d.text_numberText,hasDigits_text d.wholeDigits_digits d.fractionDigits_digits]

theorem text_canonical (d : Decimal) : IsCanonical d.text := by
  have last := @getLast_numberText d.wholeDigits d.fractionDigits
  rw [← d.text_numberText] at last
  refine ⟨d.text_number,?_,?_,?_⟩
  · intro c rest text
    rw [d.text_numberText] at text
    cases whole : d.wholeDigits with
    | nil => exact absurd whole Nat.toDigits_ne_nil
    | cons first more =>
      rw [whole] at text
      cases more with
      | nil =>
        cases fraction : d.fractionDigits with
        | nil => simp [fraction,Segment.numberText] at text
        | cons digit digits =>
          simp only [fraction,Segment.numberText,List.cons_append,List.nil_append,List.cons.injEq] at text
          exact text.2.1.symm
      | cons second more =>
        have zero : first = '0' := by
          cases fraction : d.fractionDigits <;> simp_all [Segment.numberText]
        rw [zero] at whole
        exact absurd whole (toDigits_leading _ second more)
  · intro point ends
    rw [last] at ends
    split at ends
    · rename_i pointless
      rw [d.text_numberText,pointless,Segment.numberText] at point
      exact absurd (d.wholeDigits_digits _ point) (by decide)
    · exact d.fractionDigits_last ends
  · intro ends
    rw [last] at ends
    split at ends
    · exact absurd (d.wholeDigits_digits _ (List.mem_of_getLast? ends)) (by decide)
    · exact absurd (d.fractionDigits_digits _ (List.mem_of_getLast? ends)) (by decide)

end Decimal

theorem display_magnitude {rank : Nat} (fits : rank ≤ Binary64.infinityRank)
    (finite : (Binary64.ofRank rank).isFinite = true) :
    rank < Binary64.infinityRank ∧
      (Literal.number (.ofRank rank)).display.toList = (Binary64.shortest rank).text := by
  have below : (Binary64.ofRank rank).rank < Binary64.infinityRank := of_decide_eq_true finite
  rw [Binary64.ofRank_rank fits] at below
  refine ⟨below,?_⟩
  simp [Literal.display,Binary64.text_finite finite,Binary64.ofRank_notNegative fits,Binary64.ofRank_rank fits]

-- The shown number has no digit too many. With up to fifteen digits it is the number that
-- was typed, unless this is less than the least normal number and not zero.
theorem number_displayed {source : List Char} {token : Token} (member : token ∈ (scan source).tokens)
    (kind : token.kind = .number) :
    ∃ x, token.literal = some (.number x) ∧
      (x.isFinite = true →
        let typed := token.lexeme
        let shown := (Literal.number x).display.toList
        significantDigits shown ≤ significantDigits typed ∧ IsCanonical shown ∧
        (significantDigits typed ≤ 15 → textValue typed = 0 ∨ 1 / 2 ^ 1022 ≤ textValue typed →
          textValue shown = textValue typed)) := by
  obtain ⟨whole,fraction,⟨_,digits,places⟩,lexeme,literal⟩ := token_number member kind
  refine ⟨.ofRank (Decimal.ofDigits whole fraction).nearestRank,literal,fun finite => ?_⟩
  intro typed shown
  obtain ⟨below,text⟩ := display_magnitude (Binary64.nearestRank_le _ _) finite
  have value : textValue typed = (Decimal.ofDigits whole fraction).value := by
    rw [show typed = Segment.numberText whole fraction from lexeme,textValue_numberText _ digits,
      Decimal.value_ofDigits]
  have counted (count : Nat) : HasDigits (Decimal.ofDigits whole fraction).value count ↔
      significantDigits typed ≤ count := by
    rw [← value,show typed = Segment.numberText whole fraction from lexeme,hasDigits_text digits places]
  rw [show shown = _ from text,value]
  refine ⟨?_,Decimal.text_canonical _,?_⟩
  · rw [← Decimal.hasDigits_value]
    exact Binary64.shortest_fewest below.le ((counted _).mpr le_rfl)
  · intro few size
    rw [Decimal.textValue_text]
    exact Binary64.shortest_exact below ((counted 15).mpr few) size

theorem number_displayed_zeros :
    let source := ['0','0','7','.','2','5','0','0']
    let token : Token := ⟨.number,source,some (.number ⟨0x401D000000000000⟩),⟨1,⟨0,8⟩⟩⟩
    token ∈ (scan source).tokens ∧ token.kind = .number ∧ significantDigits source = 3 ∧
      (Literal.number ⟨0x401D000000000000⟩).display.toList = ['7','.','2','5'] ∧
      IsCanonical ['7','.','2','5'] ∧ textValue ['7','.','2','5'] = textValue source := by
  intro source token
  have digits : ∀ c ∈ ['0','0','7'], c.isDigit = true := by simp
  have stands : (Segment.number ['0','0','7'] ['2','5','0','0']).StandsBefore [] := by
    refine ⟨⟨List.cons_ne_nil _ _,digits,by simp⟩,stops_nil _,?_⟩
    simp
  have pieces : segments source = [.number ['0','0','7'] ['2','5','0','0']] := by
    have read := segments_stands stands
    rwa [segments_nil] at read
  have member : token ∈ (scan source).tokens := by
    have told : events source = [.token token] := by
      rw [events_from,pieces]
      decide +kernel
    simp [Scan.tokens,scan,told,Event.token?]
  have shown : (Literal.number ⟨0x401D000000000000⟩).display.toList = ['7','.','2','5'] := by decide +kernel
  have value : textValue source = 29 / 4 := by
    have written := textValue_numberText ['2','5','0','0'] digits
    have whole : placeValue ['0','0','7'] = 7 := by decide
    have places : placeValue ['2','5','0','0'] = 2500 := by decide
    rw [fractionValue,whole,places] at written
    rw [show source = Segment.numberText ['0','0','7'] ['2','5','0','0'] from rfl,written]
    norm_num
  have few : significantDigits source = 3 := by decide
  obtain ⟨x,literal,shows⟩ := number_displayed member rfl
  cases literal
  obtain ⟨_,canonical,exact⟩ := shows (by decide)
  rw [shown] at canonical exact
  refine ⟨member,rfl,few,shown,canonical,exact ?_ (.inr ?_)⟩
  · rw [show significantDigits token.lexeme = 3 from few]
    decide
  · have least : (1 : ℚ) / 2 ^ 1022 ≤ 1 := div_le_one_of_le₀ (one_le_pow₀ one_le_two) (by positivity)
    rw [show textValue token.lexeme = 29 / 4 from value]
    exact least.trans (by norm_num)

end ScriptLexer
