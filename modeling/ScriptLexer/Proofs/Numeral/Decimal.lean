import Mathlib
import ScriptLexer.Proofs.Segment.Boundary
import ScriptLexer.Proofs.Numeral.Value

namespace ScriptLexer

def placeValue : List Char → Nat
  | [] => 0
  | c :: rest => (c.toNat - '0'.toNat) * 10 ^ rest.length + placeValue rest

def fractionValue (digits : List Char) : ℚ := placeValue digits / 10 ^ digits.length

def textValue (text : List Char) : ℚ :=
  placeValue (text.takeWhile (· != '.')) + fractionValue (text.dropWhile (· != '.')).tail

theorem ofDigitChars_place (digits : List Char) (init : Nat) :
    Nat.ofDigitChars 10 digits init = init * 10 ^ digits.length + placeValue digits := by
  induction digits generalizing init with
  | nil => rw [Nat.ofDigitChars_nil,placeValue,List.length_nil,pow_zero,mul_one,add_zero]
  | cons c rest ih =>
    rw [Nat.ofDigitChars_cons,ih,placeValue,List.length_cons,pow_succ]
    ring

theorem placeValue_ofDigitChars (digits : List Char) : placeValue digits = Nat.ofDigitChars 10 digits 0 := by
  rw [ofDigitChars_place,zero_mul,zero_add]

theorem placeValue_append (front back : List Char) :
    placeValue (front ++ back) = placeValue front * 10 ^ back.length + placeValue back := by
  rw [placeValue_ofDigitChars,placeValue_ofDigitChars front,Nat.ofDigitChars_append,ofDigitChars_place]

theorem placeValue_toDigits (n : Nat) : placeValue (Nat.toDigits 10 n) = n := by
  rw [placeValue_ofDigitChars,Nat.ofDigitChars_ten_toDigits]

theorem placeValue_leftpad (width : Nat) (digits : List Char) :
    placeValue (digits.leftpad width '0') = placeValue digits := by
  rw [List.leftpad,placeValue_ofDigitChars,Nat.ofDigitChars_append,Nat.ofDigitChars_replicate_zero,
    mul_zero,← placeValue_ofDigitChars]

theorem fractionValue_zero (digits : List Char) : fractionValue (digits ++ ['0']) = fractionValue digits := by
  have single : placeValue ['0'] = 0 := by decide
  rw [fractionValue,fractionValue,placeValue_append,single,List.length_append,add_zero,List.length_singleton,
    pow_one,pow_succ,Nat.cast_mul,Nat.cast_ofNat,mul_div_mul_right _ _ (by norm_num)]

theorem fractionValue_trimmed (backwards : List Char) :
    fractionValue (backwards.dropWhile (· == '0')).reverse = fractionValue backwards.reverse := by
  induction backwards with
  | nil => rfl
  | cons c backwards ih =>
    by_cases zero : c = '0'
    · rw [zero,List.dropWhile_cons_of_pos (by rfl),ih,List.reverse_cons,fractionValue_zero]
    · rw [List.dropWhile_cons_of_neg (by simpa using zero)]

theorem textValue_numberText {whole : List Char} (fraction : List Char)
    (digits : ∀ c ∈ whole, c.isDigit = true) :
    textValue (Segment.numberText whole fraction) =
      placeValue whole + fractionValue fraction := by
  have inside : ∀ c ∈ whole, (c != '.') = true := by
    intro c member
    have digit := digits c member
    rw [bne_iff_ne]
    intro point
    rw [point] at digit
    cases digit
  cases fraction with
  | nil =>
    have all := takeWhile_stops inside (stops_nil _)
    have ended := dropWhile_stops inside (stops_nil _)
    rw [List.append_nil] at all ended
    simp only [textValue,Segment.numberText,all,ended,List.tail_nil]
  | cons d fraction =>
    have point : Stops (· != '.') ('.' :: d :: fraction) := stops_cons.mpr rfl
    simp only [textValue,Segment.numberText,takeWhile_stops inside point,dropWhile_stops inside point,
      List.tail_cons]

namespace Decimal

def value (d : Decimal) : ℚ := d.units / 10 ^ d.places

theorem value_ofDigits (whole fraction : List Char) :
    (ofDigits whole fraction).value = placeValue whole + fractionValue fraction := by
  have power : (10 : ℚ) ^ fraction.length ≠ 0 := by positivity
  rw [value,ofDigits,Nat.ofDigitChars_append,ofDigitChars_place,ofDigitChars_place,zero_mul,zero_add]
  push_cast
  rw [add_div,mul_div_cancel_right₀ _ power,fractionValue]

theorem denominator_pos (d : Decimal) : 0 < Nat.pow 10 d.places := Nat.pow_pos (by decide)

theorem value_quotient (d : Decimal) : d.value = d.units / (Nat.pow 10 d.places : Nat) := by
  rw [value,Nat.pow_eq,Nat.cast_pow,Nat.cast_ofNat]

theorem toBinary64_isRounded (d : Decimal) : d.toBinary64.IsRounded d.value := by
  rw [value_quotient]
  exact Binary64.ofRank_isRounded d.denominator_pos

theorem text_numberText (d : Decimal) : d.text = Segment.numberText d.wholeDigits d.fractionDigits := by
  unfold text
  cases d.fractionDigits with
  | nil => rfl
  | cons c rest => rfl

theorem wholeDigits_digits (d : Decimal) : ∀ c ∈ d.wholeDigits, c.isDigit = true :=
  fun _ member => Nat.isDigit_of_mem_toDigits (by decide) (by decide) member

theorem fractionDigits_digits (d : Decimal) : ∀ c ∈ d.fractionDigits, c.isDigit = true := by
  intro c member
  have kept := (List.dropWhile_sublist _).subset (List.mem_reverse.mp member)
  rw [List.mem_reverse,List.leftpad,List.mem_append] at kept
  rcases kept with padding | digit
  · rw [List.eq_of_mem_replicate padding]
    rfl
  · exact Nat.isDigit_of_mem_toDigits (by decide) (by decide) digit

theorem fractionDigits_value (d : Decimal) :
    fractionValue d.fractionDigits = (d.units % Nat.pow 10 d.places : Nat) / 10 ^ d.places := by
  unfold fractionDigits
  dsimp only
  rw [fractionValue_trimmed,List.reverse_reverse,fractionValue,placeValue_leftpad,placeValue_toDigits]
  rcases Nat.eq_zero_or_pos d.places with zero | positive
  · simp [zero,Nat.mod_one]
  · have fits : (Nat.toDigits 10 (d.units % Nat.pow 10 d.places)).length ≤ d.places :=
      (Nat.length_toDigits_le_iff (by decide) positive).mpr (Nat.mod_lt _ d.denominator_pos)
    rw [List.length_leftpad,max_eq_left fits]

theorem value_digits (d : Decimal) :
    (ofDigits d.wholeDigits d.fractionDigits).value = d.value := by
  have positive : (0 : ℚ) < 10 ^ d.places := by positivity
  have divided : (10 : ℚ) ^ d.places * (d.units / Nat.pow 10 d.places : Nat) +
      (d.units % Nat.pow 10 d.places : Nat) = d.units :=
    mod_cast Nat.div_add_mod d.units (Nat.pow 10 d.places)
  rw [value_ofDigits,fractionDigits_value,wholeDigits,placeValue_toDigits,value,← divided,add_div,
    mul_div_cancel_left₀ _ positive.ne']

end Decimal

end ScriptLexer
