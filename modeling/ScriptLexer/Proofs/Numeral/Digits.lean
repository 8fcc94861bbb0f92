import Mathlib
import ScriptLexer.Proofs.Numeral.Decimal

namespace ScriptLexer

def trimmed (digits : List Char) : List Char := (digits.dropWhile (· == '0')).rdropWhile (· == '0')

def significantDigits (text : List Char) : Nat := (trimmed (text.filter (· != '.'))).length

-- So many digits write the value, with zeros or a point put behind or before them.
def HasDigits (value : ℚ) (count : Nat) : Prop :=
  ∃ (n : Nat) (place : ℤ), n < 10 ^ count ∧ value = n * 10 ^ place

section Trimmed

variable {digits : List Char} {c : Char} {rest front : List Char}

theorem all_zero {zeros : List Char} (zero : ∀ c ∈ zeros, (c == '0') = true) :
    zeros = List.replicate zeros.length '0' :=
  List.eq_replicate_iff.mpr ⟨rfl,fun c member => eq_of_beq (zero c member)⟩

theorem trimmed_zeros (digits : List Char) :
    ∃ before behind, digits = List.replicate before '0' ++ (trimmed digits ++ List.replicate behind '0') := by
  have leading := @all_zero (digits.takeWhile (· == '0')) fun c member =>
    List.mem_takeWhile_imp (p := (· == '0')) member
  have trailing := @all_zero ((digits.dropWhile (· == '0')).rtakeWhile (· == '0')) fun c member =>
    List.mem_rtakeWhile_imp (p := (· == '0')) member
  refine ⟨(digits.takeWhile (· == '0')).length,((digits.dropWhile (· == '0')).rtakeWhile (· == '0')).length,?_⟩
  rw [← leading,← trailing,trimmed,List.rdropWhile_append_rtakeWhile,List.takeWhile_append_dropWhile]

theorem trimmed_first (first : trimmed digits = c :: rest) : c ≠ '0' := by
  obtain ⟨back,whole⟩ := List.rdropWhile_prefix (· == '0') (l := digits.dropWhile (· == '0'))
  rw [show (digits.dropWhile (· == '0')).rdropWhile (· == '0') = c :: rest from first,List.cons_append] at whole
  simpa [← whole] using List.head?_dropWhile_not (· == '0') digits

theorem trimmed_last (last : trimmed digits = front ++ [c]) : c ≠ '0' := by
  have nonempty : trimmed digits ≠ [] := by simp [last]
  have final : (trimmed digits).getLast nonempty = c := by simp [last]
  have ends := List.rdropWhile_last_not (· == '0') (digits.dropWhile (· == '0')) nonempty
  change ¬ ((trimmed digits).getLast nonempty == '0') = true at ends
  simpa [final] using ends

end Trimmed

section Places

variable {digits front rest : List Char} {c : Char}

theorem placeValue_zeros (digits : List Char) (count : Nat) :
    placeValue (digits ++ List.replicate count '0') = placeValue digits * 10 ^ count := by
  rw [placeValue_append,List.length_replicate,placeValue_ofDigitChars (List.replicate count '0'),
    Nat.ofDigitChars_replicate_zero,Nat.mul_zero,Nat.add_zero]

theorem placeValue_padded (count : Nat) (digits : List Char) :
    placeValue (List.replicate count '0' ++ digits) = placeValue digits := by
  rw [placeValue_ofDigitChars,Nat.ofDigitChars_append,Nat.ofDigitChars_replicate_zero,Nat.mul_zero,
    ← placeValue_ofDigitChars]

theorem digit_place (digit : c.isDigit = true) :
    c.toNat - '0'.toNat < 10 ∧ (c ≠ '0' → 0 < c.toNat - '0'.toNat) := by
  have bounds : 48 ≤ c.toNat ∧ c.toNat ≤ 57 := by
    simpa [Char.isDigit,UInt32.le_iff_toNat_le] using digit
  have zero : '0'.toNat = 48 := rfl
  refine ⟨by omega,fun other => ?_⟩
  have apart : c.toNat ≠ 48 := fun same => other (Char.toNat_inj.mp same)
  omega

theorem placeValue_lt (all : ∀ c ∈ digits, c.isDigit = true) : placeValue digits < 10 ^ digits.length := by
  induction digits with
  | nil => simp [placeValue]
  | cons c rest ih =>
    have below := ih fun d member => all d (List.mem_cons_of_mem _ member)
    have digit := (digit_place (all c List.mem_cons_self)).1
    calc placeValue (c :: rest) < (c.toNat - '0'.toNat) * 10 ^ rest.length + 10 ^ rest.length := by
          unfold placeValue
          omega
      _ = (c.toNat - '0'.toNat + 1) * 10 ^ rest.length := by ring
      _ ≤ 10 * 10 ^ rest.length := Nat.mul_le_mul_right _ digit
      _ = 10 ^ (c :: rest).length := by rw [List.length_cons,pow_succ']

theorem placeValue_leads (digit : c.isDigit = true) (notZero : c ≠ '0') :
    10 ^ rest.length ≤ placeValue (c :: rest) := by
  have first := (digit_place digit).2 notZero
  calc 10 ^ rest.length ≤ (c.toNat - '0'.toNat) * 10 ^ rest.length := Nat.le_mul_of_pos_left _ first
    _ ≤ placeValue (c :: rest) := Nat.le_add_right _ _

theorem placeValue_ends (digit : c.isDigit = true) (notZero : c ≠ '0') : ¬ 10 ∣ placeValue (front ++ [c]) := by
  obtain ⟨below,above⟩ := digit_place digit
  have last := above notZero
  simp only [placeValue_append,placeValue,List.length_singleton,List.length_nil,pow_one,pow_zero,mul_one,
    Nat.add_zero]
  omega

end Places

section Digits

variable {value : ℚ} {count : Nat}

theorem shift_places (n : Nat) {low high : ℤ} (order : low ≤ high) :
    (n : ℚ) * 10 ^ high = (n * 10 ^ (high - low).toNat : Nat) * 10 ^ low := by
  rw [Nat.cast_mul,Nat.cast_pow,Nat.cast_ofNat,← zpow_natCast,Int.toNat_of_nonneg (Int.sub_nonneg.mpr order),
    mul_assoc,← zpow_add₀ (by norm_num),Int.sub_add_cancel]

theorem steps_eq {n m : Nat} {place : ℤ} (same : (n : ℚ) * 10 ^ place = m * 10 ^ place) : n = m := by
  have scale : (10 : ℚ) ^ place ≠ 0 := by positivity
  exact Nat.cast_injective (mul_right_cancel₀ scale same)

theorem HasDigits.widen {more : Nat} (digits : HasDigits value count) (wider : count ≤ more) :
    HasDigits value more := by
  obtain ⟨n,place,small,same⟩ := digits
  exact ⟨n,place,small.trans_le (Nat.pow_le_pow_right (by decide) wider),same⟩

theorem hasDigits_zero (count : Nat) : HasDigits 0 count := ⟨0,0,by positivity,by simp⟩

theorem HasDigits.bounds (digits : HasDigits value count) (positive : 0 < value) :
    ∃ (n : Nat) (place : ℤ), 0 < count ∧ value = n * 10 ^ place ∧ 10 ^ place ≤ value ∧
      value < 10 ^ (count + place : ℤ) := by
  obtain ⟨n,place,small,rfl⟩ := digits
  have scale : (0 : ℚ) < 10 ^ place := by positivity
  have least : 1 ≤ n := by
    rw [mul_pos_iff_of_pos_right scale] at positive
    exact mod_cast positive
  refine ⟨n,place,?_,rfl,le_mul_of_one_le_left scale.le (mod_cast least),?_⟩
  · refine Nat.pos_of_ne_zero fun zero => ?_
    rw [zero,pow_zero] at small
    omega
  · rw [zpow_add₀ (by norm_num),zpow_natCast]
    exact mul_lt_mul_of_pos_right (mod_cast small) scale

theorem hasDigits_le {n : Nat} {place : ℤ} (positive : 0 < count) (fits : n ≤ 10 ^ count) :
    HasDigits (n * 10 ^ place) count := by
  rcases Nat.lt_or_eq_of_le fits with less | rfl
  · exact ⟨n,place,less,rfl⟩
  · refine ⟨1,count + place,Nat.one_lt_pow positive.ne' (by decide),?_⟩
    rw [zpow_add₀ (by norm_num),zpow_natCast]
    simp

theorem HasDigits.on_grid {place : ℤ} (digits : HasDigits value count) (least : 10 ^ place ≤ value) :
    ∃ k : Nat, value = k * 10 ^ (place + 1 - count) := by
  have positive : (0 : ℚ) < 10 ^ place := by positivity
  obtain ⟨n,last,_,rfl,_,below⟩ := digits.bounds (positive.trans_le least)
  have order := (zpow_lt_zpow_iff_right₀ (by norm_num)).mp (least.trans_lt below)
  exact ⟨_,shift_places n (by omega)⟩

theorem core_length_le {core : List Char} (all : ∀ c ∈ core, c.isDigit = true)
    (first : ∀ c rest, core = c :: rest → c ≠ '0') (last : ∀ front c, core = front ++ [c] → c ≠ '0')
    {place : ℤ} (digits : HasDigits (placeValue core * 10 ^ place) count) : core.length ≤ count := by
  obtain ⟨n,lowest,small,same⟩ := digits
  rcases List.eq_nil_or_concat' core with empty | ⟨front,c,ended⟩
  · simp [empty]
  · have ends := @placeValue_ends front c (all c (by simp [ended])) (last front c ended)
    rw [← ended] at ends
    have apart : lowest ≤ place := by
      by_contra later
      rw [shift_places n (le_of_not_ge later)] at same
      exact ends (steps_eq same ▸ Dvd.dvd.mul_left (dvd_pow_self 10 (by omega)) n)
    have large : placeValue core ≤ n := by
      rw [shift_places _ apart] at same
      exact steps_eq same ▸ Nat.le_mul_of_pos_right _ (by positivity)
    cases core with
    | nil => simp
    | cons d rest =>
      have leads := @placeValue_leads rest d (all d List.mem_cons_self) (first d rest rfl)
      exact (Nat.pow_lt_pow_iff_right (by decide)).mp ((leads.trans large).trans_lt small)

theorem textValue_places {whole fraction : List Char} (digits : ∀ c ∈ whole, c.isDigit = true) :
    textValue (Segment.numberText whole fraction) =
      placeValue (whole ++ fraction) * 10 ^ (-fraction.length : ℤ) := by
  rw [textValue_numberText fraction digits,← Decimal.value_ofDigits,Decimal.value,Decimal.ofDigits,
    ← placeValue_ofDigitChars,zpow_neg,zpow_natCast,div_eq_mul_inv]

theorem filter_numberText {whole fraction : List Char} (digits : ∀ c ∈ whole, c.isDigit = true)
    (places : ∀ c ∈ fraction, c.isDigit = true) :
    (Segment.numberText whole fraction).filter (· != '.') = whole ++ fraction := by
  have kept (text : List Char) (all : ∀ c ∈ text, c.isDigit = true) : text.filter (· != '.') = text := by
    refine List.filter_eq_self.mpr fun c member => ?_
    have digit := all c member
    rw [bne_iff_ne]
    intro point
    rw [point] at digit
    cases digit
  cases fraction with
  | nil => simpa [Segment.numberText] using kept whole digits
  | cons d fraction =>
    have tail := kept (d :: fraction) places
    simpa [Segment.numberText,kept whole digits] using tail

theorem hasDigits_text {whole fraction : List Char} (digits : ∀ c ∈ whole, c.isDigit = true)
    (places : ∀ c ∈ fraction, c.isDigit = true) :
    HasDigits (textValue (Segment.numberText whole fraction)) count ↔
      significantDigits (Segment.numberText whole fraction) ≤ count := by
  rw [textValue_places digits,significantDigits,filter_numberText digits places]
  obtain ⟨before,behind,zeros⟩ := trimmed_zeros (whole ++ fraction)
  have all : ∀ c ∈ trimmed (whole ++ fraction), c.isDigit = true := by
    intro c member
    have inside : c ∈ whole ++ fraction := by
      rw [zeros]
      exact List.mem_append_right _ (List.mem_append_left _ member)
    exact (List.mem_append.mp inside).elim (digits c) (places c)
  have value : placeValue (whole ++ fraction) = placeValue (trimmed (whole ++ fraction)) * 10 ^ behind := by
    conv_lhs => rw [zeros]
    rw [placeValue_padded,placeValue_zeros]
  rw [value,Nat.cast_mul,Nat.cast_pow,Nat.cast_ofNat,mul_assoc,← zpow_natCast,← zpow_add₀ (by norm_num)]
  constructor
  · exact core_length_le all (fun _ _ => trimmed_first) (fun _ _ => trimmed_last)
  · exact HasDigits.widen ⟨_,_,placeValue_lt all,rfl⟩

end Digits

end ScriptLexer
