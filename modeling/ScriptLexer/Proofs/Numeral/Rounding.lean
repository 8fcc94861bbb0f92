import Mathlib
import ScriptLexer.Proofs.Numeral.Magnitude

namespace ScriptLexer

theorem roundHalfEven_spec (numerator : Nat) {denominator : Nat} (positive : 0 < denominator) :
    |(numerator / denominator : ℚ) - roundHalfEven numerator denominator| ≤ 1 / 2 ∧
      (|(numerator / denominator : ℚ) - roundHalfEven numerator denominator| = 1 / 2 →
        Even (roundHalfEven numerator denominator)) := by
  have scale : (0 : ℚ) < denominator := Nat.cast_pos.mpr positive
  have divided := Nat.div_add_mod numerator denominator
  have small := Nat.mod_lt numerator positive
  unfold roundHalfEven
  generalize numerator / denominator = below at *
  generalize numerator % denominator = left at *
  have offset (n : Nat) : (numerator / denominator : ℚ) - n = below - n + left / denominator := by
    rw [← divided]
    push_cast
    field_simp
    ring
  have least : (0 : ℚ) ≤ left / denominator := by positivity
  dsimp only
  split_ifs with lower upper
  · have part : (left / denominator : ℚ) < 1 / 2 := by
      rw [div_lt_div_iff₀ scale two_pos]
      exact mod_cast (by omega : left * 2 < 1 * denominator)
    rw [offset,sub_self,zero_add,abs_of_nonneg least]
    exact ⟨part.le,fun tie => absurd tie part.ne⟩
  · have part : (1 / 2 : ℚ) < left / denominator := by
      rw [div_lt_div_iff₀ two_pos scale]
      exact mod_cast (by omega : 1 * denominator < left * 2)
    have most : (left / denominator : ℚ) < 1 := (div_lt_one scale).mpr (mod_cast small)
    rw [offset,Nat.cast_succ,abs_of_neg (by linarith)]
    exact ⟨by linarith,fun tie => by linarith⟩
  · have part : (left / denominator : ℚ) = 1 / 2 := by
      rw [div_eq_div_iff scale.ne' two_ne_zero]
      exact mod_cast (by omega : left * 2 = 1 * denominator)
    rw [offset,part]
    rcases Nat.even_or_odd below with even | odd
    · rw [Nat.even_iff.mp even,add_zero,sub_self]
      exact ⟨by norm_num,fun _ => even⟩
    · rw [Nat.odd_iff.mp odd,Nat.cast_succ]
      exact ⟨by norm_num,fun _ => odd.add_one⟩

theorem binade_spec {scaled denominator binade : Nat} (positive : 0 < denominator)
    (chosen : Nat.log2 (scaled / denominator) - 52 = binade) :
    scaled < 2 * Binary64.fractionCount * (denominator * 2 ^ binade) ∧
      (binade = 0 ∨ Binary64.fractionCount * (denominator * 2 ^ binade) ≤ scaled) := by
  have count : Binary64.fractionCount = 2 ^ 52 := rfl
  constructor
  · have bound : scaled / denominator < 2 ^ (53 + binade) :=
      calc scaled / denominator < 2 ^ (Nat.log2 (scaled / denominator) + 1) := Nat.lt_log2_self
        _ ≤ 2 ^ (53 + binade) := Nat.pow_le_pow_right two_pos (by omega)
    calc scaled < 2 ^ (53 + binade) * denominator := (Nat.div_lt_iff_lt_mul positive).mp bound
      _ = 2 * Binary64.fractionCount * (denominator * 2 ^ binade) := by rw [count]; ring
  · rcases Nat.eq_zero_or_pos binade with first | later
    · exact .inl first
    · have exponent : Nat.log2 (scaled / denominator) = 52 + binade := by omega
      have notZero : scaled / denominator ≠ 0 := by
        intro zero
        rw [zero,Nat.log2_zero] at exponent
        omega
      have bound := Nat.log2_self_le notZero
      rw [exponent] at bound
      have reached := (Nat.le_div_iff_mul_le positive).mp bound
      rw [count]
      apply Or.inr
      calc 2 ^ 52 * (denominator * 2 ^ binade) = 2 ^ (52 + binade) * denominator := by ring
        _ ≤ scaled := reached

namespace Binary64

-- Where a number lies on the grid of its binade. Above the first binade it leads with
-- a full significand, so the finer grid below is out of reach.
structure OnGrid (q : ℚ) (binade n : Nat) : Prop where
  fits : n ≤ 2 * fractionCount
  leading : binade = 0 ∨ fractionCount ≤ n
  reach : binade = 0 ∨ fractionCount * spacing binade ≤ q
  near : |q / spacing binade - n| ≤ 1 / 2
  tie : |q / spacing binade - n| = 1 / 2 → Even n

end Binary64

theorem cast_shiftLeft (n shift : Nat) : ((n <<< shift : Nat) : ℚ) = n * 2 ^ shift := by
  rw [Nat.shiftLeft_eq,Nat.cast_mul,Nat.cast_pow,Nat.cast_ofNat]

theorem nearestRank_grid (numerator : Nat) {denominator : Nat} (positive : 0 < denominator) :
    ∃ binade n, Binary64.OnGrid (numerator / denominator) binade n ∧
      nearestRank numerator denominator =
        min (binade * Binary64.fractionCount + n) Binary64.infinityRank := by
  unfold nearestRank
  dsimp only
  generalize units : numerator <<< 1074 = scaled
  generalize chosen : Nat.log2 (scaled / denominator) - 52 = binade
  obtain ⟨under,reach⟩ := binade_spec positive chosen
  rw [← Nat.shiftLeft_eq] at under reach
  have divisor : 0 < denominator <<< binade := by
    rw [Nat.shiftLeft_eq]
    exact Nat.mul_pos positive (Nat.two_pow_pos binade)
  obtain ⟨near,tie⟩ := roundHalfEven_spec scaled divisor
  generalize roundHalfEven scaled (denominator <<< binade) = n at *
  have quotient : (scaled / (denominator <<< binade : Nat) : ℚ) =
      numerator / denominator / Binary64.spacing binade := by
    rw [← units,cast_shiftLeft,cast_shiftLeft,Binary64.spacing,div_div_div_eq]
  have below : (numerator / denominator / Binary64.spacing binade : ℚ) < 2 * Binary64.fractionCount := by
    rw [← quotient,div_lt_iff₀ (Nat.cast_pos.mpr divisor)]
    exact mod_cast under
  have above : binade = 0 ∨
      (Binary64.fractionCount : ℚ) ≤ numerator / denominator / Binary64.spacing binade := by
    rw [← quotient,le_div_iff₀ (Nat.cast_pos.mpr divisor)]
    exact mod_cast reach
  rw [quotient] at near tie
  have bounds := abs_le.mp near
  refine ⟨binade,n,⟨?_,?_,?_,near,tie⟩,rfl⟩
  · have fits : (n : ℚ) < 2 * Binary64.fractionCount + 1 := by linarith
    exact Nat.lt_succ_iff.mp (mod_cast fits)
  · refine above.imp_right fun above => ?_
    have leads : (Binary64.fractionCount : ℚ) < n + 1 := by linarith
    exact Nat.lt_succ_iff.mp (mod_cast leads)
  · exact above.imp_right (le_div_iff₀ (Binary64.spacing_pos binade)).mp

namespace Binary64

section

variable {q : ℚ} {binade n rank : Nat}

theorem OnGrid.le_midpoint (onGrid : OnGrid q binade n) :
    q ≤ midpoint (binade * fractionCount + n) ∧
      (q = midpoint (binade * fractionCount + n) → Even (binade * fractionCount + n)) := by
  have positive := spacing_pos binade
  have next : (n + 1) * spacing binade ≤ magnitude (binade * fractionCount + n + 1) := by
    rcases Nat.lt_or_eq_of_le onGrid.fits with inside | carried
    · rw [Nat.add_assoc,magnitude_grid inside (onGrid.leading.imp_right Nat.le_succ_of_le),Nat.cast_succ]
    · have shifted : binade * fractionCount + n + 1 = (binade + 1) * fractionCount + (fractionCount + 1) := by
        rw [carried]
        ring
      have twice : (n : ℚ) = 2 * fractionCount := mod_cast carried
      rw [shifted,magnitude_grid (by decide) (.inr (Nat.le_succ _)),spacing_succ,twice]
      push_cast
      linarith
  have above : (n + 1 / 2) * spacing binade ≤ midpoint (binade * fractionCount + n) := by
    rw [midpoint,magnitude_grid onGrid.fits onGrid.leading]
    linarith
  have under : q ≤ (n + 1 / 2) * spacing binade := by
    have bound := (abs_le.mp onGrid.near).2
    rw [sub_le_iff_le_add,div_le_iff₀ positive] at bound
    linarith
  refine ⟨under.trans above,fun tie => even_grid.mpr (onGrid.tie ?_)⟩
  have same : q = (n + 1 / 2) * spacing binade := le_antisymm under (tie ▸ above)
  rw [same,mul_div_cancel_right₀ _ positive.ne',add_sub_cancel_left]
  norm_num

theorem OnGrid.midpoint_le (onGrid : OnGrid q binade n) (previous : rank + 1 = binade * fractionCount + n) :
    midpoint rank ≤ q ∧ (midpoint rank = q → Even (rank + 1)) := by
  have positive := spacing_pos binade
  have here := magnitude_grid onGrid.fits onGrid.leading
  by_cases least : binade ≠ 0 ∧ n = fractionCount
  · -- The magnitude before lies on the finer grid below, and `near` says nothing of it.
    have reached : magnitude (rank + 1) ≤ q := by
      rw [previous,here,least.2]
      exact onGrid.reach.resolve_left least.1
    have lower := magnitude_strictMono (Nat.lt_succ_self rank)
    have strict : midpoint rank < q := by
      unfold midpoint
      linarith
    exact ⟨strict.le,fun tie => absurd tie strict.ne⟩
  · obtain ⟨m,rfl⟩ : ∃ m, n = m + 1 := by
      apply Nat.exists_eq_add_one_of_ne_zero
      intro zero
      have leading := onGrid.leading
      simp only [fractionCount] at leading previous
      omega
    have leading : binade = 0 ∨ fractionCount ≤ m := by
      have leading := onGrid.leading
      omega
    have before : rank = binade * fractionCount + m := Nat.succ_injective previous
    have under : (m + 1 / 2) * spacing binade ≤ q := by
      have bound := (abs_le.mp onGrid.near).1
      rw [le_sub_iff_add_le,le_div_iff₀ positive] at bound
      push_cast at bound
      linarith
    have same : midpoint rank = (m + 1 / 2) * spacing binade := by
      rw [midpoint,previous,here,before,magnitude_grid (Nat.le_of_succ_le onGrid.fits) leading,Nat.cast_succ]
      ring
    refine ⟨same.trans_le under,fun tie => ?_⟩
    rw [previous,even_grid]
    refine onGrid.tie ?_
    rw [← tie,same,mul_div_cancel_right₀ _ positive.ne',Nat.cast_succ]
    norm_num

end

-- The law of rounding: a number is taken past a magnitude if it lies past the point
-- halfway to the next, or on it and the next is the even one.
theorem lt_nearestRank_iff {numerator denominator rank : Nat} (positive : 0 < denominator)
    (finite : rank < infinityRank) :
    rank < nearestRank numerator denominator ↔
      midpoint rank < numerator / denominator ∨
        (midpoint rank = numerator / denominator ∧ Even (rank + 1)) := by
  obtain ⟨binade,n,onGrid,chosen⟩ := nearestRank_grid numerator positive
  rw [chosen,lt_min_iff,and_iff_left finite]
  constructor
  · intro below
    obtain ⟨last,previous⟩ := Nat.exists_eq_add_one_of_ne_zero (Nat.ne_zero_of_lt below)
    obtain ⟨under,tie⟩ := onGrid.midpoint_le previous.symm
    rw [previous] at below
    rcases Nat.lt_or_eq_of_le (Nat.le_of_lt_succ below) with further | rfl
    · exact .inl ((midpoint_strictMono further).trans_le under)
    · exact (lt_or_eq_of_le under).imp_right fun same => ⟨same,tie same⟩
  · intro past
    by_contra stops
    obtain ⟨above,tie⟩ := onGrid.le_midpoint
    have order := midpoint_strictMono.monotone (not_lt.mp stops)
    rcases past with further | ⟨same,even⟩
    · exact absurd (above.trans order) (not_le.mpr further)
    · have here : binade * fractionCount + n = rank :=
        midpoint_strictMono.injective (le_antisymm order (same.trans_le above))
      rw [here] at tie
      exact absurd (tie same.symm) (Nat.even_add_one.mp even)

theorem nearestRank_le (numerator denominator : Nat) : nearestRank numerator denominator ≤ infinityRank :=
  Nat.min_le_right _ _

theorem nearestRank_eq {numerator denominator rank : Nat} (fits : rank ≤ infinityRank)
    (same : ∀ r < infinityRank, r < nearestRank numerator denominator ↔ r < rank) :
    nearestRank numerator denominator = rank := by
  apply le_antisymm
  · by_contra more
    have past := lt_of_not_ge more
    exact absurd ((same rank (past.trans_le (nearestRank_le _ _))).mp past) (lt_irrefl rank)
  · by_contra less
    have short := lt_of_not_ge less
    exact absurd ((same _ (short.trans_le fits)).mpr short) (lt_irrefl _)

theorem nearestRank_congr {numerator denominator other divisor : Nat} (positive : 0 < denominator)
    (nonzero : 0 < divisor) (same : (numerator / denominator : ℚ) = other / divisor) :
    nearestRank numerator denominator = nearestRank other divisor := by
  apply nearestRank_eq (nearestRank_le _ _)
  intro r finite
  rw [lt_nearestRank_iff positive finite,lt_nearestRank_iff nonzero finite,same]

theorem nearestRank_magnitude {numerator denominator rank : Nat} (positive : 0 < denominator)
    (fits : rank ≤ infinityRank) (exact : (numerator / denominator : ℚ) = magnitude rank) :
    nearestRank numerator denominator = rank := by
  apply nearestRank_eq fits
  intro r finite
  rw [lt_nearestRank_iff positive finite,exact]
  rcases Nat.lt_or_ge r rank with below | reached
  · exact iff_of_true (.inl (midpoint_lt_magnitude below)) below
  · have short := magnitude_lt_midpoint reached
    exact iff_of_false (not_or.mpr ⟨short.not_gt,fun tie => short.ne' tie.1⟩) reached.not_gt

theorem nearer_above {low high far q : ℚ} (order : low < high) (further : far ≤ low)
    (past : (low + high) / 2 ≤ q) :
    |q - high| ≤ |q - far| ∧ (|q - high| = |q - far| → (low + high) / 2 = q) := by
  have distance : |q - far| = q - far := abs_of_nonneg (by linarith)
  rw [distance]
  refine ⟨abs_le.mpr ⟨by linarith,by linarith⟩,fun tie => ?_⟩
  rcases abs_choice (q - high) with above | below
  · linarith
  · linarith

theorem nearer_below {low high far q : ℚ} (order : low < high) (further : high ≤ far)
    (short : q ≤ (low + high) / 2) :
    |q - low| ≤ |q - far| ∧ (|q - low| = |q - far| → q = (low + high) / 2) := by
  obtain ⟨near,tie⟩ := nearer_above (q := -q) (neg_lt_neg order) (neg_le_neg further) (by linarith)
  rw [neg_sub_neg,neg_sub_neg,abs_sub_comm low,abs_sub_comm far] at near tie
  exact ⟨near,fun same => by linarith [tie same]⟩

theorem nearestRank_nearest {numerator denominator : Nat} (positive : 0 < denominator)
    (finite : nearestRank numerator denominator < infinityRank) (rank : Nat) :
    let chosen := nearestRank numerator denominator
    let q : ℚ := numerator / denominator
    |q - magnitude chosen| ≤ |q - magnitude rank| ∧
      (|q - magnitude chosen| = |q - magnitude rank| → rank = chosen ∨ Even chosen) := by
  intro chosen q
  have law (r : Nat) (r_finite : r < infinityRank) : r < chosen ↔
      midpoint r < q ∨ (midpoint r = q ∧ Even (r + 1)) := lt_nearestRank_iff positive r_finite
  rcases lt_trichotomy rank chosen with below | rfl | above
  · obtain ⟨last,previous⟩ := Nat.exists_eq_add_one_of_ne_zero (Nat.ne_zero_of_lt below)
    have passed := (law last (by omega)).mp (by omega)
    have order := magnitude_strictMono (Nat.lt_succ_self last)
    have further := magnitude_strictMono.monotone (show rank ≤ last by omega)
    obtain ⟨near,tie⟩ := nearer_above order further (passed.elim le_of_lt fun same => same.1.le)
    rw [previous]
    refine ⟨near,fun same => .inr ?_⟩
    exact (passed.resolve_left (tie same).not_lt).2
  · exact ⟨le_rfl,fun _ => .inl rfl⟩
  · have short := (law chosen finite).not.mp (lt_irrefl chosen)
    have order := magnitude_strictMono (Nat.lt_succ_self chosen)
    have further := magnitude_strictMono.monotone (Nat.succ_le_of_lt above)
    rw [not_or,not_lt] at short
    obtain ⟨near,tie⟩ := nearer_below order further short.1
    refine ⟨near,fun same => .inr ?_⟩
    by_contra odd
    exact short.2 ⟨(tie same).symm,Nat.even_add_one.mpr odd⟩

theorem nearestRank_eq_zero {numerator denominator : Nat} (positive : 0 < denominator) :
    nearestRank numerator denominator = 0 ↔ (numerator / denominator : ℚ) ≤ 1 / 2 ^ 1075 := by
  have half : midpoint 0 = 1 / 2 ^ 1075 := by
    have least : magnitude 1 = 1 / 2 ^ 1074 := by
      simp [magnitude,stepsOfRank,significand,fractionCount,doublings]
    rw [midpoint,magnitude_zero,zero_add,least,div_div,← pow_succ]
  have law : 0 < nearestRank numerator denominator ↔ midpoint 0 < numerator / denominator :=
    (lt_nearestRank_iff positive (by decide)).trans (or_iff_left fun tie => absurd tie.2 (by decide))
  rw [← half,← not_lt,← law,Nat.pos_iff_ne_zero,not_not]

theorem nearestRank_eq_infinity {numerator denominator : Nat} (positive : 0 < denominator) :
    nearestRank numerator denominator = infinityRank ↔
      (2 ^ 1024 - 2 ^ 970 : ℚ) ≤ numerator / denominator := by
  have last : infinityRank - 1 = 2045 * fractionCount + (2 * fractionCount - 1) := by decide
  have past : infinityRank - 1 + 1 = 2045 * fractionCount + 2 * fractionCount := by decide
  have step : spacing 2045 = 2 * 2 ^ 970 := by
    rw [spacing,div_eq_iff (by positivity),← pow_succ',← pow_add]
  have power : (2 : ℚ) ^ 1024 = 2 ^ 54 * 2 ^ 970 := by rw [← pow_add]
  have threshold : midpoint (infinityRank - 1) = 2 ^ 1024 - 2 ^ 970 := by
    rw [midpoint,past,last,magnitude_grid (by decide) (.inr (by decide)),
      magnitude_grid (by decide) (.inr (by decide)),step,power]
    generalize (2 : ℚ) ^ 970 = p
    simp only [fractionCount]
    norm_num
    ring
  have law : infinityRank - 1 < nearestRank numerator denominator ↔
      midpoint (infinityRank - 1) ≤ numerator / denominator := by
    rw [lt_nearestRank_iff positive (by decide),and_iff_left (by decide),le_iff_lt_or_eq]
  have most := nearestRank_le numerator denominator
  rw [← threshold,← law]
  simp only [infinityRank,fractionCount] at *
  omega

end Binary64

end ScriptLexer
