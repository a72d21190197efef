import BranchForm.Number.Binary64
import Mathlib

/-!
# Rounding to the format

The number nearest to a quotient depends on the value of the quotient alone, and what rounding comes
to is its own nearest number. Both are shown over the rational numbers, in which a scaled quotient is
a quotient times a power.

* `ratio_scale` : scaling multiplies the quotient; `roundDiv_congr` and `exponentFor_eq` say that
  the rounded quotient and the exponent depend on it alone;
* `Canonical` significands and exponents are those of the finite numbers other than zero, `Regular`
  numbers those with one representation;
* `ofRatio_congr` : equal quotients are rounded alike; `ofRatio_of_canonical` : a number of the
  format is its own nearest number; `regular_ofRatio` : rounding gives regular numbers;
* `ofDecimal_mul_pow` : zeros behind decimal digits count as powers of ten.
-/

namespace BranchForm.Binary64

variable {num den num' den' : Nat}

/-! ### Scaled quotients -/

theorem scale_den_pos {base : Nat} (hbase : 0 < base) (hden : 0 < den) (power : Int) (num : Nat) :
    0 < (scale base power num den).2 := by
  cases power with
  | ofNat k => exact hden
  | negSucc k => exact Nat.mul_pos hden (Nat.pow_pos hbase)

/-- Scaling multiplies a quotient by a power of the base. -/
theorem ratio_scale (num den base : Nat) (power : Int) :
    ((scale base power num den).1 : ℚ) / (scale base power num den).2 =
      (num / den : ℚ) * (base : ℚ) ^ power := by
  cases power with
  | ofNat k =>
    have hpow : base.pow k = base ^ k := rfl
    simp only [scale, hpow, Int.ofNat_eq_natCast, zpow_natCast, Nat.cast_mul, Nat.cast_pow]
    rw [mul_div_right_comm]
  | negSucc k =>
    have hpow : base.pow (k + 1) = base ^ (k + 1) := rfl
    simp only [scale, hpow, zpow_negSucc, Nat.cast_mul, Nat.cast_pow]
    rw [div_mul_eq_div_div, div_eq_mul_inv]

/-! ### Rounded quotients -/

theorem roundDiv_mul {k : Nat} (hk : 0 < k) (num den : Nat) :
    roundDiv (num * k) (den * k) = roundDiv num den := by
  have hbelow : 2 * (num % den * k) < den * k ↔ 2 * (num % den) < den := by
    rw [← Nat.mul_assoc, Nat.mul_lt_mul_right hk]
  have habove : den * k < 2 * (num % den * k) ↔ den < 2 * (num % den) := by
    rw [← Nat.mul_assoc, Nat.mul_lt_mul_right hk]
  simp only [roundDiv, Nat.mul_div_mul_right _ _ hk, Nat.mul_mod_mul_right, hbelow, habove]

/-- The rounded quotient depends on the quotient alone. -/
theorem roundDiv_congr (hden : 0 < den) (hden' : 0 < den') (h : (num / den : ℚ) = num' / den') :
    roundDiv num den = roundDiv num' den' := by
  have hcross : num * den' = num' * den := by
    have hne : (den : ℚ) ≠ 0 := by positivity
    have hne' : (den' : ℚ) ≠ 0 := by positivity
    exact_mod_cast (div_eq_div_iff hne hne').1 h
  calc roundDiv num den = roundDiv (num * den') (den * den') := (roundDiv_mul hden' num den).symm
    _ = roundDiv (num' * den) (den' * den) := by rw [hcross, Nat.mul_comm den]
    _ = roundDiv num' den' := roundDiv_mul hden num' den'

theorem roundDiv_one (m : Nat) : roundDiv m 1 = m := by
  simp [roundDiv, Nat.mod_one]

/-- A whole quotient is not changed. -/
theorem roundDiv_of_eq {m : Nat} (hden : 0 < den) (h : (num / den : ℚ) = m) :
    roundDiv num den = m := by
  have hratio : (num / den : ℚ) = (m : Nat) / (1 : Nat) := by simpa using h
  rw [roundDiv_congr hden Nat.one_pos hratio, roundDiv_one]

theorem roundDiv_le {m : Nat} (hden : 0 < den) (h : num ≤ m * den) : roundDiv num den ≤ m := by
  have hle : num / den ≤ m := by
    rw [Nat.mul_comm] at h
    exact Nat.div_le_of_le_mul h
  have hsplit : den * (num / den) + num % den = num := Nat.div_add_mod num den
  -- at the bound itself nothing remains, so nothing is rounded up
  have hrest : num / den = m → num % den = 0 := by
    intro heq
    rw [heq, Nat.mul_comm] at hsplit
    omega
  have hlt : num % den < den := Nat.mod_lt _ hden
  unfold roundDiv
  dsimp only
  split_ifs <;> omega

theorem le_roundDiv {m : Nat} (hden : 0 < den) (h : m * den ≤ num) : m ≤ roundDiv num den := by
  have hle : m ≤ num / den := (Nat.le_div_iff_mul_le hden).2 h
  unfold roundDiv
  dsimp only
  split_ifs <;> omega

/-! ### Exponents -/

theorem ratio_pos (hnum : num ≠ 0) (hden : 0 < den) : (0 : ℚ) < num / den :=
  div_pos (by exact_mod_cast Nat.pos_of_ne_zero hnum) (by exact_mod_cast hden)

/-- The binary logarithms of the parts of a quotient enclose its own one. -/
theorem log_ratio_bounds (hnum : num ≠ 0) (hden : 0 < den) :
    (Nat.log2 num : Int) - Nat.log2 den - 1 ≤ Int.log 2 (num / den : ℚ) ∧
      Int.log 2 (num / den : ℚ) < (Nat.log2 num : Int) - Nat.log2 den + 1 := by
  have hpos := ratio_pos hnum hden
  have hnumPos : (0 : ℚ) < num := by exact_mod_cast Nat.pos_of_ne_zero hnum
  have hdenPos : (0 : ℚ) < den := by exact_mod_cast hden
  have hnumLow : (2 : ℚ) ^ (Nat.log2 num : Int) ≤ num := by
    exact_mod_cast Nat.log2_self_le hnum
  have hnumHigh : (num : ℚ) < 2 ^ ((Nat.log2 num : Int) + 1) := by
    exact_mod_cast Nat.lt_log2_self (n := num)
  have hdenLow : (2 : ℚ) ^ (Nat.log2 den : Int) ≤ den := by
    exact_mod_cast Nat.log2_self_le (Nat.ne_of_gt hden)
  have hdenHigh : (den : ℚ) < 2 ^ ((Nat.log2 den : Int) + 1) := by
    exact_mod_cast Nat.lt_log2_self (n := den)
  have htwo : (2 : ℚ) ≠ 0 := two_ne_zero
  constructor
  · rw [← Int.zpow_le_iff_le_log (by decide) hpos, le_div_iff₀ hdenPos, Nat.cast_ofNat]
    calc (2 : ℚ) ^ ((Nat.log2 num : Int) - Nat.log2 den - 1) * den
        ≤ 2 ^ ((Nat.log2 num : Int) - Nat.log2 den - 1) * 2 ^ ((Nat.log2 den : Int) + 1) := by
          gcongr
      _ = 2 ^ (Nat.log2 num : Int) := by
          rw [← zpow_add₀ htwo]
          congr 1
          omega
      _ ≤ num := hnumLow
  · rw [← Int.lt_zpow_iff_log_lt (by decide) hpos, div_lt_iff₀ hdenPos, Nat.cast_ofNat]
    calc (num : ℚ) < 2 ^ ((Nat.log2 num : Int) + 1) := hnumHigh
      _ = 2 ^ ((Nat.log2 num : Int) - Nat.log2 den + 1) * 2 ^ (Nat.log2 den : Int) := by
          rw [← zpow_add₀ htwo]
          congr 1
          omega
      _ ≤ 2 ^ ((Nat.log2 num : Int) - Nat.log2 den + 1) * den := by gcongr

/-- A scaled quotient is below a power of two if the logarithm is below the sum of the exponents. -/
theorem scale_lt_iff (hnum : num ≠ 0) (hden : 0 < den) (power : Int) (bits : Nat) :
    (scale 2 power num den).1 < (scale 2 power num den).2 * 2 ^ bits ↔
      Int.log 2 (num / den : ℚ) < bits - power := by
  have hpos := ratio_pos hnum hden
  have hscaled : (0 : ℚ) < (scale 2 power num den).2 := by
    exact_mod_cast scale_den_pos (by decide) hden power num
  have hpower : (0 : ℚ) < 2 ^ power := zpow_pos two_pos power
  have hratio := ratio_scale num den 2 power
  have hsplit : (2 : ℚ) ^ ((bits : Int) - power) = 2 ^ bits / 2 ^ power := by
    rw [zpow_sub₀ two_ne_zero, zpow_natCast]
  rw [← Int.lt_zpow_iff_log_lt (by decide) hpos, Nat.cast_ofNat, hsplit, lt_div_iff₀ hpower]
  rw [Nat.cast_ofNat] at hratio
  rw [← hratio, div_lt_iff₀ hscaled, mul_comm ((2 : ℚ) ^ bits)]
  exact_mod_cast Iff.rfl

/-- The exponent of a quotient depends on its logarithm alone. -/
theorem exponentFor_eq (hnum : num ≠ 0) (hden : 0 < den) :
    exponentFor num den = max (Int.log 2 (num / den : ℚ) - 52) (-1074) := by
  obtain ⟨hlow, hhigh⟩ := log_ratio_bounds hnum hden
  have hguess := scale_lt_iff hnum hden (-((Nat.log2 num : Int) - Nat.log2 den - 52)) 52
  unfold exponentFor
  dsimp only
  have hpow : Nat.pow 2 52 = 2 ^ 52 := rfl
  rw [hpow]
  split_ifs with h
  · rw [hguess] at h
    congr 1
    omega
  · rw [hguess] at h
    congr 1
    omega

/-! ### Numbers of the format -/

/-- The significand and the exponent of a finite number other than zero. -/
structure Canonical (m : Nat) (e : Int) : Prop where
  /-- It is not zero. -/
  pos : 0 < m
  /-- The significand has at most 53 bits. -/
  lt : m < 2 ^ 53
  /-- The exponent is not below that of the format. -/
  least : -1074 ≤ e
  /-- The exponent is not above that of the format. -/
  most : e ≤ 971
  /-- Only at the least exponent are there fewer than 53 bits. -/
  full : 2 ^ 52 ≤ m ∨ e = -1074

/-- A number in the one representation it has. -/
def Regular : Binary64 → Prop
  | .finite _ m e => m = 0 ∧ e = 0 ∨ Canonical m e
  | .infinite _ | .nan => True

/-- The significand of the number nearest to a quotient, before it is carried over to the next
exponent. -/
def significandFor (num den : Nat) : Nat :=
  roundDiv (scale 2 (-exponentFor num den) num den).1 (scale 2 (-exponentFor num den) num den).2

/-- A number of at most 53 bits and a carry, fitted into the format. -/
def packed (negative : Bool) (m : Nat) (e : Int) : Binary64 :=
  if m = 2 ^ 53 then
    if e + 1 > 971 then .infinite negative else .finite negative (2 ^ 52) (e + 1)
  else if m = 0 then .finite negative 0 0
  else if e > 971 then .infinite negative
  else .finite negative m e

theorem ofRatio_eq (negative : Bool) (hnum : num ≠ 0) :
    ofRatio negative num den = packed negative (significandFor num den) (exponentFor num den) := by
  rw [ofRatio, if_neg hnum, significandFor]
  -- exponent, quotient and significand become variables before anything is unfolded: the exponent
  -- of a variable must not be computed
  generalize exponentFor num den = exponent
  extract_lets e
  clear_value (he : e = exponent)
  rw [← he]
  generalize scale 2 (-e) num den = quotient
  obtain ⟨n, d⟩ := quotient
  dsimp only
  generalize roundDiv n d = m
  by_cases hcarry : m = 2 ^ 53
  · have hne : (2 : Nat) ^ 52 ≠ 0 := by decide
    simp only [packed, Nat.pow_eq, hcarry, ↓reduceIte, if_neg hne]
  · simp only [packed, Nat.pow_eq, if_neg hcarry]

/-- Equal quotients are rounded alike. -/
theorem ofRatio_congr (negative : Bool) (hden : 0 < den) (hden' : 0 < den')
    (h : (num / den : ℚ) = num' / den') : ofRatio negative num den = ofRatio negative num' den' := by
  have hne : (den : ℚ) ≠ 0 := by positivity
  have hne' : (den' : ℚ) ≠ 0 := by positivity
  by_cases hnum : num = 0
  · have hnum' : num' = 0 := by
      rw [hnum, Nat.cast_zero, zero_div, eq_comm, div_eq_zero_iff] at h
      exact_mod_cast h.resolve_right hne'
    rw [hnum, hnum', ofRatio, ofRatio, if_pos rfl, if_pos rfl]
  · have hnum' : num' ≠ 0 := by
      rintro rfl
      rw [Nat.cast_zero, zero_div, div_eq_zero_iff] at h
      exact hnum (by exact_mod_cast h.resolve_right hne)
    have hexponent : exponentFor num den = exponentFor num' den' := by
      rw [exponentFor_eq hnum hden, exponentFor_eq hnum' hden', h]
    have hsignificand : significandFor num den = significandFor num' den' := by
      unfold significandFor
      rw [hexponent]
      refine roundDiv_congr (scale_den_pos (by decide) hden _ _)
        (scale_den_pos (by decide) hden' _ _) ?_
      rw [ratio_scale, ratio_scale, h]
    rw [ofRatio_eq negative hnum, ofRatio_eq negative hnum', hexponent, hsignificand]

theorem negate_packed (m : Nat) (e : Int) : packed true m e = (packed false m e).negate := by
  unfold packed
  split_ifs <;> rfl

/-- The sign has no part in rounding. -/
theorem negate_ofRatio (num den : Nat) : ofRatio true num den = (ofRatio false num den).negate := by
  by_cases hnum : num = 0
  · rw [ofRatio, ofRatio, if_pos hnum, if_pos hnum]
    rfl
  · rw [ofRatio_eq true hnum, ofRatio_eq false hnum, negate_packed]

/-- The logarithm of a number of the format is that of its significand, shifted. -/
theorem Canonical.exponentFor {m : Nat} {e : Int} (h : Canonical m e) (hnum : num ≠ 0)
    (hden : 0 < den) (hx : (num / den : ℚ) = m * (2 : ℚ) ^ e) :
    Binary64.exponentFor num den = e := by
  have hpos := ratio_pos hnum hden
  have hpower : (0 : ℚ) < 2 ^ e := zpow_pos two_pos e
  have hbelow : Int.log 2 (num / den : ℚ) < e + 53 := by
    rw [← Int.lt_zpow_iff_log_lt (by decide) hpos, hx, Nat.cast_ofNat, add_comm,
      zpow_add₀ two_ne_zero]
    have hlt : (m : ℚ) < 2 ^ (53 : Int) := by exact_mod_cast h.lt
    gcongr
  rw [exponentFor_eq hnum hden]
  have hleast := h.least
  rcases h.full with hfull | rfl
  · have habove : e + 52 ≤ Int.log 2 (num / den : ℚ) := by
      rw [← Int.zpow_le_iff_le_log (by decide) hpos, hx, Nat.cast_ofNat, add_comm,
        zpow_add₀ two_ne_zero]
      have hle : (2 : ℚ) ^ (52 : Int) ≤ m := by exact_mod_cast hfull
      gcongr
    omega
  · omega

/-- A number of the format is its own nearest number. -/
theorem ofRatio_of_canonical {m : Nat} {e : Int} (h : Canonical m e) (hden : 0 < den)
    (hx : (num / den : ℚ) = m * (2 : ℚ) ^ e) (negative : Bool) :
    ofRatio negative num den = .finite negative m e := by
  have hnum : num ≠ 0 := by
    rintro rfl
    have hpos : (0 : ℚ) < m * (2 : ℚ) ^ e :=
      mul_pos (by exact_mod_cast h.pos) (zpow_pos two_pos e)
    rw [Nat.cast_zero, zero_div] at hx
    exact absurd hx (ne_of_lt hpos)
  have hexponent := h.exponentFor hnum hden hx
  have hsignificand : significandFor num den = m := by
    unfold significandFor
    rw [hexponent]
    refine roundDiv_of_eq (scale_den_pos (by decide) hden _ _) ?_
    rw [ratio_scale, hx, Nat.cast_ofNat, mul_assoc, ← zpow_add₀ two_ne_zero, add_neg_cancel,
      zpow_zero, mul_one]
  have hcarry : m ≠ 2 ^ 53 := Nat.ne_of_lt h.lt
  have hzero : m ≠ 0 := Nat.ne_of_gt h.pos
  rw [ofRatio_eq negative hnum, hexponent, hsignificand, packed, if_neg hcarry, if_neg hzero,
    if_neg (not_lt.2 h.most)]

/-- The rounded significand has at most 53 bits and a carry, and fewer than 53 only at the least
exponent. -/
theorem significandFor_bounds (hnum : num ≠ 0) (hden : 0 < den) :
    significandFor num den ≤ 2 ^ 53 ∧
      (2 ^ 52 ≤ significandFor num den ∨ exponentFor num den = -1074) := by
  have hexponent := exponentFor_eq hnum hden
  have hscaled := scale_den_pos (by decide : 0 < 2) hden (-exponentFor num den) num
  constructor
  · refine roundDiv_le hscaled (Nat.le_of_lt ?_)
    rw [Nat.mul_comm, scale_lt_iff hnum hden]
    omega
  · by_cases hleast : exponentFor num den = -1074
    · exact .inr hleast
    · refine .inl (le_roundDiv hscaled ?_)
      rw [Nat.mul_comm, ← not_lt, scale_lt_iff hnum hden]
      omega

theorem regular_packed {m : Nat} {e : Int} (hm : m ≤ 2 ^ 53) (he : -1074 ≤ e)
    (hfull : 2 ^ 52 ≤ m ∨ e = -1074) (negative : Bool) : Regular (packed negative m e) := by
  unfold packed
  split_ifs with hcarry hhigh hzero hhigh
  · trivial
  · exact .inr ⟨by decide, by decide, by omega, by omega, .inl (Nat.le_refl _)⟩
  · exact .inl ⟨rfl, rfl⟩
  · trivial
  · exact .inr ⟨by omega, by omega, he, by omega, hfull⟩

/-- Rounding gives a number in the one representation it has. -/
theorem regular_ofRatio (negative : Bool) (num : Nat) (hden : 0 < den) :
    Regular (ofRatio negative num den) := by
  by_cases hnum : num = 0
  · rw [ofRatio, if_pos hnum]
    exact .inl ⟨rfl, rfl⟩
  · obtain ⟨hm, hfull⟩ := significandFor_bounds hnum hden
    have hleast : -1074 ≤ exponentFor num den := by
      rw [exponentFor_eq hnum hden]
      omega
    rw [ofRatio_eq negative hnum]
    exact regular_packed hm hleast hfull negative

/-! ### Decimal digits -/

/-- Digits that stand for a number in the range of the format are rounded as a quotient. -/
theorem ofDecimal_eq (negative : Bool) (digits : Nat) (power : Int) :
    ofDecimal negative digits power =
      if digits = 0 then .finite negative 0 0
      else if (Nat.toDigits 10 digits).length + power > 320 then .infinite negative
      else if (Nat.toDigits 10 digits).length + power < -340 then .finite negative 0 0
      else ofRatio negative (scale 10 power digits 1).1 (scale 10 power digits 1).2 := rfl

theorem regular_ofDecimal (negative : Bool) (digits : Nat) (power : Int) :
    Regular (ofDecimal negative digits power) := by
  rw [ofDecimal_eq]
  split_ifs
  · exact .inl ⟨rfl, rfl⟩
  · trivial
  · exact .inl ⟨rfl, rfl⟩
  · exact regular_ofRatio negative _ (scale_den_pos (by decide) Nat.one_pos power _)

theorem negate_ofDecimal (digits : Nat) (power : Int) :
    ofDecimal true digits power = (ofDecimal false digits power).negate := by
  rw [ofDecimal_eq, ofDecimal_eq]
  split_ifs
  · rfl
  · rfl
  · rfl
  · exact negate_ofRatio _ _

/-- A zero behind the digits of a number is one more digit. -/
theorem length_toDigits_mul_pow {digits : Nat} (h : digits ≠ 0) (zeros : Nat) :
    (Nat.toDigits 10 (digits * 10 ^ zeros)).length = (Nat.toDigits 10 digits).length + zeros := by
  induction zeros with
  | zero => simp
  | succ zeros ih =>
    have hbase : 10 ≤ digits * 10 ^ zeros * 10 :=
      Nat.le_mul_of_pos_left 10 (Nat.mul_pos (Nat.pos_of_ne_zero h) (Nat.pow_pos (by decide)))
    rw [Nat.pow_succ, ← Nat.mul_assoc, Nat.toDigits_of_base_le (by decide) hbase,
      Nat.mul_div_cancel _ (by decide), List.length_append, ih]
    rfl

/-- Zeros behind decimal digits count as powers of ten. -/
theorem ofDecimal_mul_pow {digits : Nat} (h : digits ≠ 0) (zeros : Nat) (negative : Bool)
    (power : Int) :
    ofDecimal negative (digits * 10 ^ zeros) power = ofDecimal negative digits (power + zeros) := by
  have hne : digits * 10 ^ zeros ≠ 0 := Nat.mul_ne_zero h (Nat.pow_pos (by decide)).ne'
  have hsize : ((Nat.toDigits 10 (digits * 10 ^ zeros)).length : Int) + power =
      (Nat.toDigits 10 digits).length + (power + zeros) := by
    rw [length_toDigits_mul_pow h]
    push_cast
    omega
  have hratio : ofRatio negative (scale 10 power (digits * 10 ^ zeros) 1).1
        (scale 10 power (digits * 10 ^ zeros) 1).2 =
      ofRatio negative (scale 10 (power + zeros) digits 1).1
        (scale 10 (power + zeros) digits 1).2 := by
    refine ofRatio_congr negative (scale_den_pos (by decide) Nat.one_pos _ _)
      (scale_den_pos (by decide) Nat.one_pos _ _) ?_
    have hten : ((10 : Nat) : ℚ) ≠ 0 := by norm_num
    rw [ratio_scale, ratio_scale, zpow_add₀ hten, zpow_natCast]
    push_cast
    ring
  rw [ofDecimal_eq, ofDecimal_eq, if_neg h, if_neg hne, hsize, hratio]

end BranchForm.Binary64
