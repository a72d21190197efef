import BranchForm.Proofs.JsonText
import BranchForm.Proofs.Rounding

/-!
# The text of a number read back

The shortest digits of a number are searched for among the few that can be it, and the exact
expansion stands behind them; either way they are read as the number. Laid out with a point or an
exponent they are read as the same digits, since neither the zeros that are trimmed nor those that
are filled in change the value.

* `Binary64.ofDecimal_of_canonical` : decimal digits of the exact value of a number are read as it;
* `Binary64.ofDecimal_shortest` : so are its shortest digits;
* `Json.numberFrom_float` is what is read behind the first digits of a number, and
  `Json.reads_positional` and `Json.reads_scientific` read the two layouts;
* `Json.legible_of_regular` : a number in the one representation it has is read back from its text.
-/

namespace BranchForm

namespace Binary64

/-! ### Shortest digits -/

variable {m : Nat} {e : Int} {digits : Nat} {power : Int}

/-- The numbers of the format lie between two powers of ten. -/
theorem Canonical.value_bounds (h : Canonical m e) :
    (10 : ℚ) ^ (-324 : Int) ≤ m * (2 : ℚ) ^ e ∧ m * (2 : ℚ) ^ e < (10 : ℚ) ^ (309 : Int) := by
  have hpower : (0 : ℚ) < 2 ^ e := zpow_pos two_pos e
  constructor
  · have hm : (1 : ℚ) ≤ m := by exact_mod_cast h.pos
    have hle : (2 : ℚ) ^ 1074 ≤ 10 ^ 324 := by
      have hnat : (2 : Nat) ^ 1074 ≤ 10 ^ 324 := by decide +kernel
      have hcast : ((2 ^ 1074 : Nat) : ℚ) ≤ (10 ^ 324 : Nat) := Nat.cast_le.2 hnat
      rwa [Nat.cast_pow, Nat.cast_pow, Nat.cast_ofNat, Nat.cast_ofNat] at hcast
    calc (10 : ℚ) ^ (-324 : Int) = (10 ^ 324)⁻¹ := by rw [zpow_neg, zpow_ofNat]
      _ ≤ (2 ^ 1074)⁻¹ := inv_anti₀ (pow_pos two_pos 1074) hle
      _ = (2 : ℚ) ^ (-1074 : Int) := by rw [zpow_neg, zpow_ofNat]
      _ ≤ (2 : ℚ) ^ e := zpow_le_zpow_right₀ one_le_two h.least
      _ ≤ m * (2 : ℚ) ^ e := le_mul_of_one_le_left hpower.le hm
  · have hm : (m : ℚ) < 2 ^ 53 := by exact_mod_cast h.lt
    have hlt : (2 : ℚ) ^ 53 * 2 ^ 971 < 10 ^ 309 := by
      have hnat : (2 : Nat) ^ 53 * 2 ^ 971 < 10 ^ 309 := by decide +kernel
      exact_mod_cast hnat
    calc m * (2 : ℚ) ^ e < 2 ^ 53 * (2 : ℚ) ^ e := by gcongr
      _ ≤ 2 ^ 53 * (2 : ℚ) ^ (971 : Int) := by
          gcongr
          · exact one_le_two
          · exact h.most
      _ < (10 : ℚ) ^ (309 : Int) := by exact_mod_cast hlt

/-- A number lies between the powers of ten that its digits name. -/
theorem toDigits_bounds (h : digits ≠ 0) :
    (10 : ℚ) ^ ((Nat.toDigits 10 digits).length - 1 : Int) ≤ digits ∧
      (digits : ℚ) < (10 : ℚ) ^ ((Nat.toDigits 10 digits).length : Int) := by
  have hpos : 0 < (Nat.toDigits 10 digits).length := Nat.length_toDigits_pos
  have hhigh : digits < 10 ^ (Nat.toDigits 10 digits).length :=
    (Nat.length_toDigits_le_iff (by decide) hpos).1 (Nat.le_refl _)
  have hlow : 10 ^ ((Nat.toDigits 10 digits).length - 1) ≤ digits := by
    by_cases hone : (Nat.toDigits 10 digits).length = 1
    · rw [hone]
      exact Nat.pos_of_ne_zero h
    · rw [← Nat.not_lt, ← Nat.length_toDigits_le_iff (by decide) (by omega)]
      omega
  have hsub : ((Nat.toDigits 10 digits).length - 1 : Int) =
      ((Nat.toDigits 10 digits).length - 1 : Nat) := by omega
  rw [hsub, zpow_natCast, zpow_natCast]
  exact ⟨by exact_mod_cast hlow, by exact_mod_cast hhigh⟩

/-- Decimal digits of the exact value of a number are read as it. -/
theorem ofDecimal_of_canonical (h : Canonical m e)
    (hx : (digits : ℚ) * (10 : ℚ) ^ power = m * (2 : ℚ) ^ e) :
    ofDecimal false digits power = .finite false m e := by
  have hten : (10 : ℚ) ≠ 0 := by norm_num
  have hpower : (0 : ℚ) < 10 ^ power := zpow_pos (by norm_num) power
  obtain ⟨hleast, hmost⟩ := h.value_bounds
  have hdigits : digits ≠ 0 := by
    rintro rfl
    rw [Nat.cast_zero, zero_mul] at hx
    rw [← hx] at hleast
    exact absurd hleast (not_le.2 (zpow_pos (by norm_num) _))
  obtain ⟨hlow, hhigh⟩ := toDigits_bounds hdigits
  rw [← hx] at hleast hmost
  -- the value is enclosed by the powers of ten of its digits, so these are in the range
  have hnotHigh : (Nat.toDigits 10 digits).length + power ≤ 309 := by
    have hlt : (10 : ℚ) ^ (((Nat.toDigits 10 digits).length - 1 : Int) + power) <
        10 ^ (309 : Int) := by
      rw [zpow_add₀ hten]
      exact lt_of_le_of_lt (by gcongr) hmost
    have := (zpow_lt_zpow_iff_right₀ (by norm_num : (1 : ℚ) < 10)).1 hlt
    omega
  have hnotLow : -324 < (Nat.toDigits 10 digits).length + power := by
    have hlt : (10 : ℚ) ^ (-324 : Int) < 10 ^ ((Nat.toDigits 10 digits).length + power) := by
      rw [zpow_add₀ hten]
      exact lt_of_le_of_lt hleast (by gcongr)
    exact (zpow_lt_zpow_iff_right₀ (by norm_num : (1 : ℚ) < 10)).1 hlt
  rw [ofDecimal_eq, if_neg hdigits, if_neg (by omega), if_neg (by omega)]
  refine ofRatio_of_canonical h (scale_den_pos (by decide) Nat.one_pos power _) ?_ false
  rw [ratio_scale, ← hx]
  push_cast
  rw [div_one]

/-- Digits that were tried read as what they were tried for. -/
theorem ofDecimal_of_digitsAt {target : Binary64} {num den count : Nat}
    (h : digitsAt target num den count = some (digits, power)) :
    ofDecimal false digits power = target := by
  unfold digitsAt at h
  generalize scale 10 (-(decimalPoint num den - count)) num den = scaled at h
  obtain ⟨n, d⟩ := scaled
  dsimp only at h
  split at h
  · rename_i hlow
    obtain ⟨rfl, rfl⟩ := Prod.mk.inj (Option.some.inj h)
    rw [Bool.and_eq_true] at hlow
    exact eq_of_beq hlow.1
  · split at h
    · rename_i hhigh
      obtain ⟨rfl, rfl⟩ := Prod.mk.inj (Option.some.inj h)
      exact eq_of_beq hhigh
    · cases h

/-- The exact decimal expansion of a number. -/
def expansion (m : Nat) : Int → Nat × Int
  | .ofNat k => (m * 2 ^ k, 0)
  | .negSucc k => (m * 5 ^ (k + 1), -(k + 1 : Int))

theorem expansion_value (m : Nat) (e : Int) :
    ((expansion m e).1 : ℚ) * (10 : ℚ) ^ (expansion m e).2 = m * (2 : ℚ) ^ e := by
  cases e with
  | ofNat k =>
    simp only [expansion, Int.ofNat_eq_natCast, zpow_zero, mul_one, zpow_natCast]
    push_cast
    rfl
  | negSucc k =>
    have hneg : -((k : Int) + 1) = Int.negSucc k := by omega
    have hten : (10 : ℚ) ^ (k + 1) = 5 ^ (k + 1) * 2 ^ (k + 1) := by
      rw [← mul_pow]
      norm_num
    simp only [expansion, hneg, zpow_negSucc, hten]
    push_cast
    field_simp

/-- The digits of a number are found among those of at most seventeen places, or are its exact
expansion. -/
theorem shortest_cases (m : Nat) (e : Int) :
    (∃ num den count, digitsAt (.finite false m e) num den count = some (shortest m e)) ∨
      shortest m e = expansion m e := by
  unfold shortest
  generalize scale 2 e m 1 = scaled
  obtain ⟨num, den⟩ := scaled
  dsimp only
  split
  · rename_i found hfound
    obtain ⟨k, -, hk⟩ := List.exists_of_findSome?_eq_some hfound
    exact .inl ⟨num, den, k + 1, hk⟩
  · right
    cases e <;> rfl

/-- The shortest digits of a number are read as it. -/
theorem ofDecimal_shortest (h : Canonical m e) :
    ofDecimal false (shortest m e).1 (shortest m e).2 = .finite false m e := by
  rcases shortest_cases m e with ⟨num, den, count, hfound⟩ | hexact
  · exact ofDecimal_of_digitsAt hfound
  · rw [hexact]
    exact ofDecimal_of_canonical h (expansion_value m e)

theorem shortest_ne_zero (h : Canonical m e) : (shortest m e).1 ≠ 0 := by
  intro hzero
  have hread := ofDecimal_shortest h
  rw [hzero, ofDecimal_eq, if_pos rfl] at hread
  cases hread
  exact absurd h.pos (Nat.lt_irrefl 0)

/-- With a sign, too, the shortest digits of a number are read as it. -/
theorem ofDecimal_shortest_signed (h : Canonical m e) (negative : Bool) :
    ofDecimal negative (shortest m e).1 (shortest m e).2 = .finite negative m e := by
  cases negative with
  | false => exact ofDecimal_shortest h
  | true =>
    rw [negate_ofDecimal, ofDecimal_shortest h]
    rfl

end Binary64

namespace Json

open Binary64

/-! ### Decimal digits -/

theorem decimal_append (ds es : List Char) :
    decimal (ds ++ es) = es.foldl (fun n d => 10 * n + digitValue d) (decimal ds) :=
  List.foldl_append

theorem decimal_zeros_append (zeros : Nat) (ds : List Char) :
    decimal (List.replicate zeros '0' ++ ds) = decimal ds := by
  induction zeros with
  | zero => rfl
  | succ zeros ih => exact ih

theorem decimal_append_zeros (ds : List Char) (zeros : Nat) :
    decimal (ds ++ List.replicate zeros '0') = decimal ds * 10 ^ zeros := by
  induction zeros generalizing ds with
  | zero => simp
  | succ zeros ih =>
    have hone : decimal (ds ++ ['0']) = decimal ds * 10 := by
      rw [decimal_append]
      exact Nat.mul_comm 10 (decimal ds)
    rw [List.replicate_succ, List.append_cons, ih, hone, Nat.pow_succ, Nat.mul_assoc,
      Nat.mul_comm 10]

/-- The zeros at the end of digits are all that is trimmed. -/
theorem exists_trimZeros (ds : List Char) :
    ∃ zeros, ds = trimZeros ds ++ List.replicate zeros '0' := by
  refine ⟨(ds.reverse.takeWhile (· == '0')).length, ?_⟩
  have hsplit := List.takeWhile_append_dropWhile (p := (· == '0')) (l := ds.reverse)
  have hzeros : ds.reverse.takeWhile (· == '0') =
      List.replicate (ds.reverse.takeWhile (· == '0')).length '0' :=
    List.eq_replicate_iff.2 ⟨rfl, fun d hd => by simpa using List.mem_takeWhile_imp hd⟩
  rw [hzeros] at hsplit
  have hback := congrArg List.reverse hsplit
  rw [List.reverse_append, List.reverse_reverse, List.reverse_replicate] at hback
  exact hback.symm

/-! ### Numbers with a point or an exponent -/

section Layouts

variable {negative : Bool} {c : Char} {ds part eds rest tail r : List Char} {exponent : Option Int}

/-- What is read behind the first digits of a number with a point, an exponent or both. -/
theorem numberFrom_float (negative : Bool) (whole : List Char)
    (hfraction : fractionDigits tail = (part, r)) (hexponent : exponentPart r = (exponent, rest))
    (h : ¬ (part.isEmpty ∧ exponent = none)) :
    numberFrom negative whole tail =
      (some (.float (ofDecimal negative (decimal (whole ++ part))
        (exponent.getD 0 - part.length))), rest) := by
  simp only [numberFrom, hfraction, hexponent, if_neg h]

theorem fractionDigits_append (hpart : ∀ d ∈ part, d.isDigit = true) (hne : part ≠ [])
    (hr : ∀ d, r.head? = some d → d.isDigit = false) :
    fractionDigits ('.' :: (part ++ r)) = (part, r) := by
  simp [fractionDigits, digits_append hpart hr, hne]

theorem exponentPart_append (below : Bool) (heds : ∀ d ∈ eds, d.isDigit = true) (hne : eds ≠ [])
    (hrest : EndsNumber rest) :
    exponentPart ('e' :: (if below then '-' else '+') :: (eds ++ rest)) =
      (some (if below then -(decimal eds : Int) else decimal eds), rest) := by
  have hdigits := digits_append heds fun d hd => (hrest d hd).1
  cases below <;> simp [exponentPart, exponentSign, hdigits, hne]

/-- Digits with a point between them are read as all of them, with a power of ten. -/
theorem reads_point (negative : Bool) (hdigits : ∀ d ∈ c :: ds, d.isDigit = true)
    (hlead : c = '0' → ds = []) (hpart : ∀ d ∈ part, d.isDigit = true) (hne : part ≠ [])
    (hrest : EndsNumber rest) (left : Nat) :
    Reads (readUnsigned negative left (c :: ds ++ '.' :: (part ++ rest)))
      (.float (ofDecimal negative (decimal (c :: ds ++ part)) (-(part.length : Int)))) rest := by
  have hfraction := fractionDigits_append hpart hne fun d hd => (hrest d hd).1
  have hpoint : ∀ d, ('.' :: (part ++ rest)).head? = some d → d.isDigit = false := by
    rintro d hd
    cases hd
    rfl
  refine reads_unsigned hdigits hlead hpoint ?_ left
  rw [numberFrom_float negative (c :: ds) hfraction (exponentPart_of_ends hrest) (by simp [hne])]
  simp

theorem isDigit_of_zeros {zeros : Nat} {d : Char} (hd : d ∈ List.replicate zeros '0') :
    d.isDigit = true := by
  rw [List.eq_of_mem_replicate hd]
  rfl

/-- Digits behind the point, and behind zeros that fill up the places in front of them. -/
theorem reads_behind (hds : ∀ d ∈ ds, d.isDigit = true) (hne : ds ≠ []) (zeros : Nat)
    (hrest : EndsNumber rest) (left : Nat) :
    Reads (readUnsigned negative left ('0' :: '.' :: (List.replicate zeros '0' ++ ds) ++ rest))
      (.float (ofDecimal negative (decimal ds) (-(zeros : Int) - ds.length))) rest := by
  have hpart : ∀ d ∈ List.replicate zeros '0' ++ ds, d.isDigit = true := fun d hd =>
    (List.mem_append.1 hd).elim isDigit_of_zeros (hds d)
  have hzero : ∀ d ∈ ['0'], d.isDigit = true := by simp
  have hread := reads_point negative hzero (fun _ => rfl) hpart
    (List.append_ne_nil_of_right_ne_nil _ hne) hrest left
  have hdecimal : decimal (['0'] ++ (List.replicate zeros '0' ++ ds)) = decimal ds :=
    (congrArg decimal (List.append_assoc ['0'] _ ds).symm).trans
      (decimal_zeros_append (zeros + 1) ds)
  have hpower : -((List.replicate zeros '0' ++ ds).length : Int) = -(zeros : Int) - ds.length := by
    rw [List.length_append, List.length_replicate]
    omega
  rw [hdecimal, hpower] at hread
  exact hread

/-- Digits in front of zeros that fill up the places to the point. -/
theorem reads_filled (hds : ∀ d ∈ c :: ds, d.isDigit = true) (hc : c ≠ '0')
    (hvalue : decimal (c :: ds) ≠ 0) (zeros : Nat) (hrest : EndsNumber rest) (left : Nat) :
    Reads (readUnsigned negative left (c :: ds ++ List.replicate zeros '0' ++ ['.', '0'] ++ rest))
      (.float (ofDecimal negative (decimal (c :: ds)) zeros)) rest := by
  have hwhole : ∀ d ∈ c :: (ds ++ List.replicate zeros '0'), d.isDigit = true := fun d hd =>
    (List.mem_append.1 (List.cons_append ▸ hd)).elim (hds d) isDigit_of_zeros
  have hzero : ∀ d ∈ ['0'], d.isDigit = true := by simp
  have hread := reads_point negative hwhole (fun heq => absurd heq hc) hzero
    (List.cons_ne_nil _ _) hrest left
  have hdecimal : decimal (c :: (ds ++ List.replicate zeros '0') ++ ['0']) =
      decimal (c :: ds) * 10 ^ (zeros + 1) := by
    rw [← decimal_append_zeros, List.replicate_succ', ← List.append_assoc]
    rfl
  have hpower : -((['0'] : List Char).length : Int) + ((zeros + 1 : Nat) : Int) = zeros := by
    rw [List.length_singleton]
    omega
  have htext : c :: ds ++ List.replicate zeros '0' ++ ['.', '0'] ++ rest =
      c :: (ds ++ List.replicate zeros '0') ++ '.' :: (['0'] ++ rest) := by simp
  rw [htext]
  rw [hdecimal, ofDecimal_mul_pow hvalue, hpower] at hread
  exact hread

/-- Digits on both sides of the point. -/
theorem reads_split (hds : ∀ d ∈ c :: ds, d.isDigit = true) (hc : c ≠ '0') {k : Nat}
    (hk : k < ds.length) (hrest : EndsNumber rest) (left : Nat) :
    Reads (readUnsigned negative left (c :: ds.take k ++ '.' :: ds.drop k ++ rest))
      (.float (ofDecimal negative (decimal (c :: ds)) (k - ds.length))) rest := by
  have hwhole : ∀ d ∈ c :: ds.take k, d.isDigit = true := by
    intro d hd
    rcases List.mem_cons.1 hd with rfl | hd
    · exact hds d List.mem_cons_self
    · exact hds d (List.mem_cons_of_mem _ (List.mem_of_mem_take hd))
  have hpart : ∀ d ∈ ds.drop k, d.isDigit = true := fun d hd =>
    hds d (List.mem_cons_of_mem _ (List.mem_of_mem_drop hd))
  have hne : ds.drop k ≠ [] := by
    rw [Ne, List.drop_eq_nil_iff]
    omega
  have hread := reads_point negative hwhole (fun heq => absurd heq hc) hpart hne hrest left
  have hdecimal : decimal (c :: ds.take k ++ ds.drop k) = decimal (c :: ds) := by
    rw [List.cons_append, List.take_append_drop]
  have hpower : -((ds.drop k).length : Int) = k - ds.length := by
    rw [List.length_drop]
    omega
  have htext : c :: ds.take k ++ '.' :: ds.drop k ++ rest =
      c :: ds.take k ++ '.' :: (ds.drop k ++ rest) := by simp
  rw [htext]
  rw [hdecimal, hpower] at hread
  exact hread

/-- Digits around a point are read as they are. -/
theorem reads_positional (hds : ∀ d ∈ c :: ds, d.isDigit = true) (hc : c ≠ '0')
    (hvalue : decimal (c :: ds) ≠ 0) (point : Int) (hrest : EndsNumber rest) (left : Nat) :
    Reads (readUnsigned negative left (positional (c :: ds) point ++ rest))
      (.float (ofDecimal negative (decimal (c :: ds)) (point - (c :: ds).length))) rest := by
  unfold positional
  by_cases hpoint : point ≤ 0
  · have hpower : -((-point).toNat : Int) - (c :: ds).length = point - (c :: ds).length := by omega
    rw [if_pos hpoint, ← hpower]
    exact reads_behind hds (List.cons_ne_nil c ds) _ hrest left
  · obtain ⟨k, hk⟩ : ∃ k : Nat, point = k + 1 := ⟨(point - 1).toNat, by omega⟩
    have htoNat : point.toNat = k + 1 := by omega
    rw [if_neg hpoint, htoNat]
    by_cases hfill : (c :: ds).length ≤ k + 1
    · have hpower : ((k + 1 - (c :: ds).length : Nat) : Int) = point - (c :: ds).length := by omega
      dsimp only
      rw [if_pos hfill, ← hpower]
      exact reads_filled hds hc hvalue _ hrest left
    · rw [List.length_cons] at hfill
      have hpower : (k : Int) - ds.length = point - (c :: ds).length := by
        rw [List.length_cons]
        omega
      dsimp only
      rw [List.length_cons, if_neg hfill, ← List.length_cons, ← hpower]
      exact reads_split hds hc (by omega) hrest left

theorem isDigit_of_padded {width n : Nat} {d : Char}
    (hd : d ∈ (Text.paddedDigits width n).toList) : d.isDigit = true := by
  rw [Text.paddedDigits, String.toList_ofList] at hd
  exact (List.mem_append.1 hd).elim isDigit_of_zeros isDigit_of_mem

theorem decimal_paddedDigits (width n : Nat) :
    decimal (Text.paddedDigits width n).toList = n := by
  rw [Text.paddedDigits, String.toList_ofList, decimal_zeros_append, decimal_toDigits]

theorem paddedDigits_ne_nil (width n : Nat) : (Text.paddedDigits width n).toList ≠ [] := by
  rw [Text.paddedDigits, String.toList_ofList]
  exact List.append_ne_nil_of_right_ne_nil _ (List.ne_nil_of_length_pos Nat.length_toDigits_pos)

/-- An exponent with its sign and at least two digits is read as it is. -/
theorem exponentPart_padded (power : Int) (hrest : EndsNumber rest) :
    exponentPart ('e' :: (if power < 0 then '-' else '+') ::
      ((Text.paddedDigits 2 power.natAbs).toList ++ rest)) = (some power, rest) := by
  have hread := exponentPart_append (decide (power < 0)) (fun d hd => isDigit_of_padded hd)
    (paddedDigits_ne_nil 2 power.natAbs) hrest
  simp only [decide_eq_true_eq, decimal_paddedDigits] at hread
  rw [hread]
  by_cases hbelow : power < 0
  · rw [if_pos hbelow, Int.ofNat_natAbs_of_nonpos (by omega), Int.neg_neg]
  · rw [if_neg hbelow, Int.natAbs_of_nonneg (by omega)]

/-- Digits with an exponent are read as they are. -/
theorem reads_scientific (hds : ∀ d ∈ c :: ds, d.isDigit = true) (point : Int)
    (hrest : EndsNumber rest) (left : Nat) :
    Reads (readUnsigned negative left (scientific (c :: ds) point ++ rest))
      (.float (ofDecimal negative (decimal (c :: ds)) (point - (c :: ds).length))) rest := by
  have hone : ∀ d ∈ [c], d.isDigit = true := by
    intro d hd
    rw [List.mem_singleton.1 hd]
    exact hds c List.mem_cons_self
  have hexponent := exponentPart_padded (point - 1) hrest
  generalize htail : 'e' :: (if point - 1 < 0 then '-' else '+') ::
    ((Text.paddedDigits 2 (point - 1).natAbs).toList ++ rest) = tail at hexponent
  have hmark : ∀ d, tail.head? = some d → d.isDigit = false ∧ d ≠ '.' := by
    rintro d hd
    rw [← htail] at hd
    cases hd
    exact ⟨rfl, by decide⟩
  by_cases hnil : ds = []
  · have hfraction := fractionDigits_of_ne fun d hd => (hmark d hd).2
    have hnumber := numberFrom_float negative [c] hfraction hexponent (by simp)
    have hread := reads_unsigned hone (fun _ => rfl) (fun d hd => (hmark d hd).1) hnumber left
    have htext : scientific (c :: ds) point ++ rest = [c] ++ tail := by
      rw [← htail]
      simp [scientific, hnil]
    rw [htext]
    simpa [hnil] using hread
  · have hpart : ∀ d ∈ ds, d.isDigit = true := fun d hd => hds d (List.mem_cons_of_mem _ hd)
    have hfraction := fractionDigits_append hpart hnil fun d hd => (hmark d hd).1
    have hpoint : ∀ d, ('.' :: (ds ++ tail)).head? = some d → d.isDigit = false := by
      rintro d hd
      cases hd
      rfl
    have hnumber := numberFrom_float negative [c] hfraction hexponent (by simp)
    have hread := reads_unsigned hone (fun _ => rfl) hpoint hnumber left
    have htext : scientific (c :: ds) point ++ rest = [c] ++ '.' :: (ds ++ tail) := by
      rw [← htail]
      simp [scientific, hnil]
    have hlength : (point - 1 : Int) - ds.length = point - (c :: ds).length := by
      rw [List.length_cons]
      omega
    rw [htext, ← hlength]
    exact hread

end Layouts

/-! ### Numbers read back -/

/-- Digits with a power of ten, laid out with a point or an exponent. -/
def layDigits (digits : Nat) (power : Int) : List Char :=
  let all := Nat.toDigits 10 digits
  let point : Int := all.length + power
  if -4 < point ∧ point ≤ 16 then positional (trimZeros all) point
  else scientific (trimZeros all) point

/-- The text of a number is its sign and its shortest digits. -/
theorem toList_text (negative : Bool) {m : Nat} (hm : m ≠ 0) (e : Int) :
    (finite negative m e).text.toList =
      (if negative then ['-'] else []) ++ layDigits (shortest m e).1 (shortest m e).2 := by
  unfold text
  dsimp only
  rw [if_neg hm]
  generalize shortest m e = found
  obtain ⟨digits, power⟩ := found
  cases negative <;> simp [layDigits]

/-- Digits that are laid out are read with their power of ten. -/
theorem reads_layDigits {digits : Nat} (hdigits : digits ≠ 0) (power : Int) (negative : Bool)
    {rest : List Char} (hrest : EndsNumber rest) (left : Nat) :
    Reads (readUnsigned negative left (layDigits digits power ++ rest))
      (.float (ofDecimal negative digits power)) rest := by
  obtain ⟨zeros, hzeros⟩ := exists_trimZeros (Nat.toDigits 10 digits)
  have hback := decimal_toDigits digits
  have hdigit : ∀ d ∈ Nat.toDigits 10 digits, d.isDigit = true := fun d hd => isDigit_of_mem hd
  have hlead : ∀ t, Nat.toDigits 10 digits ≠ '0' :: t := fun t heq =>
    hdigits (eq_zero_of_toDigits heq)
  unfold layDigits
  dsimp only
  generalize trimZeros (Nat.toDigits 10 digits) = ds at hzeros
  rw [hzeros] at hback hdigit hlead
  rw [decimal_append_zeros] at hback
  have hvalue : decimal ds ≠ 0 := by
    intro hzero
    rw [hzero, Nat.zero_mul] at hback
    exact hdigits hback.symm
  have hlength : ((Nat.toDigits 10 digits).length : Int) = ds.length + zeros := by
    rw [hzeros, List.length_append, List.length_replicate, Nat.cast_add]
  rw [hlength]
  generalize hpoint : (ds.length + zeros + power : Int) = point
  -- the zeros that were trimmed are made up for by the power of ten
  have hpower : ofDecimal negative (decimal ds) (point - ds.length) =
      ofDecimal negative digits power := by
    rw [← hback, ofDecimal_mul_pow hvalue]
    congr 1
    omega
  rw [← hpower]
  cases ds with
  | nil => exact absurd rfl hvalue
  | cons c cs =>
    have hds : ∀ d ∈ c :: cs, d.isDigit = true := fun d hd =>
      hdigit d (List.mem_append_left _ hd)
    have hc : c ≠ '0' := by
      rintro rfl
      exact hlead _ rfl
    by_cases hrange : -4 < point ∧ point ≤ 16
    · rw [if_pos hrange]
      exact reads_positional hds hc hvalue point hrest left
    · rw [if_neg hrange]
      exact reads_scientific hds point hrest left

theorem reads_nan (rest : List Char) :
    Reads (readValue ('N' :: 'a' :: 'N' :: rest)) (.float .nan) rest := by
  refine ⟨by simp only [List.length_cons]; omega, ?_⟩
  simp [readValue, readAtom]

theorem reads_infinite (rest : List Char) :
    Reads (readValue ('I' :: 'n' :: 'f' :: 'i' :: 'n' :: 'i' :: 't' :: 'y' :: rest))
      (.float (.infinite false)) rest := by
  refine ⟨by simp only [List.length_cons]; omega, ?_⟩
  simp [readValue, readAtom]

theorem reads_minus_infinite (rest : List Char) :
    Reads (readValue ('-' :: 'I' :: 'n' :: 'f' :: 'i' :: 'n' :: 'i' :: 't' :: 'y' :: rest))
      (.float (.infinite true)) rest := by
  refine ⟨by simp only [List.length_cons]; omega, ?_⟩
  simp [readValue, readAtom]

/-- A number in the one representation it has is read back from its text. -/
theorem legible_of_regular {x : Binary64} (h : x.Regular) : Legible x := by
  intro rest hrest
  cases x with
  | nan => exact reads_nan rest
  | infinite negative =>
    cases negative with
    | false => exact reads_infinite rest
    | true => exact reads_minus_infinite rest
  | finite negative m e =>
    have htext : writeFloat (.finite negative m e) = (finite negative m e).text.toList := rfl
    rcases h with ⟨rfl, rfl⟩ | h
    · have hzero : (finite negative 0 0).text.toList =
          (if negative then ['-'] else []) ++ ['0', '.', '0'] := by
        cases negative <;> rfl
      rw [htext, hzero, List.append_assoc]
      have hdigit : ∀ d ∈ ['0'], d.isDigit = true := by simp
      have hne : (['0'] : List Char) ≠ [] := List.cons_ne_nil _ _
      exact reads_signed fun left => reads_point negative hdigit (fun _ => rfl) hdigit hne hrest left
    · have hm : m ≠ 0 := Nat.ne_of_gt h.pos
      have hread := reads_layDigits (shortest_ne_zero h) (shortest m e).2 negative hrest
      rw [ofDecimal_shortest_signed h] at hread
      rw [htext, toList_text negative hm, List.append_assoc]
      exact reads_signed hread

end Json

end BranchForm
