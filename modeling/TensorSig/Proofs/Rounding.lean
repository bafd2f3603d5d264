import Mathlib.Algebra.Order.Field.Power
import Mathlib.Data.Int.Log
import Mathlib.Data.Rat.Floor
import Mathlib.Tactic.FieldSimp
import Mathlib.Tactic.GCongr
import Mathlib.Tactic.NormNum
import Mathlib.Tactic.Positivity
import Mathlib.Tactic.Ring
import TensorSig.Double.Shortest

/-!
# Rounding to doubles

Reading a decimal as a double goes by its value alone: however its digits and its exponent are
chosen, the same value is rounded to the same rank. The exact expansion of a magnitude is rounded to
that magnitude, and so is its shortest decimal.

* `zpow_eq_div`: powers with an integer exponent as quotients of naturals.
* `floorLog2_eq_log`: the logarithm that scales a quotient.
* `nearestRank_congr`: rounding goes by the value of the quotient.
* `nearestRank_ratio`: the value of a magnitude is rounded to it.
* `Decimal.rank`, `Decimal.toDouble_eq`: the rank that a decimal is read as, with no case set apart
  by its size.
* `Decimal.rank_congr`, `Shortest.rank_decimal`: it goes by the value, and the shortest decimal of a
  magnitude has the rank of the magnitude.
-/

namespace TensorSig

/-! ## Quotients -/

/-- A power as a quotient, of which one part is one. -/
theorem zpow_eq_div {b : ℕ} (hb : 0 < b) (k : ℤ) :
    (b : ℚ) ^ k = (b ^ k.toNat : ℕ) / (b ^ (-k).toNat : ℕ) := by
  have hb' : (b : ℚ) ≠ 0 := by positivity
  obtain ⟨n, rfl | rfl⟩ := k.eq_nat_or_neg
  · simp
  · simp [zpow_neg]

theorem roundHalfEven_mul_left {k : ℕ} (hk : 0 < k) (num den : ℕ) :
    roundHalfEven (k * num) (k * den) = roundHalfEven num den := by
  have hlt : 2 * (k * (num % den)) < k * den ↔ 2 * (num % den) < den := by
    rw [Nat.mul_left_comm, Nat.mul_lt_mul_left hk]
  have hgt : k * den < 2 * (k * (num % den)) ↔ den < 2 * (num % den) := by
    rw [Nat.mul_left_comm, Nat.mul_lt_mul_left hk]
  simp only [roundHalfEven, Nat.mul_div_mul_left _ _ hk, Nat.mul_mod_mul_left, hlt, hgt]

/-- Rounding goes by the value of the quotient. -/
theorem roundHalfEven_congr {num den num' den' : ℕ} (hd : 0 < den) (hd' : 0 < den')
    (h : num * den' = num' * den) : roundHalfEven num den = roundHalfEven num' den' := by
  rw [← roundHalfEven_mul_left hd' num, ← roundHalfEven_mul_left hd num', Nat.mul_comm den' num, h,
    Nat.mul_comm num', Nat.mul_comm den']

theorem roundHalfEven_mul_self {den : ℕ} (hd : 0 < den) (n : ℕ) :
    roundHalfEven (n * den) den = n := by
  simp [roundHalfEven, Nat.mul_div_cancel _ hd, hd]

theorem roundHalfEven_eq_zero {num den : ℕ} (h : 2 * num < den) : roundHalfEven num den = 0 := by
  have hlt : num < den := by omega
  simp [roundHalfEven, Nat.mod_eq_of_lt hlt, Nat.div_eq_of_lt hlt, h]

/-- A quotient is compared with a power of two in naturals. -/
theorem div_lt_two_zpow_iff {num den : ℕ} (hd : 0 < den) (k : ℤ) :
    (num : ℚ) / den < 2 ^ k ↔ num * 2 ^ (-k).toNat < den * 2 ^ k.toNat := by
  have hk := zpow_eq_div (b := 2) (by decide) k
  rw [Nat.cast_ofNat] at hk
  rw [hk, div_lt_div_iff₀ (by positivity) (by positivity), Nat.mul_comm den]
  norm_cast

/-- The logarithm of a quotient to the base two. -/
theorem floorLog2_eq_log {num den : ℕ} (hn : 0 < num) (hd : 0 < den) :
    floorLog2 num den = Int.log 2 ((num : ℚ) / den) := by
  have hv : (0 : ℚ) < num / den := by positivity
  have hn₁ : (2 : ℚ) ^ num.log2 ≤ num := by exact_mod_cast Nat.log2_self_le hn.ne'
  have hn₂ : (num : ℚ) < 2 ^ (num.log2 + 1) := by exact_mod_cast Nat.lt_log2_self
  have hd₁ : (2 : ℚ) ^ den.log2 ≤ den := by exact_mod_cast Nat.log2_self_le hd.ne'
  have hd₂ : (den : ℚ) < 2 ^ (den.log2 + 1) := by exact_mod_cast Nat.lt_log2_self
  have hlow : (num.log2 : ℤ) - den.log2 - 1 ≤ Int.log 2 ((num : ℚ) / den) := by
    rw [← Int.zpow_le_iff_le_log (by decide) hv, le_div_iff₀ (by positivity)]
    calc (2 : ℚ) ^ ((num.log2 : ℤ) - den.log2 - 1) * den
        ≤ 2 ^ ((num.log2 : ℤ) - den.log2 - 1) * 2 ^ (den.log2 + 1) := by gcongr
      _ = 2 ^ num.log2 := by
        rw [← zpow_natCast, ← zpow_natCast, ← zpow_add₀ (by norm_num)]
        congr 1
        push_cast
        ring
      _ ≤ num := hn₁
  have hhigh : Int.log 2 ((num : ℚ) / den) < (num.log2 : ℤ) - den.log2 + 1 := by
    rw [← Int.lt_zpow_iff_log_lt (by decide) hv, div_lt_iff₀ (by positivity)]
    calc (num : ℚ) < 2 ^ (num.log2 + 1) := hn₂
      _ = 2 ^ ((num.log2 : ℤ) - den.log2 + 1) * 2 ^ den.log2 := by
        rw [← zpow_natCast, ← zpow_natCast, ← zpow_add₀ (by norm_num)]
        congr 1
        push_cast
        ring
      _ ≤ 2 ^ ((num.log2 : ℤ) - den.log2 + 1) * den := by gcongr
  have hcmp : num * Nat.pow 2 (-((num.log2 : ℤ) - den.log2)).toNat <
      den * Nat.pow 2 ((num.log2 : ℤ) - den.log2).toNat ↔
        Int.log 2 ((num : ℚ) / den) < (num.log2 : ℤ) - den.log2 := by
    rw [← Int.lt_zpow_iff_log_lt (by decide) hv]
    exact (div_lt_two_zpow_iff hd _).symm
  unfold floorLog2
  dsimp only
  split
  · rename_i h
    have := hcmp.1 h
    omega
  · rename_i h
    have := mt hcmp.2 h
    omega

/-- **Rounding goes by the value of the quotient.** -/
theorem nearestRank_congr {num den num' den' : ℕ} (hn : 0 < num) (hd : 0 < den) (hn' : 0 < num')
    (hd' : 0 < den') (h : num * den' = num' * den) :
    nearestRank num den = nearestRank num' den' := by
  have hv : (num : ℚ) / den = num' / den' := by
    rw [div_eq_div_iff (by positivity) (by positivity)]
    exact_mod_cast h
  have hl : floorLog2 num den = floorLog2 num' den' := by
    rw [floorLog2_eq_log hn hd, floorLog2_eq_log hn' hd', hv]
  unfold nearestRank
  rw [hl]
  dsimp only
  congr 1
  refine roundHalfEven_congr (Nat.mul_pos hd (Nat.pow_pos (by decide)))
    (Nat.mul_pos hd' (Nat.pow_pos (by decide))) ?_
  rw [Nat.mul_mul_mul_comm, h, Nat.mul_mul_mul_comm]

/-! ## The values of magnitudes -/

namespace Double

theorem significand_pos {rank : ℕ} (h : 0 < rank) : 0 < significand rank := by
  simp only [significand, binade]
  split <;> omega

theorem ratio_pos {rank : ℕ} (h : 0 < rank) : 0 < (ratio rank).1 ∧ 0 < (ratio rank).2 :=
  ⟨Nat.mul_pos (significand_pos h) (Nat.pow_pos (by decide)), Nat.pow_pos (by decide)⟩

/-- The value of a magnitude. -/
theorem ratio_eq (rank : ℕ) :
    ((ratio rank).1 : ℚ) / (ratio rank).2 = significand rank * 2 ^ exponent rank := by
  have h := zpow_eq_div (b := 2) (by decide) (exponent rank)
  rw [Nat.cast_ofNat] at h
  rw [h, ← mul_div_assoc]
  simp [ratio]

theorem rank_eq (rank : ℕ) : (exponent rank + 1074).toNat * binade + significand rank = rank := by
  simp only [exponent, significand, binade]
  split <;> omega

/-- The significand of a magnitude is as large as its exponent admits. -/
theorem max_log_eq {rank : ℕ} (h : 0 < rank) :
    max (Int.log 2 ((significand rank : ℚ) * 2 ^ exponent rank) - 52) (-1074) = exponent rank := by
  have hs : (0 : ℚ) < significand rank := by exact_mod_cast significand_pos h
  have hv : (0 : ℚ) < significand rank * 2 ^ exponent rank := by positivity
  have hlt : Int.log 2 ((significand rank : ℚ) * 2 ^ exponent rank) < exponent rank + 53 := by
    have hb : significand rank < 2 ^ 53 := by
      unfold significand binade
      split <;> omega
    rw [← Int.lt_zpow_iff_log_lt (by decide) hv, zpow_add₀ (by norm_num), mul_comm]
    exact mul_lt_mul_of_pos_left (by exact_mod_cast hb) (by positivity)
  by_cases hr : rank < binade
  · -- of the subnormal magnitudes the logarithm may be less, and the exponent is the least one
    have he : exponent rank = -1074 := if_pos hr
    have hb : significand rank < 2 ^ 52 := by
      rw [significand, if_pos hr]
      exact hr
    have hlt : Int.log 2 ((significand rank : ℚ) * 2 ^ exponent rank) < exponent rank + 52 := by
      rw [← Int.lt_zpow_iff_log_lt (by decide) hv, zpow_add₀ (by norm_num), mul_comm]
      exact mul_lt_mul_of_pos_left (by exact_mod_cast hb) (by positivity)
    omega
  · have he : -1074 ≤ exponent rank := by
      rw [exponent, if_neg hr]
      unfold binade at hr ⊢
      omega
    have hb : 2 ^ 52 ≤ significand rank := by
      rw [significand, if_neg hr]
      unfold binade
      omega
    have hle : exponent rank + 52 ≤ Int.log 2 ((significand rank : ℚ) * 2 ^ exponent rank) := by
      rw [← Int.zpow_le_iff_le_log (by decide) hv, zpow_add₀ (by norm_num), mul_comm]
      exact mul_le_mul_of_nonneg_right (by exact_mod_cast hb) (by positivity)
    omega

end Double

/-- **The value of a magnitude is rounded to it.** -/
theorem nearestRank_ratio {rank : ℕ} (h : 0 < rank) :
    nearestRank (Double.ratio rank).1 (Double.ratio rank).2 = rank := by
  obtain ⟨hn, hd⟩ := Double.ratio_pos h
  unfold nearestRank
  rw [floorLog2_eq_log hn hd, Double.ratio_eq]
  dsimp only
  rw [Double.max_log_eq h]
  have hr : roundHalfEven ((Double.ratio rank).1 * Nat.pow 2 (-Double.exponent rank).toNat)
      ((Double.ratio rank).2 * Nat.pow 2 (Double.exponent rank).toNat) =
        Double.significand rank := by
    have hm : (Double.ratio rank).1 * Nat.pow 2 (-Double.exponent rank).toNat =
        Double.significand rank *
          ((Double.ratio rank).2 * Nat.pow 2 (Double.exponent rank).toNat) := by
      simp only [Double.ratio]
      ring
    rw [hm]
    exact roundHalfEven_mul_self (Nat.mul_pos hd (Nat.pow_pos (by decide))) _
  rw [hr, Double.rank_eq]

/-! ## Decimals -/

namespace Decimal

/-- The value of a decimal without its sign. -/
def magnitude (d : Decimal) : ℚ := d.digits * 10 ^ d.exponent

/-- The rank that a decimal is read as, past the last magnitude when the value is too large. -/
def rank (d : Decimal) : ℕ :=
  if d.digits = 0 then 0
  else nearestRank (d.digits * 10 ^ d.exponent.toNat) (10 ^ (-d.exponent).toNat)

theorem magnitude_eq_div (d : Decimal) : d.magnitude =
    (d.digits * 10 ^ d.exponent.toNat : ℕ) / (10 ^ (-d.exponent).toNat : ℕ) := by
  have h := zpow_eq_div (b := 10) (by decide) d.exponent
  rw [Nat.cast_ofNat] at h
  rw [magnitude, h, Nat.cast_mul, mul_div_assoc]

theorem magnitude_eq_zero_iff (d : Decimal) : d.magnitude = 0 ↔ d.digits = 0 := by
  simp [magnitude, zpow_ne_zero]

/-- **The rank of a decimal goes by its value.** -/
theorem rank_congr {d d' : Decimal} (h : d.magnitude = d'.magnitude) : d.rank = d'.rank := by
  unfold rank
  by_cases hd : d.digits = 0
  · have hd' : d'.digits = 0 := by
      rw [← magnitude_eq_zero_iff, ← h, magnitude_eq_zero_iff]
      exact hd
    rw [if_pos hd, if_pos hd']
  · have hd' : d'.digits ≠ 0 := by
      rw [Ne, ← magnitude_eq_zero_iff, ← h, magnitude_eq_zero_iff]
      exact hd
    rw [if_neg hd, if_neg hd']
    rw [magnitude_eq_div, magnitude_eq_div, div_eq_div_iff (by positivity) (by positivity)] at h
    exact nearestRank_congr (by positivity) (by positivity) (by positivity) (by positivity)
      (by exact_mod_cast h)

/-- A value from `2 ^ 1026` on is past the last magnitude. -/
theorem magnitudes_le_nearestRank {num k : ℕ} (hk : 1026 ≤ k) (h : 2 ^ k ≤ num) :
    Double.magnitudes ≤ nearestRank num 1 := by
  have hn : 0 < num := lt_of_lt_of_le (by positivity) h
  have hv : (k : ℤ) ≤ floorLog2 num 1 := by
    rw [floorLog2_eq_log hn (by decide), ← Int.zpow_le_iff_le_log (by decide) (by positivity),
      Nat.cast_one, div_one]
    exact_mod_cast h
  have hs : 2048 ≤ (max (floorLog2 num 1 - 52) (-1074) + 1074).toNat := by omega
  unfold nearestRank
  dsimp only
  refine le_trans ?_ (Nat.le_add_right _ _)
  calc Double.magnitudes ≤ 2048 * Double.binade := by decide
    _ ≤ _ := Nat.mul_le_mul_right _ hs

/-- A value below `2 ^ -1075` is rounded to zero. -/
theorem nearestRank_eq_zero {num den k : ℕ} (hn : 0 < num) (hd : 0 < den) (hk : 1075 ≤ k)
    (h : num * 2 ^ k < den) : nearestRank num den = 0 := by
  have hv : floorLog2 num den < -k := by
    rw [floorLog2_eq_log hn hd, ← Int.lt_zpow_iff_log_lt (by decide) (by positivity),
      Nat.cast_ofNat, div_lt_two_zpow_iff hd, Int.toNat_neg_natCast, neg_neg, Int.toNat_natCast]
    simpa using h
  unfold nearestRank
  dsimp only
  generalize hs : max (floorLog2 num den - 52) (-1074) = s
  have hbinade : (s + 1074).toNat = 0 := by omega
  have hup : s.toNat = 0 := by omega
  have hdown : (-s).toNat + 1 ≤ k := by omega
  have hr : roundHalfEven (num * 2 ^ (-s).toNat) (den * 2 ^ 0) = 0 := by
    apply roundHalfEven_eq_zero
    calc 2 * (num * 2 ^ (-s).toNat) = num * 2 ^ ((-s).toNat + 1) := by ring
      _ ≤ num * 2 ^ k := by gcongr; decide
      _ < den := h
      _ = den * 2 ^ 0 := (Nat.mul_one den).symm
  rw [hbinade, hup, Nat.zero_mul]
  exact (Nat.zero_add _).trans hr

theorem two_pow_le_ten_pow {n e : ℕ} (h : 28 * n + 1 ≤ e) : 2 ^ (93 * n + 3) ≤ 10 ^ e := by
  calc 2 ^ (93 * n + 3) = (2 ^ 93) ^ n * 2 ^ 3 := by rw [Nat.pow_add, Nat.pow_mul]
    _ ≤ (10 ^ 28) ^ n * 10 ^ 1 :=
      Nat.mul_le_mul (Nat.pow_le_pow_left (by decide) n) (by decide)
    _ = 10 ^ (28 * n + 1) := by rw [Nat.pow_add, Nat.pow_mul]
    _ ≤ 10 ^ e := Nat.pow_le_pow_right (by decide) h

/-- **Reading a decimal** rounds its value: the sizes of the exponent that are decided beforehand
make no difference. -/
theorem toDouble_eq (d : Decimal) : d.toDouble = .ofRank d.negative d.rank := by
  obtain ⟨negative, digits, exponent⟩ := d
  unfold toDouble rank
  dsimp only
  split
  · rfl
  rename_i hd
  have hpos := Nat.pos_of_ne_zero hd
  cases exponent with
  | ofNat e =>
    have hneg : (-Int.ofNat e).toNat = 0 := by
      rw [Int.ofNat_eq_natCast]
      omega
    rw [hneg]
    change (if 308 < e then _ else _) = Double.ofRank negative (nearestRank (digits * 10 ^ e) 1)
    split
    · rename_i he
      have hle : 2 ^ (93 * 11 + 3) ≤ digits * 10 ^ e := by
        calc 2 ^ (93 * 11 + 3) ≤ 10 ^ e := two_pow_le_ten_pow he
          _ ≤ digits * 10 ^ e := Nat.le_mul_of_pos_left _ hpos
      have hk : 1026 ≤ 93 * 11 + 3 := by decide
      rw [Double.ofRank, dif_neg (Nat.not_lt.2 (magnitudes_le_nearestRank hk hle))]
    · rfl
  | negSucc e =>
    change (if digits.log2 + 1076 ≤ 3 * (e + 1) then _ else _) =
      Double.ofRank negative (nearestRank (digits * 1) (10 ^ (e + 1)))
    rw [Nat.mul_one]
    split
    · rename_i he
      obtain ⟨k, hk⟩ := Nat.exists_eq_add_of_le he
      have hlt : digits * 2 ^ (k + 1075) < 10 ^ (e + 1) := by
        calc digits * 2 ^ (k + 1075) < 2 ^ (digits.log2 + 1) * 2 ^ (k + 1075) :=
              Nat.mul_lt_mul_of_pos_right Nat.lt_log2_self (Nat.pow_pos (by decide))
          _ = 2 ^ (3 * (e + 1)) := by
              rw [← Nat.pow_add, hk]
              congr 1
              omega
          _ = (2 ^ 3) ^ (e + 1) := pow_mul ..
          _ ≤ 10 ^ (e + 1) := Nat.pow_le_pow_left (by decide) _
      rw [nearestRank_eq_zero hpos (Nat.pow_pos (by decide)) (Nat.le_add_left _ k) hlt]
    · rfl

end Decimal

/-! ## Shortest decimals -/

namespace Shortest

/-- The expansion of a magnitude has its value. -/
theorem magnitude_exact (negative : Bool) (rank : ℕ) :
    Decimal.magnitude ⟨negative, (exact rank).1, (exact rank).2⟩ =
      Double.significand rank * 2 ^ Double.exponent rank := by
  unfold exact Decimal.magnitude
  cases Double.exponent rank with
  | ofNat e => simp
  | negSucc e =>
    have h : (10 : ℚ) ^ Int.negSucc e = (5 : ℚ) ^ Int.negSucc e * 2 ^ Int.negSucc e := by
      rw [← mul_zpow]
      norm_num
    simp only [h, zpow_negSucc, Nat.pow_eq]
    push_cast
    field_simp

theorem rank_exact {rank : ℕ} (negative : Bool) (h : 0 < rank) :
    Decimal.rank ⟨negative, (exact rank).1, (exact rank).2⟩ = rank := by
  obtain ⟨hn, hd⟩ := Double.ratio_pos h
  have hm := magnitude_exact negative rank
  rw [← Double.ratio_eq, Decimal.magnitude_eq_div, div_eq_div_iff (by positivity) (by positivity)]
    at hm
  have hz : (exact rank).1 ≠ 0 := by
    intro hz
    rw [hz] at hm
    have : (0 : ℚ) < (Double.ratio rank).1 * (10 ^ (-(exact rank).2).toNat : ℕ) := by positivity
    simp only [Nat.cast_zero, zero_mul] at hm
    exact this.ne hm
  rw [Decimal.rank, if_neg hz]
  refine (nearestRank_congr ?_ (by positivity) hn hd (by exact_mod_cast hm)).trans
    (nearestRank_ratio h)
  exact Nat.mul_pos (Nat.pos_of_ne_zero hz) (by positivity)

theorem rank_of_readsBack {rank digits : ℕ} {e : ℤ} (h : readsBack rank digits e = true)
    (hr : rank < Double.magnitudes) (negative : Bool) :
    Decimal.rank ⟨negative, digits, e⟩ = rank := by
  rw [readsBack, beq_iff_eq, Decimal.toDouble_eq, Double.ofRank, Double.ofRank, dif_pos hr] at h
  split at h
  · exact congrArg Fin.val (Double.finite.inj h).2
  · cases h

theorem roundHalfEven_cases (p q : ℕ) :
    roundHalfEven p q = p / q ∨ roundHalfEven p q = p / q + 1 := by
  unfold roundHalfEven
  dsimp only
  split_ifs <;> simp

/-- A decimal that is found reads back. -/
theorem readsBack_of_ofLength? {rank n : ℕ} {found : ℕ × ℤ} (h : ofLength? rank n = some found) :
    readsBack rank found.1 found.2 = true := by
  unfold ofLength? at h
  dsimp only at h
  split at h <;> rename_i hlow hhigh <;> simp only [Option.some.injEq, reduceCtorEq] at h
  · subst h
    dsimp only
    rcases roundHalfEven_cases (scaled (Double.ratio rank).1 (Double.ratio rank).2
        (floorLog10 (Double.ratio rank).1 (Double.ratio rank).2 - n + 1)).1
      (scaled (Double.ratio rank).1 (Double.ratio rank).2
        (floorLog10 (Double.ratio rank).1 (Double.ratio rank).2 - n + 1)).2 with hr | hr
    · rw [hr]
      exact hlow
    · rw [hr]
      exact hhigh
  · subst h
    exact hlow
  · subst h
    exact hhigh

/-- **The shortest decimal of a magnitude has its rank.** -/
theorem rank_decimal {rank : ℕ} (h : 0 < rank) (hr : rank < Double.magnitudes) (negative : Bool) :
    Decimal.rank ⟨negative, (decimal rank).1, (decimal rank).2⟩ = rank := by
  unfold decimal
  cases hf : (List.range 17).findSome? fun n => ofLength? rank (n + 1) with
  | none => exact rank_exact negative h
  | some found =>
    obtain ⟨n, -, hn⟩ := List.exists_of_findSome?_eq_some hf
    exact rank_of_readsBack (readsBack_of_ofLength? hn) hr negative

end Shortest

end TensorSig
