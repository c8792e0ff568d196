import ApiBindings.Numeric.Binary64
import Mathlib.Tactic.Linarith
import Mathlib.Tactic.Ring
import Mathlib.Tactic.SplitIfs

/-!
The one form of a finite number: 53 binary digits, or fewer at the least exponent. Main statements:
numbers in this form that are the same integer are equal, and rounding gives this form.
-/

namespace ApiBindings.Binary64

/-- Whether a finite number has 53 binary digits, or fewer at the least exponent. -/
def isCanonical : Binary64 → Bool
  | .finite _ m e => m < 2 ^ 53 && (e = leastExponent || (2 ^ 52 ≤ m && leastExponent ≤ e))
  | _ => true

section Integers

theorem toInt?_finite {negative : Bool} {m : Nat} {e n : Int}
    (h : (Binary64.finite negative m e).toInt? = some n) :
    (if negative then -(m : Int) else m) * 2 ^ e.toNat = n * 2 ^ (-e).toNat := by
  simp only [toInt?, ratio?, Option.bind_some, Nat.pow_eq, Nat.cast_pow, Nat.cast_ofNat] at h
  generalize (if negative then -(m : Int) else m) = k at h ⊢
  by_cases he : e < 0
  · simp only [if_pos he, Nat.cast_pow, Nat.cast_ofNat] at h
    split_ifs at h with hdvd
    rw [Int.toNat_of_nonpos (by omega), pow_zero, mul_one, ← Option.some.inj h]
    exact (Int.ediv_mul_cancel (Int.dvd_of_emod_eq_zero hdvd)).symm
  · simp only [if_neg he, Nat.cast_one, Int.emod_one, if_true, Int.ediv_one] at h
    rw [Option.some.inj h, Int.toNat_of_nonpos (by omega : -e ≤ 0), pow_zero, mul_one]

theorem natAbs_toInt?_finite {negative : Bool} {m : Nat} {e n : Int}
    (h : (Binary64.finite negative m e).toInt? = some n) :
    m * 2 ^ e.toNat = n.natAbs * 2 ^ (-e).toNat := by
  have hvalue := congrArg Int.natAbs (toInt?_finite h)
  rw [Int.natAbs_mul, Int.natAbs_mul, Int.natAbs_pow, Int.natAbs_pow] at hvalue
  cases negative <;> simpa using hvalue

theorem negative_of_toInt? {negative : Bool} {m : Nat} {e n : Int} (hn : n ≠ 0)
    (h : (Binary64.finite negative m e).toInt? = some n) : negative = decide (n < 0) := by
  have hvalue := toInt?_finite h
  have hleft : (0 : Int) < 2 ^ e.toNat := Int.pow_pos (by decide)
  have hright : (0 : Int) < 2 ^ (-e).toNat := Int.pow_pos (by decide)
  cases negative with
  | true =>
    rw [if_pos rfl] at hvalue
    have hnonpos : n ≤ 0 := by nlinarith
    exact (decide_eq_true (lt_of_le_of_ne hnonpos hn)).symm
  | false =>
    rw [if_neg Bool.false_ne_true] at hvalue
    have hnonneg : 0 ≤ n := by nlinarith
    exact (decide_eq_false (not_lt.mpr hnonneg)).symm

theorem mul_two_pow_ne {m n a b : Nat} (hm : m < 2 ^ 53) (hn : 2 ^ 52 ≤ n) (hab : a < b) :
    m * 2 ^ a ≠ n * 2 ^ b := by
  obtain ⟨k, rfl⟩ := Nat.exists_eq_add_of_lt hab
  intro h
  have hm' : m = n * 2 ^ k * 2 := by
    apply Nat.eq_of_mul_eq_mul_right (Nat.two_pow_pos a)
    rw [h]
    ring
  have hk := Nat.le_mul_of_pos_right n (Nat.two_pow_pos k)
  omega

theorem lt_of_isCanonical {negative : Bool} {m : Nat} {e : Int}
    (h : (Binary64.finite negative m e).isCanonical = true) :
    m < 2 ^ 53 ∧ leastExponent ≤ e ∧ (leastExponent < e → 2 ^ 52 ≤ m) := by
  simp only [isCanonical, Bool.and_eq_true, Bool.or_eq_true, decide_eq_true_eq] at h
  rcases h with ⟨hm, rfl | ⟨hlow, he⟩⟩
  · exact ⟨hm, le_rfl, fun hlt => absurd hlt (lt_irrefl _)⟩
  · exact ⟨hm, he, fun _ => hlow⟩

theorem exponent_le {m n k : Nat} {e f : Int} {s t : Bool}
    (hx : (Binary64.finite s m e).isCanonical = true)
    (hy : (Binary64.finite t n f).isCanonical = true)
    (hm : m * 2 ^ e.toNat = k * 2 ^ (-e).toNat) (hn : n * 2 ^ f.toNat = k * 2 ^ (-f).toNat) :
    f ≤ e := by
  obtain ⟨hm53, hleast, -⟩ := lt_of_isCanonical hx
  obtain ⟨-, -, hn52⟩ := lt_of_isCanonical hy
  by_contra hlt
  rw [not_le] at hlt
  refine mul_two_pow_ne (a := e.toNat + (-f).toNat) (b := f.toNat + (-e).toNat) hm53
    (hn52 (lt_of_le_of_lt hleast hlt)) (by omega) ?_
  calc m * 2 ^ (e.toNat + (-f).toNat) = m * 2 ^ e.toNat * 2 ^ (-f).toNat := by ring
    _ = n * 2 ^ f.toNat * 2 ^ (-e).toNat := by rw [hm, hn]; ring
    _ = n * 2 ^ (f.toNat + (-e).toNat) := by ring

theorem equals_of_toInt?_eq {x y : Binary64} {n : Int} (hx : x.isCanonical = true)
    (hy : y.isCanonical = true) (hxn : x.toInt? = some n) (hyn : y.toInt? = some n) :
    x.equals y = true := by
  cases x with
  | nan => cases hxn
  | infinite s => cases hxn
  | finite s m e =>
    cases y with
    | nan => cases hyn
    | infinite t => cases hyn
    | finite t l f =>
      have hm := natAbs_toInt?_finite hxn
      have hl := natAbs_toInt?_finite hyn
      change (finite s m e == finite t l f || m == 0 && l == 0) = true
      rw [Bool.or_eq_true, Bool.and_eq_true, beq_iff_eq, beq_iff_eq, beq_iff_eq]
      by_cases hn : n = 0
      · refine .inr ?_
        simpa [hn] using And.intro hm hl
      · obtain rfl : e = f := le_antisymm (exponent_le hy hx hl hm) (exponent_le hx hy hm hl)
        have hml : m = l := by
          apply Nat.eq_of_mul_eq_mul_right (Nat.two_pow_pos e.toNat)
          rw [hm, hl]
        rw [negative_of_toInt? hn hxn, negative_of_toInt? hn hyn, hml]
        exact .inl rfl

theorem toInt?_of_isZero {x : Binary64} (h : x.isZero = true) : x.toInt? = some 0 := by
  cases x with
  | nan => cases h
  | infinite s => cases h
  | finite s m e =>
    obtain rfl : m = 0 := eq_of_beq h
    cases s <;> simp only [toInt?, ratio?] <;> split_ifs <;> simp

theorem equals_iff {x y : Binary64} :
    x.equals y = true ↔ x ≠ .nan ∧ y ≠ .nan ∧ (x = y ∨ x.isZero = true ∧ y.isZero = true) := by
  cases x <;> cases y <;> simp [equals]

end Integers

section Rounding

theorem scaled_eq (num den : Nat) (e : Int) :
    scaled num den e = (num * 2 ^ (-e).toNat, den * 2 ^ e.toNat) := by
  rw [scaled]
  split_ifs with he
  · rw [Int.toNat_of_nonpos (by omega : e ≤ 0), pow_zero, mul_one]
    rfl
  · rw [Int.toNat_of_nonpos (by omega : -e ≤ 0), pow_zero, mul_one]
    rfl

def scaledQuotient (num den : Nat) (e : Int) : Nat := num * 2 ^ (-e).toNat / (den * 2 ^ e.toNat)

variable {num den : Nat} (hnum : num ≠ 0) (hden : den ≠ 0)

include hden in
theorem scaledQuotient_lt {e : Int} (he : (num.log2 : Int) - den.log2 - 52 ≤ e) :
    scaledQuotient num den e < 2 ^ 53 := by
  have hpos : 0 < den * 2 ^ e.toNat := Nat.mul_pos (Nat.pos_of_ne_zero hden) (Nat.two_pow_pos _)
  rw [scaledQuotient, Nat.div_lt_iff_lt_mul hpos]
  calc num * 2 ^ (-e).toNat
      < 2 ^ (num.log2 + 1) * 2 ^ (-e).toNat :=
        Nat.mul_lt_mul_of_pos_right Nat.lt_log2_self (Nat.two_pow_pos _)
    _ = 2 ^ (num.log2 + 1 + (-e).toNat) := by rw [← pow_add]
    _ ≤ 2 ^ (53 + (den.log2 + e.toNat)) := Nat.pow_le_pow_right (by decide) (by omega)
    _ = 2 ^ 53 * (2 ^ den.log2 * 2 ^ e.toNat) := by rw [← pow_add, ← pow_add]
    _ ≤ 2 ^ 53 * (den * 2 ^ e.toNat) :=
        Nat.mul_le_mul_left _ (Nat.mul_le_mul_right _ (Nat.log2_self_le hden))

include hnum hden in
theorem le_scaledQuotient {e : Int} (he : e ≤ (num.log2 : Int) - den.log2 - 53) :
    2 ^ 52 ≤ scaledQuotient num den e := by
  have hpos : 0 < den * 2 ^ e.toNat := Nat.mul_pos (Nat.pos_of_ne_zero hden) (Nat.two_pow_pos _)
  rw [scaledQuotient, Nat.le_div_iff_mul_le hpos]
  calc 2 ^ 52 * (den * 2 ^ e.toNat)
      ≤ 2 ^ 52 * (2 ^ (den.log2 + 1) * 2 ^ e.toNat) :=
        Nat.mul_le_mul_left _ (Nat.mul_le_mul_right _ Nat.lt_log2_self.le)
    _ = 2 ^ (52 + (den.log2 + 1 + e.toNat)) := by rw [← pow_add, ← pow_add]
    _ ≤ 2 ^ (num.log2 + (-e).toNat) := Nat.pow_le_pow_right (by decide) (by omega)
    _ = 2 ^ num.log2 * 2 ^ (-e).toNat := by rw [pow_add]
    _ ≤ num * 2 ^ (-e).toNat := Nat.mul_le_mul_right _ (Nat.log2_self_le hnum)

theorem scaledQuotient_succ (e : Int) :
    scaledQuotient num den (e + 1) = scaledQuotient num den e / 2 := by
  rw [scaledQuotient, scaledQuotient, Nat.div_div_eq_div_mul]
  by_cases he : 0 ≤ e
  · rw [show (-(e + 1)).toNat = 0 by omega, show (-e).toNat = 0 by omega,
      show (e + 1).toNat = e.toNat + 1 by omega, pow_succ, mul_assoc]
  · rw [show (e + 1).toNat = 0 by omega, show e.toNat = 0 by omega,
      show (-e).toNat = (-(e + 1)).toNat + 1 by omega, pow_succ, ← mul_assoc,
      Nat.mul_div_mul_right _ _ (by decide)]

include hnum hden in
theorem fittingExponent_fits :
    scaledQuotient num den (fittingExponent num den) < 2 ^ 53 ∧
      leastExponent ≤ fittingExponent num den ∧
      (leastExponent < fittingExponent num den →
        2 ^ 52 ≤ scaledQuotient num den (fittingExponent num den)) := by
  unfold fittingExponent
  simp only [scaled_eq]
  generalize hguess : max ((num.log2 : Int) - den.log2 - 53) leastExponent = guess
  rw [show num * 2 ^ (-guess).toNat / (den * 2 ^ guess.toNat) = scaledQuotient num den guess
    from rfl, Nat.pow_eq]
  split_ifs with hfits
  · refine ⟨hfits, by omega, fun hlt => le_scaledQuotient hnum hden (by omega)⟩
  · refine ⟨scaledQuotient_lt hden (by omega), by omega, fun _ => ?_⟩
    rw [scaledQuotient_succ]
    omega

theorem isCanonical_ofRatio (negative : Bool) (num : Nat) {den : Nat} (hden : den ≠ 0) :
    (ofRatio negative num den).isCanonical = true := by
  unfold ofRatio
  split_ifs with hnum
  · rfl
  · obtain ⟨hlt, hleast, hlow⟩ := fittingExponent_fits hnum hden
    generalize fittingExponent num den = e at *
    simp only [scaled_eq]
    rw [show num * 2 ^ (-e).toNat / (den * 2 ^ e.toNat) = scaledQuotient num den e from rfl]
    generalize scaledQuotient num den e = q at *
    generalize 2 * (num * 2 ^ (-e).toNat % (den * 2 ^ e.toNat)) = r
    generalize den * 2 ^ e.toNat = d
    generalize hm : (if r > d ∨ r = d ∧ q % 2 = 1 then q + 1 else q) = m
    have hround : q ≤ m ∧ m ≤ q + 1 := by
      rw [← hm]
      split_ifs <;> omega
    simp only [Nat.pow_eq]
    split_ifs
    all_goals simp only [isCanonical, Bool.and_eq_true, Bool.or_eq_true, decide_eq_true_eq]
    all_goals omega

theorem isCanonical_ofDecimal (negative : Bool) (digits : Nat) (exponent : Int) :
    (ofDecimal negative digits exponent).isCanonical = true := by
  unfold ofDecimal
  extract_lets places
  split_ifs
  · rfl
  · rfl
  · rfl
  · exact isCanonical_ofRatio negative digits (Nat.pow_pos (by decide)).ne'
  · exact isCanonical_ofRatio negative _ one_ne_zero

end Rounding

end ApiBindings.Binary64
