import Mathlib.Algebra.Order.Ring.Rat
import Mathlib.Data.Int.Log
import Mathlib.Data.Prod.Lex
import Mathlib.Data.Rat.Floor
import Mathlib.Tactic.Linarith

/-!
# Floating-point values

The values of a binary floating-point type: a finite number is the rational
it denotes, and the infinities and NaN behave as IEEE 754 says; a zero has no
sign. `round` rounds to a double, to nearest and ties to even; the operations
take how they round as a parameter (`rnd`). `partialCmp` is the partial order
of the numbers, in which NaN compares with nothing; `≤` is the total order
databases sort by, in which NaN comes last.
-/

namespace MikanJudge.Lib

inductive F64 where
  | fin (q : ℚ)
  | inf (neg : Bool)
  | nan
  deriving DecidableEq

namespace F64

def add (rnd : ℚ → F64) : F64 → F64 → F64
  | .fin p, .fin q => rnd (p + q)
  | .fin _, .inf s => .inf s
  | .inf s, .fin _ => .inf s
  | .inf s, .inf t => if s = t then .inf s else .nan
  | .nan, _ => .nan
  | _, .nan => .nan

def neg : F64 → F64
  | .fin q => .fin (-q)
  | .inf s => .inf !s
  | .nan => .nan

def sub (rnd : ℚ → F64) (x y : F64) : F64 := x.add rnd y.neg

def abs : F64 → F64
  | .fin q => .fin |q|
  | .inf _ => .inf false
  | .nan => .nan

/-- `partial_cmp`. -/
def partialCmp : F64 → F64 → Option Ordering
  | .fin p, .fin q => some (compare p q)
  | .fin _, .inf s => some (if s then .gt else .lt)
  | .inf s, .fin _ => some (if s then .lt else .gt)
  | .inf s, .inf t => some (compare t s)
  | .nan, _ => none
  | _, .nan => none

/-- `<=`. -/
def le (x y : F64) : Bool := (x.partialCmp y).any (· != .gt)

/-- The number a finite value is. -/
def value : F64 → ℚ
  | .fin q => q
  | _ => 0

/-- The values are finite, and no sum is rounded when they are added up. -/
def AddsExactly (rnd : ℚ → F64) (xs : List F64) : Prop :=
  (∀ x ∈ xs, x = .fin x.value) ∧
  ∀ n, rnd ((xs.take n).map value).sum = .fin ((xs.take n).map value).sum

theorem foldl_add_of_addsExactly {rnd : ℚ → F64} {xs : List F64} (h : AddsExactly rnd xs) :
    xs.foldl (add rnd) (.fin 0) = .fin (xs.map value).sum := by
  have hfold : ∀ ys zs, xs = ys ++ zs →
      zs.foldl (add rnd) (.fin (ys.map value).sum) = .fin (xs.map value).sum := by
    intro ys zs
    induction zs generalizing ys with
    | nil => rintro rfl; rw [List.append_nil]; rfl
    | cons z zs ih =>
      intro e
      have hz : z = .fin z.value := h.1 z (e ▸ List.mem_append_right _ List.mem_cons_self)
      have e' : xs = (ys ++ [z]) ++ zs := by rw [List.append_assoc]; exact e
      have hsum : rnd ((ys ++ [z]).map value).sum = .fin ((ys ++ [z]).map value).sum := by
        have := h.2 (ys ++ [z]).length
        rwa [e', List.take_left] at this
      rw [← ih _ e', ← hsum, List.foldl_cons, hz, List.map_append, List.sum_append]
      simp only [add, value, List.map_cons, List.map_nil, List.sum_cons, List.sum_nil, add_zero]
  exact hfold [] xs rfl

/-- A finite number added to a number gives no NaN. -/
theorem foldl_add_ne_nan {rnd : ℚ → F64} (hrnd : ∀ q, rnd q ≠ .nan) {xs : List F64}
    (hxs : ∀ x ∈ xs, ∃ q, x = .fin q) {y : F64} (hy : y ≠ .nan) : xs.foldl (add rnd) y ≠ .nan := by
  induction xs generalizing y with
  | nil => exact hy
  | cons x xs ih =>
    obtain ⟨q, rfl⟩ := hxs x List.mem_cons_self
    refine ih (fun x hx => hxs x (List.mem_cons_of_mem _ hx)) ?_
    cases y with
    | fin p => exact hrnd _
    | inf s => exact F64.noConfusion
    | nan => exact absurd rfl hy

/-! ## Rounding -/

/-- The integer nearest to a number, of two the even one. -/
def roundEven (q : ℚ) : ℤ :=
  if q - ⌊q⌋ < 1 / 2 then ⌊q⌋
  else if 1 / 2 < q - ⌊q⌋ then ⌊q⌋ + 1
  else if ⌊q⌋ % 2 = 0 then ⌊q⌋ else ⌊q⌋ + 1

/-- The place value of the last of 53 digits is a power of two with this
exponent; below it there are the subnormal numbers. -/
def lastPlace (q : ℚ) : ℤ := max (Int.log 2 |q| - 52) (-1074)

/-- The double nearest to a number. -/
def round (q : ℚ) : F64 :=
  let r := roundEven (q / 2 ^ lastPlace q) * (2 : ℚ) ^ lastPlace q
  if 2 ^ 1024 ≤ |r| then .inf (decide (r < 0)) else .fin r

theorem round_ne_nan (q : ℚ) : round q ≠ .nan := by
  rw [round]
  split_ifs <;> exact F64.noConfusion

theorem roundEven_intCast (z : ℤ) : roundEven z = z := by
  rw [roundEven, Int.floor_intCast, sub_self, if_pos (by norm_num)]

theorem lastPlace_nonpos {q : ℚ} (h : |q| < 2 ^ 53) : lastPlace q ≤ 0 := by
  rcases (abs_nonneg q).eq_or_lt with h0 | h0
  · rw [lastPlace, ← h0, Int.log_zero_right]
    decide
  · have hlog : Int.log 2 |q| < 53 := (Int.lt_zpow_iff_log_lt (by decide) h0).mp (by exact_mod_cast h)
    exact max_le (by omega) (by decide)

/-- The integers of up to 53 digits are doubles. -/
theorem round_intCast {z : ℤ} (h : |z| < 2 ^ 53) : round z = .fin z := by
  have hq : |(z : ℚ)| < 2 ^ 53 := by exact_mod_cast h
  obtain ⟨n, hn⟩ := Int.eq_ofNat_of_zero_le (neg_nonneg.mpr (lastPlace_nonpos hq))
  have hpow : (2 : ℚ) ^ lastPlace z = ((2 : ℚ) ^ n)⁻¹ := by
    rw [← neg_neg (lastPlace (z : ℚ)), hn, zpow_neg, zpow_natCast]
  have hscale : (z : ℚ) / 2 ^ lastPlace z = ((z * 2 ^ n : ℤ) : ℚ) := by
    rw [hpow, div_inv_eq_mul]
    push_cast
    rfl
  have hr : (roundEven ((z : ℚ) / 2 ^ lastPlace z) : ℚ) * 2 ^ lastPlace z = z := by
    rw [hscale, roundEven_intCast, hpow]
    push_cast
    rw [mul_assoc, mul_inv_cancel₀ (by positivity), mul_one]
  rw [round, hr]
  exact if_neg (not_le.mpr (hq.trans_le (pow_le_pow_right₀ (by norm_num) (by decide))))

theorem round_natCast {n : ℕ} (h : n < 2 ^ 53) : round n = .fin n := by
  have hz : |(n : ℤ)| < 2 ^ 53 := by
    rw [Nat.abs_cast]
    exact_mod_cast h
  exact_mod_cast round_intCast hz

/-! ## The total order -/

/-- The place of a value in the total order. -/
def place : F64 → Nat ×ₗ ℚ
  | .inf true => toLex (0, 0)
  | .fin q => toLex (1, q)
  | .inf false => toLex (2, 0)
  | .nan => toLex (3, 0)

/-- The value at a place. -/
def ofPlace (p : Nat ×ₗ ℚ) : F64 :=
  match ofLex p with
  | (0, _) => .inf true
  | (1, q) => .fin q
  | (2, _) => .inf false
  | _ => .nan

theorem ofPlace_place (x : F64) : ofPlace (place x) = x := by
  cases x with
  | fin q => rfl
  | inf s => cases s <;> rfl
  | nan => rfl

/-- The order databases sort by: NaN comes after everything. -/
instance : LinearOrder F64 := LinearOrder.lift' place (Function.LeftInverse.injective ofPlace_place)

instance : Zero F64 := ⟨.fin 0⟩

theorem strictMono_place : StrictMono place := fun _ _ h => h

theorem compare_eq_compare_place (x y : F64) : compare x y = compare (place x) (place y) := by
  rw [← cmp_eq_compare, ← cmp_eq_compare]
  exact (strictMono_place.cmp_map_eq x y).symm

/-- But for NaN, the two orders agree. -/
theorem partialCmp_eq_compare {x y : F64} (hx : x ≠ .nan) (hy : y ≠ .nan) :
    x.partialCmp y = some (compare x y) := by
  rw [compare_eq_compare_place]
  cases x with
  | nan => exact absurd rfl hx
  | fin p =>
    cases y with
    | nan => exact absurd rfl hy
    | fin q =>
      have hmono : StrictMono fun r : ℚ => place (.fin r) := fun p q h =>
        Prod.Lex.toLex_lt_toLex.mpr (.inr ⟨rfl, h⟩)
      refine congrArg some ?_
      rw [← cmp_eq_compare, ← cmp_eq_compare]
      exact (hmono.cmp_map_eq p q).symm
    | inf t => cases t <;> rfl
  | inf s =>
    cases y with
    | nan => exact absurd rfl hy
    | fin q => cases s <;> rfl
    | inf t => cases s <;> cases t <;> rfl

theorem partialCmp_nan_left (y : F64) : partialCmp .nan y = none := by cases y <;> rfl

theorem partialCmp_nan_right (x : F64) : x.partialCmp .nan = none := by cases x <;> rfl

/-! ## Rounding and the order -/

theorem le_roundEven {z : ℤ} {q : ℚ} (h : z ≤ q) : z ≤ roundEven q := by
  have hz : z ≤ ⌊q⌋ := Int.le_floor.mpr h
  rw [roundEven]
  split_ifs <;> omega

theorem roundEven_mono {p q : ℚ} (h : p ≤ q) : roundEven p ≤ roundEven q := by
  rcases (Int.floor_mono h).lt_or_eq with hlt | heq
  · have hp : roundEven p ≤ ⌊p⌋ + 1 := by
      rw [roundEven]
      split_ifs <;> omega
    exact hp.trans (le_roundEven ((Int.cast_le.mpr hlt).trans (Int.floor_le q)))
  · rw [roundEven, roundEven, heq]
    split_ifs <;> first | omega | (exfalso; linarith)

theorem fin_le_fin {p q : ℚ} (h : p ≤ q) : F64.fin p ≤ .fin q :=
  Prod.Lex.toLex_le_toLex.mpr (.inr ⟨rfl, h⟩)

/-- What lies between two numbers is a number. -/
theorem exists_fin_of_between {p q : ℚ} {x : F64} (hp : .fin p ≤ x) (hq : x ≤ .fin q) :
    ∃ r, x = .fin r ∧ p ≤ r ∧ r ≤ q := by
  have hp : place (.fin p) ≤ place x := hp
  have hq : place x ≤ place (.fin q) := hq
  cases x with
  | fin r =>
    simp only [place, Prod.Lex.toLex_le_toLex, lt_self_iff_false, true_and, false_or] at hp hq
    exact ⟨r, rfl, hp, hq⟩
  | inf s => cases s <;> simp [place, Prod.Lex.toLex_le_toLex] at hp hq
  | nan => simp [place, Prod.Lex.toLex_le_toLex] at hq

/-- The last place grows with the number. -/
theorem lastPlace_mono {p q : ℚ} (hp : 0 < p) (h : p ≤ q) : lastPlace p ≤ lastPlace q := by
  rw [lastPlace, lastPlace, abs_of_pos hp, abs_of_pos (hp.trans_le h)]
  exact max_le_max (Int.sub_le_sub_right (Int.log_mono_right hp h) _) le_rfl

/-- What a number is rounded to, but for its size. -/
theorem scaled_le_scaled {p q : ℚ} (hp : 0 < p) (h : p ≤ q) :
    roundEven (p / 2 ^ lastPlace p) * (2 : ℚ) ^ lastPlace p ≤
      roundEven (q / 2 ^ lastPlace q) * (2 : ℚ) ^ lastPlace q := by
  have hpos : ∀ e : ℤ, (0 : ℚ) < 2 ^ e := fun e => zpow_pos (by norm_num) e
  have hcast : ∀ n : ℕ, (((2 : ℤ) ^ n : ℤ) : ℚ) = 2 ^ (n : ℤ) := fun n => by
    rw [Int.cast_pow, zpow_natCast]
    norm_num
  have hq : 0 < q := hp.trans_le h
  rcases (lastPlace_mono hp h).eq_or_lt with heq | hlt
  · rw [heq]
    have hdiv : p / 2 ^ lastPlace q ≤ q / 2 ^ lastPlace q :=
      div_le_div_of_nonneg_right h (hpos _).le
    exact mul_le_mul_of_nonneg_right (Int.cast_le.mpr (roundEven_mono hdiv)) (hpos _).le
  · -- up to its last place `q` has 53 digits, and `p` at most 53 up to a lower one
    have hplace : Int.log 2 p + 1 ≤ lastPlace p + 53 := by
      have := le_max_left (Int.log 2 |p| - 52) (-1074)
      rw [abs_of_pos hp] at this
      rw [lastPlace, abs_of_pos hp]
      omega
    have hlog : lastPlace q + 52 ≤ Int.log 2 q := by
      have hlow := (le_max_right (Int.log 2 |p| - 52) (-1074)).trans_lt hlt
      rw [lastPlace, abs_of_pos hq] at hlow ⊢
      omega
    have hp53 : p / 2 ^ lastPlace p ≤ ((2 ^ 53 : ℤ) : ℚ) := by
      rw [div_le_iff₀ (hpos _)]
      refine (Int.lt_zpow_succ_log_self one_lt_two p).le.trans ?_
      rw [hcast, ← zpow_add₀ (by norm_num)]
      exact zpow_le_zpow_right₀ (by norm_num) (by push_cast; omega)
    have hq52 : ((2 ^ 52 : ℤ) : ℚ) ≤ q / 2 ^ lastPlace q := by
      rw [le_div_iff₀ (hpos _)]
      refine le_trans ?_ (Int.zpow_log_le_self one_lt_two hq)
      rw [hcast, ← zpow_add₀ (by norm_num)]
      exact zpow_le_zpow_right₀ (by norm_num) (by push_cast; omega)
    have hrp : roundEven (p / 2 ^ lastPlace p) ≤ 2 ^ 53 :=
      (roundEven_mono hp53).trans_eq (roundEven_intCast _)
    calc (roundEven (p / 2 ^ lastPlace p) : ℚ) * 2 ^ lastPlace p
        ≤ 2 ^ 53 * 2 ^ lastPlace p :=
          mul_le_mul_of_nonneg_right (by exact_mod_cast hrp) (hpos _).le
      _ = 2 ^ 52 * 2 ^ (lastPlace p + 1) := by rw [zpow_add_one₀ (by norm_num)]; ring
      _ ≤ 2 ^ 52 * 2 ^ lastPlace q :=
          mul_le_mul_of_nonneg_left (zpow_le_zpow_right₀ (by norm_num) hlt) (by norm_num)
      _ ≤ roundEven (q / 2 ^ lastPlace q) * 2 ^ lastPlace q :=
          mul_le_mul_of_nonneg_right (by exact_mod_cast le_roundEven hq52) (hpos _).le

/-- Rounding keeps the order of the numbers that are not negative. -/
theorem round_mono {p q : ℚ} (hp : 0 ≤ p) (h : p ≤ q) : round p ≤ round q := by
  have hnonneg : ∀ q : ℚ, 0 ≤ q → (0 : ℚ) ≤ roundEven (q / 2 ^ lastPlace q) * 2 ^ lastPlace q := by
    intro q hq
    have h0 : ((0 : ℤ) : ℚ) ≤ q / 2 ^ lastPlace q := by
      rw [Int.cast_zero]
      exact div_nonneg hq (zpow_pos (by norm_num) _).le
    exact mul_nonneg (Int.cast_nonneg (le_roundEven h0)) (zpow_pos (by norm_num) _).le
  have hle : roundEven (p / 2 ^ lastPlace p) * (2 : ℚ) ^ lastPlace p ≤
      roundEven (q / 2 ^ lastPlace q) * (2 : ℚ) ^ lastPlace q := by
    rcases hp.eq_or_lt with rfl | hp
    · rw [zero_div, ← Int.cast_zero, roundEven_intCast, Int.cast_zero, zero_mul]
      exact hnonneg q h
    · exact scaled_le_scaled hp h
  rw [round, round, abs_of_nonneg (hnonneg p hp), abs_of_nonneg (hnonneg q (hp.trans h)),
    decide_eq_false (not_lt.mpr (hnonneg p hp)), decide_eq_false (not_lt.mpr (hnonneg q (hp.trans h)))]
  split_ifs with hP hQ hQ
  · exact le_rfl
  · exact absurd (hP.trans hle) hQ
  · exact Prod.Lex.toLex_le_toLex.mpr (.inl (Nat.lt_succ_self 1))
  · exact fin_le_fin hle

end F64

end MikanJudge.Lib
