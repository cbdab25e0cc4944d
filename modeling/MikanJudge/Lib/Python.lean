import MikanJudge.Lib.Float
import MikanJudge.Lib.Utf8
import Mathlib.Data.List.SplitBy
import Mathlib.Data.Nat.Digits.Defs

/-!
# Built-ins of Python

Reading the integers of a file (`readInts`): the text is decoded strictly, cut
at whitespace, and each piece read by `int`. Integers have no bounds. `mod`
and `trueDiv` fail for a divisor that is zero, `getItem` for an index that is
not in the list; a negative index counts from the end. The quotient of two
integers is the double nearest to it.
-/

namespace MikanJudge.Lib.Py

inductive Exn where
  | osError
  | unicodeDecodeError
  | valueError
  | indexError
  | zeroDivisionError
  | overflowError
  deriving DecidableEq

/-- What depends on the version and its settings: the decimal digits outside
ASCII, and how many digits `int` takes. -/
structure Version where
  decimal : Char → Option (Fin 10)
  maxStrDigits : Option Nat

/-! ## Text -/

/-- `str.isspace` of a character. -/
def isSpace (c : Char) : Bool :=
  let n := c.toNat
  (9 ≤ n && n ≤ 13) || (28 ≤ n && n ≤ 32) || n == 0x85 || n == 0xA0 || n == 0x1680 ||
    (0x2000 ≤ n && n ≤ 0x200A) || n == 0x2028 || n == 0x2029 || n == 0x202F || n == 0x205F ||
    n == 0x3000

/-- `str.split()`. -/
def split (s : List Char) : List (List Char) := (s.splitOnP isSpace).filter (· ≠ [])

namespace Version

variable (v : Version)

def digit (c : Char) : Option Nat :=
  if c.toNat < 128 then if c.isDigit then some (c.toNat - 48) else none
  else (v.decimal c).map (·.val)

/-- Digits, with single underscores between them. -/
def digits : List Char → Option (List Nat)
  | [] => none
  | [c] => (v.digit c).map fun d => [d]
  | c :: '_' :: cs => do return (← v.digit c) :: (← digits cs)
  | c :: cs => do return (← v.digit c) :: (← digits cs)

/-- `int` of a string without whitespace. -/
def int (s : List Char) : Except Exn Int :=
  let (neg, body) := match s with
    | '-' :: cs => (true, cs)
    | '+' :: cs => (false, cs)
    | cs => (false, cs)
  match v.digits body with
  | none => .error .valueError
  | some ds =>
    if v.maxStrDigits.any (· < ds.length) then .error .valueError
    else
      let value : Int := Nat.ofDigits 10 ds.reverse
      .ok (if neg then -value else value)

/-- `list(map(int, f.read().split()))` for a file opened as UTF-8; `none` is one
that cannot be read. -/
def readInts (file : Option (List UInt8)) : Except Exn (List Int) :=
  match file with
  | none => .error .osError
  | some bytes =>
    match Utf8.decodeStrict bytes with
    | none => .error .unicodeDecodeError
    | some text => (split text).mapM v.int

end Version

/-! ## Lists and numbers -/

/-- `xs[i]`. -/
def getItem {α : Type*} (xs : List α) (i : Int) : Except Exn α :=
  let j := if i < 0 then i + xs.length else i
  if j < 0 then .error .indexError
  else match xs[j.toNat]? with
    | none => .error .indexError
    | some x => .ok x

/-- `a % b`. -/
def mod (a b : Int) : Except Exn Int := if b = 0 then .error .zeroDivisionError else .ok (a.fmod b)

/-- `a / b`. -/
def trueDiv (a b : Int) : Except Exn F64 :=
  if b = 0 then .error .zeroDivisionError
  else match F64.round ((a : ℚ) / b) with
    | .fin q => .ok (.fin q)
    | _ => .error .overflowError

/-- `round(x)`. -/
def round : F64 → Except Exn Int
  | .fin q => .ok (F64.roundEven q)
  | .inf _ => .error .overflowError
  | .nan => .error .valueError

theorem getItem_of_lt {α : Type*} {xs : List α} {i : Int} (h₀ : 0 ≤ i) (h : i < xs.length) (d : α) :
    getItem xs i = .ok (xs.getD i.toNat d) := by
  have hi : i.toNat < xs.length := by omega
  rw [getItem, if_neg (by omega), if_neg (by omega), List.getElem?_eq_getElem hi,
    List.getD_eq_getElem?_getD, List.getElem?_eq_getElem hi]
  rfl

theorem mod_of_pos {a b : Int} (h : 0 < b) : mod a b = .ok (a % b) := by
  rw [mod, if_neg (by omega), Int.fmod_eq_emod_of_nonneg _ h.le]

/-- The rounded quotient of two integers is between the bounds of the quotient. -/
theorem round_trueDiv_mem {a b : Int} {k : Nat} (hb : 0 < b) (h₀ : 0 ≤ a) (h : a ≤ k * b)
    (hk : k < 2 ^ 53) : ∃ z, (trueDiv a b).bind round = .ok z ∧ 0 ≤ z ∧ z ≤ k := by
  have hb' : (0 : ℚ) < b := Int.cast_pos.mpr hb
  have hq₀ : (0 : ℚ) ≤ (a : ℚ) / b := div_nonneg (Int.cast_nonneg h₀) hb'.le
  have hq : (a : ℚ) / b ≤ k := by
    rw [div_le_iff₀ hb']
    exact_mod_cast h
  have hlow := F64.round_mono le_rfl hq₀
  have hhigh := F64.round_mono hq₀ hq
  rw [← Nat.cast_zero, F64.round_natCast (by decide)] at hlow
  rw [F64.round_natCast hk] at hhigh
  obtain ⟨r, hr, hr₀, hrk⟩ := F64.exists_fin_of_between hlow hhigh
  refine ⟨F64.roundEven r, ?_, F64.le_roundEven (by exact_mod_cast hr₀), ?_⟩
  · rw [trueDiv, if_neg hb.ne', hr]
    rfl
  · exact (F64.roundEven_mono hrk).trans_eq (F64.roundEven_intCast k)

end MikanJudge.Lib.Py
