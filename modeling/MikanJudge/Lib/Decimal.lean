import MikanJudge.Lib.Trim
import Mathlib.Algebra.Order.Field.Rat
import Mathlib.Data.Nat.Digits.Lemmas
import Mathlib.Tactic.FieldSimp

/-!
# Decimal numbers as text

A decimal number is a sign, integer digits, of which there is at least one, and
the digits after the point. Reading its text gives it back (`ofText_text`), so a
text denotes one number (`numberOf`). Without the zeros at the end it is the same
number (`value_short`); its text is that of the number trimmed of zeros and then of
the point (`trim_text`), as long as there is a point at which the zeros end.
-/

namespace MikanJudge.Lib

structure Decimal where
  neg : Bool
  int : List (Fin 10)
  int_ne_nil : int ≠ []
  frac : List (Fin 10)

namespace Decimal

/-! ## Text and value -/

def digitChars (ds : List (Fin 10)) : List Char := ds.map fun d => d.val.digitChar

/-- The sign and the integer digits. -/
def intText (d : Decimal) : List Char := (if d.neg then ['-'] else []) ++ digitChars d.int

def fracText : List (Fin 10) → List Char
  | [] => []
  | ds => '.' :: digitChars ds

def text (d : Decimal) : List Char := d.intText ++ fracText d.frac

/-- The number that digits denote. -/
def natValue (ds : List (Fin 10)) : Nat := Nat.ofDigits 10 (ds.reverse.map (·.val))

def value (d : Decimal) : ℚ :=
  (if d.neg then -1 else 1) * natValue (d.int ++ d.frac) / 10 ^ d.frac.length

/-- The number without the zeros at its end. -/
def short (d : Decimal) : Decimal := { d with frac := d.frac.rdropWhile (· == 0) }

/-- Digits by their numbers. -/
def digits (ns : List Nat) : List (Fin 10) := ns.map (Fin.ofNat 10)

/-! ## Reading -/

def digit? (c : Char) : Option (Fin 10) := (List.finRange 10).find? fun d => d.val.digitChar == c

def splitSign : List Char → Bool × List Char
  | '-' :: cs => (true, cs)
  | cs => (false, cs)

/-- What follows the integer digits: nothing, or a point and at least one digit. -/
def readFrac : List Char → Option (List (Fin 10))
  | [] => some []
  | [_] => none
  | _ :: cs => cs.mapM digit?

def ofText (s : List Char) : Option Decimal := do
  let (neg, body) := splitSign s
  let int ← (body.takeWhile (· ≠ '.')).mapM digit?
  let frac ← readFrac (body.dropWhile (· ≠ '.'))
  if h : int = [] then none else some ⟨neg, int, h, frac⟩

/-- The number a text denotes. -/
def numberOf (s : List Char) : Option ℚ := (ofText s).map value

example : numberOf "-100.250000".toList = some (-401 / 4) := by decide +kernel

theorem digit?_digitChar : ∀ d : Fin 10, digit? d.val.digitChar = some d := by decide

theorem digitChar_ne : ∀ d : Fin 10, d.val.digitChar ≠ '.' ∧ d.val.digitChar ≠ '-' := by decide

theorem digitChar_eq_zero_iff : ∀ d : Fin 10, d.val.digitChar = '0' ↔ d = 0 := by decide

theorem mapM_digit? (ds : List (Fin 10)) : (digitChars ds).mapM digit? = some ds := by
  induction ds with
  | nil => rfl
  | cons d ds ih =>
    rw [digitChars] at ih
    rw [digitChars, List.map_cons, List.mapM_cons, digit?_digitChar, ih]
    rfl

theorem ne_point_of_mem_digitChars {ds : List (Fin 10)} {c : Char} (h : c ∈ digitChars ds) :
    c ≠ '.' := by
  obtain ⟨d, -, rfl⟩ := List.mem_map.mp h
  exact (digitChar_ne d).1

theorem readFrac_fracText (ds : List (Fin 10)) : readFrac (fracText ds) = some ds := by
  cases ds with
  | nil => rfl
  | cons d ds => exact mapM_digit? (d :: ds)

/-- Up to the point there are the integer digits, after it the others. -/
theorem takeWhile_ne_point {s : List Char} (hs : ∀ c ∈ s, c ≠ '.') (ds : List (Fin 10)) :
    (s ++ fracText ds).takeWhile (· ≠ '.') = s ∧
      (s ++ fracText ds).dropWhile (· ≠ '.') = fracText ds := by
  have hs' : ∀ c ∈ s, decide (c ≠ '.') = true := fun c hc => decide_eq_true (hs c hc)
  rw [List.takeWhile_append_of_pos hs', List.dropWhile_append_of_pos hs']
  cases ds with
  | nil => simp [fracText]
  | cons d ds => simp [fracText]

theorem splitSign_of_ne {c : Char} (h : c ≠ '-') (cs : List Char) :
    splitSign (c :: cs) = (false, c :: cs) := by
  rw [splitSign]
  rintro cs' ⟨⟩
  exact h rfl

theorem splitSign_text (d : Decimal) :
    splitSign d.text = (d.neg, digitChars d.int ++ fracText d.frac) := by
  rw [text, intText]
  cases d.neg with
  | true => rfl
  | false =>
    obtain ⟨n, ns, hint⟩ := List.exists_cons_of_ne_nil d.int_ne_nil
    rw [hint, if_neg (by decide), List.nil_append, digitChars, List.map_cons, List.cons_append]
    exact splitSign_of_ne (digitChar_ne n).2 _

theorem ofText_text (d : Decimal) : ofText d.text = some d := by
  obtain ⟨htake, hdrop⟩ := takeWhile_ne_point (s := digitChars d.int)
    (fun _ => ne_point_of_mem_digitChars) d.frac
  rw [ofText, splitSign_text]
  simp only [htake, hdrop, mapM_digit?, readFrac_fracText]
  exact dif_neg d.int_ne_nil

theorem text_injective {d d' : Decimal} (h : d.text = d'.text) : d = d' :=
  Option.some.inj ((ofText_text d).symm.trans ((congrArg ofText h).trans (ofText_text d')))

@[simp] theorem numberOf_text (d : Decimal) : numberOf d.text = some d.value := by
  rw [numberOf, ofText_text, Option.map_some]

/-! ## Zeros at the end -/

variable {ds : List (Fin 10)}

/-- Digits without the zeros at their end, and these. -/
theorem exists_zeros (ds : List (Fin 10)) :
    ∃ k, ds = ds.rdropWhile (· == 0) ++ List.replicate k 0 := by
  refine ⟨(ds.rtakeWhile (· == 0)).length, ?_⟩
  have hzeros : ds.rtakeWhile (· == 0) = List.replicate (ds.rtakeWhile (· == 0)).length 0 :=
    List.eq_replicate_of_mem fun d hd => by
      have hzero := List.mem_rtakeWhile_imp hd
      exact beq_iff_eq.mp hzero
  rw [← hzeros, List.rdropWhile_append_rtakeWhile]

theorem natValue_append_zeros (ds : List (Fin 10)) (k : Nat) :
    natValue (ds ++ List.replicate k 0) = natValue ds * 10 ^ k := by
  rw [natValue, natValue, List.reverse_append, List.map_append, Nat.ofDigits_append,
    List.reverse_replicate, List.map_replicate, Fin.val_zero, Nat.ofDigits_replicate_zero,
    List.length_replicate, Nat.zero_add, Nat.mul_comm]

theorem value_short (d : Decimal) : d.short.value = d.value := by
  obtain ⟨k, hk⟩ := exists_zeros d.frac
  have hnat : natValue (d.int ++ d.frac) =
      natValue (d.int ++ d.frac.rdropWhile (· == 0)) * 10 ^ k := by
    rw [← natValue_append_zeros, List.append_assoc, ← hk]
  have hlen : d.frac.length = (d.frac.rdropWhile (· == 0)).length + k := by
    rw [← List.length_replicate (n := k) (a := (0 : Fin 10)), ← List.length_append, ← hk]
  rw [value, value, hnat, hlen, short, pow_add, Nat.cast_mul, Nat.cast_pow, Nat.cast_ofNat]
  field_simp

/-- Among numbers with as many digits after the point, none is lost. -/
theorem eq_of_short_eq {d d' : Decimal} (h : d.short = d'.short)
    (hlen : d.frac.length = d'.frac.length) : d = d' := by
  obtain ⟨k, hk⟩ := exists_zeros d.frac
  obtain ⟨k', hk'⟩ := exists_zeros d'.frac
  have hfrac : d.frac.rdropWhile (· == 0) = d'.frac.rdropWhile (· == 0) := congrArg Decimal.frac h
  have hcount : k = k' := by
    rw [hk, hk', List.length_append, List.length_append, List.length_replicate,
      List.length_replicate, hfrac] at hlen
    omega
  have hsame : d.frac = d'.frac := by rw [hk, hk', hfrac, hcount]
  have hneg : d.neg = d'.neg := by
    show d.short.neg = d'.short.neg
    rw [h]
  have hint : d.int = d'.int := by
    show d.short.int = d'.short.int
    rw [h]
  cases d
  cases d'
  simp only [mk.injEq]
  exact ⟨hneg, hint, hsame⟩

/-! ## The last character -/

theorem getLast?_append_digitChars (s : List Char) (h : ds ≠ []) :
    (s ++ digitChars ds).getLast? = some (ds.getLast h).val.digitChar := by
  have hne : digitChars ds ≠ [] := fun e => h (List.map_eq_nil_iff.mp e)
  rw [List.getLast?_append_of_ne_nil _ hne, digitChars, List.getLast?_map,
    List.getLast?_eq_some_getLast h, Option.map_some]

theorem text_of_frac_eq_nil {d : Decimal} (h : d.frac = []) : d.text = d.intText := by
  rw [text, h, fracText, List.append_nil]

theorem text_of_frac_ne_nil {d : Decimal} (h : d.frac ≠ []) :
    d.text = d.intText ++ ['.'] ++ digitChars d.frac := by
  obtain ⟨n, ns, hfrac⟩ := List.exists_cons_of_ne_nil h
  rw [text, hfrac, fracText, List.append_assoc, List.singleton_append]
  exact List.cons_ne_nil n ns

/-- A text ends in a digit. -/
theorem getLast?_text_ne_point (d : Decimal) : d.text.getLast? ≠ some '.' := by
  by_cases h : d.frac = []
  · rw [text_of_frac_eq_nil h, intText, getLast?_append_digitChars _ d.int_ne_nil, Ne,
      Option.some.injEq]
    exact (digitChar_ne _).1
  · rw [text_of_frac_ne_nil h, getLast?_append_digitChars _ h, Ne, Option.some.injEq]
    exact (digitChar_ne _).1

theorem point_notMem_intText (d : Decimal) : ∀ c ∈ d.intText, c ≠ '.' := by
  intro c hc
  rcases List.mem_append.mp hc with hsign | hdigit
  · split_ifs at hsign
    · rw [List.mem_singleton.mp hsign]
      decide
    · exact absurd hsign List.not_mem_nil
  · exact ne_point_of_mem_digitChars hdigit

/-- Before the point there are the sign and the integer digits. -/
theorem takeWhile_text (d : Decimal) : d.text.takeWhile (· ≠ '.') = d.intText :=
  (takeWhile_ne_point (point_notMem_intText d) d.frac).1

theorem text_ne_nil (d : Decimal) : d.text ≠ [] := by
  intro h
  have hread := ofText_text d
  rw [h] at hread
  cases hread

/-- What is after the point does not end in a zero. -/
theorem getLast?_short_ne_zero {d : Decimal} (h : '.' ∈ d.short.text) :
    d.short.text.getLast? ≠ some '0' := by
  by_cases hnil : d.short.frac = []
  · rw [text_of_frac_eq_nil hnil] at h
    exact absurd rfl (point_notMem_intText _ _ h)
  · have hlast := List.rdropWhile_last_not (· == 0) d.frac hnil
    rw [text_of_frac_ne_nil hnil, getLast?_append_digitChars _ hnil, Ne, Option.some.injEq,
      digitChar_eq_zero_iff]
    exact fun hzero => hlast (beq_iff_eq.mpr hzero)

/-! ## Trimming the text -/

/-- Trimming the zeros stops at the point, if not before. -/
theorem trim_text {d : Decimal} (h : d.frac ≠ []) :
    (d.text.rdropWhile (· == '0')).rdropWhile (· == '.') = d.short.text := by
  obtain ⟨k, hk⟩ := exists_zeros d.frac
  have hzeros : Blank (· == '0') (digitChars (List.replicate k 0)) := by
    intro c hc
    obtain ⟨n, hn, rfl⟩ := List.mem_map.mp hc
    rw [List.eq_of_mem_replicate hn]
    decide
  have htext : d.text.rdropWhile (· == '0') =
      (d.intText ++ ['.'] ++ digitChars d.short.frac).rdropWhile (· == '0') := by
    have hdigits : digitChars d.frac =
        digitChars d.short.frac ++ digitChars (List.replicate k 0) := by
      rw [digitChars, digitChars, digitChars, ← List.map_append]
      exact congrArg _ hk
    rw [text_of_frac_ne_nil h, hdigits, ← List.append_assoc, rdropWhile_append_blank hzeros]
  rw [htext]
  have hpoint : d.short.text.rdropWhile (· == '.') = d.short.text :=
    rdropWhile_eq_of_getLast? fun c hc hdot =>
      getLast?_text_ne_point d.short (hc.trans (congrArg some (beq_iff_eq.mp hdot)))
  by_cases hnil : d.short.frac = []
  · -- only the point is left after the integer digits, and goes next
    rw [text_of_frac_eq_nil hnil] at hpoint ⊢
    have hstop : (d.intText ++ ['.']).rdropWhile (· == '0') = d.intText ++ ['.'] :=
      List.rdropWhile_concat_neg _ _ _ (by decide)
    rw [hnil, digitChars, List.map_nil, List.append_nil, hstop,
      List.rdropWhile_concat_pos _ _ _ (by decide)]
    exact hpoint
  · have hdot : '.' ∈ d.short.text := by
      rw [text_of_frac_ne_nil hnil]
      simp
    have hstop : d.short.text.rdropWhile (· == '0') = d.short.text :=
      rdropWhile_eq_of_getLast? fun c hc hzero =>
        getLast?_short_ne_zero hdot (hc.trans (congrArg some (beq_iff_eq.mp hzero)))
    have hshort : d.intText ++ ['.'] ++ digitChars d.short.frac = d.short.text :=
      (text_of_frac_ne_nil hnil).symm
    rw [hshort, hstop, hpoint]

end Decimal

end MikanJudge.Lib
