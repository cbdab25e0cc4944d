import MikanJudge.Lib.Decimal
import MikanJudge.Model.Pages

/-!
# The text of a score

`format_score` trims the zeros of what `{:.6}` has printed, and then the point. The
point is where the zeros of the integer part are safe: what is left is the text of the
same number without the zeros at its end (`formatScore_eq`), and that number
determines the six digits it comes from (`formatScore_faithful`).
-/

namespace MikanJudge

open MikanJudge.Lib

/-- `{:.6}` prints a value as this number, with six digits after the point. -/
structure PrintsAs (ext : Externals) (value : F64) (d : Decimal) : Prop where
  text : (ext.fmtFixed6 value).toList = d.text
  six : d.frac.length = 6

section

variable {ext : Externals} {value value' : F64} {d d' : Decimal}

theorem PrintsAs.frac_ne_nil (h : PrintsAs ext value d) : d.frac ≠ [] := by
  intro hnil
  have hsix := h.six
  rw [hnil] at hsix
  cases hsix

theorem formatScore_eq (h : PrintsAs ext value d) :
    (formatScore ext value).toList = d.short.text := by
  rw [formatScore, String.toList_ofList, h.text, Decimal.trim_text h.frac_ne_nil]

theorem formatScore_eq_iff (h : PrintsAs ext value d) (h' : PrintsAs ext value' d') :
    formatScore ext value = formatScore ext value' ↔
      ext.fmtFixed6 value = ext.fmtFixed6 value' := by
  rw [← String.toList_inj, ← String.toList_inj, formatScore_eq h, formatScore_eq h', h.text, h'.text]
  constructor
  · intro heq
    have hsame := Decimal.eq_of_short_eq (Decimal.text_injective heq) (h.six.trans h'.six.symm)
    rw [hsame]
  · intro heq
    rw [Decimal.text_injective heq]

end

/-- The text of a score denotes the number that was printed, with the same integer
digits; it is not empty, and ends neither in a point nor, after one, in a zero.
Different prints have different texts. -/
theorem formatScore_faithful (ext : Externals) {value value' : F64} {d d' : Decimal}
    (h : PrintsAs ext value d) (h' : PrintsAs ext value' d') :
    Decimal.numberOf (ext.fmtFixed6 value).toList = some d.value ∧
    Decimal.numberOf (formatScore ext value).toList = some d.value ∧
    formatScore ext value ≠ "" ∧
    (formatScore ext value).toList.getLast? ≠ some '.' ∧
    ('.' ∈ (formatScore ext value).toList →
      (formatScore ext value).toList.getLast? ≠ some '0') ∧
    (formatScore ext value).toList.takeWhile (· ≠ '.') = d.intText ∧
    (ext.fmtFixed6 value).toList.takeWhile (· ≠ '.') = d.intText ∧
    (formatScore ext value = formatScore ext value' ↔
      ext.fmtFixed6 value = ext.fmtFixed6 value') := by
  have hne : formatScore ext value ≠ "" := by
    intro hempty
    have htext := formatScore_eq h
    rw [hempty] at htext
    exact Decimal.text_ne_nil d.short htext.symm
  have hnumber : Decimal.numberOf d.short.text = some d.value := by
    rw [Decimal.numberOf_text, Decimal.value_short]
  rw [formatScore_eq_iff h h', formatScore_eq h, h.text]
  exact ⟨Decimal.numberOf_text d, hnumber, hne, Decimal.getLast?_text_ne_point _,
    Decimal.getLast?_short_ne_zero, Decimal.takeWhile_text _, Decimal.takeWhile_text d, Iff.rfl⟩

/-! ### Hundred, and minus a quarter -/

/-- An instance that prints two numbers. -/
def twoScoresExternals : Externals :=
  { Externals.simple with
    fmtFixed6 := fun value => if value = .fin 100 then "100.000000" else "-0.250000" }

def hundred : Decimal :=
  ⟨false, Decimal.digits [1, 0, 0], List.cons_ne_nil _ _, Decimal.digits [0, 0, 0, 0, 0, 0]⟩

def minusQuarter : Decimal :=
  ⟨true, Decimal.digits [0], List.cons_ne_nil _ _, Decimal.digits [2, 5, 0, 0, 0, 0]⟩

theorem formatScore_faithful_hundred :
    Decimal.numberOf (formatScore twoScoresExternals (.fin 100)).toList = some hundred.value ∧
    formatScore twoScoresExternals (.fin 100) ≠ formatScore twoScoresExternals (.fin (-1 / 4)) := by
  have hhundred : PrintsAs twoScoresExternals (.fin 100) hundred := ⟨by decide, by decide⟩
  have hquarter : PrintsAs twoScoresExternals (.fin (-1 / 4)) minusQuarter :=
    ⟨by decide +kernel, by decide⟩
  obtain ⟨-, hnumber, -, -, -, -, -, hiff⟩ :=
    formatScore_faithful twoScoresExternals hhundred hquarter
  exact ⟨hnumber, fun h => absurd (hiff.mp h) (by decide +kernel)⟩

example : formatScore twoScoresExternals (.fin 100) = "100" := by decide

end MikanJudge
