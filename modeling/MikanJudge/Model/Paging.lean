import MikanJudge.Model.ContestPages
import MikanJudge.Model.Limits

/-!
# The arithmetic of pages

What the handlers compute from the number of rows and the page asked for, in
the arithmetic of the source: an `i64` or `usize` result that does not fit
panics in a debug build and wraps in a release build, and so does a slice out of
bounds in both. `none` is a panic. The pages of `Model/Standings.lean` and
`Model/ContestPages.lean` have the results in integers.
-/

namespace MikanJudge

/-- An `i64` result. -/
def Build.i64 (b : Build) (n : Int) : Option Int :=
  if -2 ^ 63 ≤ n ∧ n < 2 ^ 63 then some n
  else match b with
    | debug => none
    | release => some (n.bmod (2 ^ 64))

/-- `((total + PER_PAGE - 1) / PER_PAGE).max(1)`. -/
def Build.totalPages (b : Build) (total : Int) : Option Int := do
  let sum ← b.i64 (total + perPage)
  let dividend ← b.i64 (sum - 1)
  return max (dividend.tdiv perPage) 1

/-- `(page - 1) * per_page`. -/
def Build.offset (b : Build) (page perPage : Int) : Option Int := do
  let before ← b.i64 (page - 1)
  b.i64 (before * perPage)

/-- `&rows[start..end]`. -/
def slice {α : Type} (rows : List α) (start stop : Nat) : Option (List α) :=
  if start ≤ stop ∧ stop ≤ rows.length then some ((rows.drop start).take (stop - start)) else none

/-- The bounds of the slice that `contest_standings` takes, the page, and the
number of pages. -/
def Build.standingsBounds (b : Build) (len : Nat) (page : Option Int) :
    Option (Nat × Nat × Int × Int) := do
  let total := toI64 len
  let totalPages ← b.totalPages total
  let page := clampPage page totalPages
  let start := toU64 (← b.offset page perPage)
  let stop := min (← b.u64 (start + perPage.toNat)) len
  return (start, stop, page, totalPages)

/-- The rows that `contest_standings` shows, the page, and the number of pages. -/
def Build.standingsPage {α : Type} (b : Build) (rows : List α) (page : Option Int) :
    Option (List α × Int × Int) := do
  let (start, stop, page, totalPages) ← b.standingsBounds rows.length page
  let shown ← slice rows start stop
  return (shown, page, totalPages)

/-- The page and the `OFFSET` of the lists of submissions
(`contest_submissions_index`, `contest_submissions_my`), and the number of pages. -/
def Build.submissionsPage (b : Build) (total : Int) (page : Option Int) :
    Option (Int × Int × Int) := do
  let page := max (page.getD 1) 1
  let totalPages ← b.totalPages total
  let page := min page totalPages
  let offset ← b.offset page perPage
  return (page, offset, totalPages)

end MikanJudge
