import MikanJudge.Lib.Windows
import MikanJudge.Model.Paging

/-!
# The pages of a list

With fewer than `2 ^ 62` rows nothing overflows: the arithmetic of the handlers
is that of the integers (`standingsPage_eq`, `submissionsPage_eq`), and each
page is a window of the rows (`pageRows_eq_window`).
-/

namespace MikanJudge

open MikanJudge.Lib

variable {b : Build}

theorem Build.i64_of_fits {n : Int} (hlow : -2 ^ 63 ≤ n) (hhigh : n < 2 ^ 63) :
    b.i64 n = some n :=
  if_pos ⟨hlow, hhigh⟩

theorem toI64_of_lt {n : Nat} (h : n < 2 ^ 63) : toI64 n = n := by
  have hmod : n % 2 ^ 64 = n := Nat.mod_eq_of_lt (by omega)
  rw [toI64, hmod, if_pos h]
  exact Int.emod_eq_of_lt (by omega) (by omega)

theorem toU64_of_nonneg {n : Int} (h₀ : 0 ≤ n) (h : n < 2 ^ 64) : toU64 n = n.toNat := by
  rw [toU64, Int.emod_eq_of_lt h₀ h]

/-! ## The number of pages -/

theorem totalPages_eq {total : Int} (h : 0 ≤ total) : totalPages total = max ((total + 19) / 20) 1 := by
  have hsum : total + perPage - 1 = total + 19 := by rw [perPage]; omega
  rw [totalPages, hsum, Int.tdiv_eq_ediv_of_nonneg (by omega), perPage]

theorem one_le_totalPages (total : Int) : 1 ≤ totalPages total := le_max_right _ _

theorem length_le_totalPages (n : Nat) : n ≤ (totalPages n).toNat * 20 := by
  rw [totalPages_eq (Int.natCast_nonneg n)]
  omega

theorem Build.totalPages_eq {total : Int} (h₀ : 0 ≤ total) (h : total < 2 ^ 62) :
    b.totalPages total = some (MikanJudge.totalPages total) := by
  have hperPage : perPage = 20 := rfl
  have hsum : b.i64 (total + perPage) = some (total + perPage) :=
    Build.i64_of_fits (by omega) (by omega)
  have hdividend : b.i64 (total + perPage - 1) = some (total + perPage - 1) :=
    Build.i64_of_fits (by omega) (by omega)
  simp only [Build.totalPages, hsum, Option.bind_eq_bind, Option.bind_some, hdividend]
  rfl

/-! ## The page shown -/

theorem one_le_clampPage (page : Option Int) (total : Int) :
    1 ≤ clampPage page (totalPages total) :=
  le_min (le_max_right _ _) (one_le_totalPages total)

theorem clampPage_le (page : Option Int) (totalPages : Int) :
    clampPage page totalPages ≤ totalPages :=
  min_le_right _ _

/-- A page there is is shown when it is asked for. -/
theorem clampPage_of_mem {page totalPages : Int} (h₁ : 1 ≤ page) (h₂ : page ≤ totalPages) :
    clampPage (some page) totalPages = page := by
  rw [clampPage, Option.getD_some, max_eq_left h₁, min_eq_left h₂]

/-- The rows before a page that is shown. -/
theorem offset_bounds {total page : Int} (h₀ : 0 ≤ total) (h₁ : 1 ≤ page)
    (h₂ : page ≤ totalPages total) : 0 ≤ (page - 1) * 20 ∧ (page - 1) * 20 ≤ max (total - 1) 0 := by
  rw [totalPages_eq h₀] at h₂
  omega

theorem Build.offset_eq {total page : Int} (h₀ : 0 ≤ total) (h : total < 2 ^ 62) (h₁ : 1 ≤ page)
    (h₂ : page ≤ MikanJudge.totalPages total) :
    b.offset page perPage = some ((page - 1) * 20) := by
  have hbounds := offset_bounds h₀ h₁ h₂
  have hbefore : b.i64 (page - 1) = some (page - 1) := Build.i64_of_fits (by omega) (by omega)
  have hproduct : b.i64 ((page - 1) * perPage) = some ((page - 1) * 20) := by
    rw [perPage]
    exact Build.i64_of_fits (by omega) (by omega)
  simp only [Build.offset, hbefore, Option.bind_eq_bind, Option.bind_some, hproduct]

/-! ## The rows of a page -/

/-- A page is a window of the rows. -/
theorem pageRows_eq_window {α : Type} (rows : List α) {page : Int} (h : 1 ≤ page) :
    pageRows rows page = window 20 rows (page - 1).toNat := by
  have hstart : ((page - 1) * perPage).toNat = (page - 1).toNat * 20 := by
    rw [perPage]
    omega
  rw [pageRows, window, hstart, perPage]
  refine List.take_eq_take_iff.mpr ?_
  rw [List.length_drop]
  omega

/-- The pages one after another are the whole list. -/
theorem flatMap_pageRows {α : Type} (rows : List α) :
    (List.range (totalPages rows.length).toNat).flatMap (fun (i : Nat) => pageRows rows (i + 1)) =
      rows := by
  have hpage : ∀ i : Nat, pageRows rows (i + 1) = window 20 rows i := by
    intro i
    rw [pageRows_eq_window rows (by omega), show ((i : Int) + 1 - 1).toNat = i by omega]
  simp only [hpage]
  exact flatMap_window_of_le (length_le_totalPages rows.length)

/-- Only an empty list has an empty page. -/
theorem pageRows_eq_nil_iff {α : Type} {rows : List α} {page : Int} (h₁ : 1 ≤ page)
    (h₂ : page ≤ totalPages rows.length) : pageRows rows page = [] ↔ rows = [] := by
  have hbounds := offset_bounds (Int.natCast_nonneg rows.length) h₁ h₂
  rw [pageRows_eq_window rows h₁, ← List.length_eq_zero_iff, ← List.length_eq_zero_iff,
    length_window]
  omega

theorem Build.standingsBounds_eq {len : Nat} (hlen : len < 2 ^ 62) (q : Option Int) :
    let page := clampPage q (MikanJudge.totalPages len)
    b.standingsBounds len q = some (20 * (page - 1).toNat, min (20 * page.toNat) len, page,
      MikanJudge.totalPages len) := by
  intro page
  have h₀ : (0 : Int) ≤ len := Int.natCast_nonneg len
  have h₁ : 1 ≤ page := one_le_clampPage q len
  have h₂ : page ≤ MikanJudge.totalPages len := clampPage_le q _
  have hbounds := offset_bounds h₀ h₁ h₂
  have htotal : b.totalPages (toI64 len) = some (MikanJudge.totalPages len) := by
    rw [toI64_of_lt (by omega)]
    exact Build.totalPages_eq h₀ (by omega)
  have hoffset : b.offset page perPage = some ((page - 1) * 20) := Build.offset_eq h₀ (by omega) h₁ h₂
  have hstart : toU64 ((page - 1) * 20) = 20 * (page - 1).toNat := by
    rw [toU64_of_nonneg hbounds.1 (by omega)]
    omega
  have hstop : b.u64 (20 * (page - 1).toNat + perPage.toNat) = some (20 * page.toNat) := by
    have hperPage : perPage.toNat = 20 := rfl
    rw [Build.u64_of_lt (by omega)]
    congr 1
    omega
  simp only [Build.standingsBounds, htotal, Option.bind_eq_bind, Option.bind_some]
  rw [show clampPage q (MikanJudge.totalPages len) = page from rfl, hoffset, Option.bind_some,
    hstart, hstop, Option.bind_some]
  rfl

/-- The rows a debug or a release build shows are those of the page. -/
theorem Build.standingsPage_eq {α : Type} {rows : List α} (hlen : rows.length < 2 ^ 62)
    (q : Option Int) :
    let page := clampPage q (MikanJudge.totalPages rows.length)
    b.standingsPage rows q = some (pageRows rows page, page, MikanJudge.totalPages rows.length) := by
  intro page
  have h₁ : 1 ≤ page := one_le_clampPage q rows.length
  have h₂ : page ≤ MikanJudge.totalPages rows.length := clampPage_le q _
  have hbounds := offset_bounds (Int.natCast_nonneg rows.length) h₁ h₂
  have hslice : slice rows (20 * (page - 1).toNat) (min (20 * page.toNat) rows.length) =
      some (pageRows rows page) := by
    rw [slice, if_pos (by omega), pageRows_eq_window rows h₁, window,
      Nat.mul_comm (page - 1).toNat]
    refine congrArg some (List.take_eq_take_iff.mpr ?_)
    rw [List.length_drop]
    omega
  rw [Build.standingsPage, Build.standingsBounds_eq hlen q]
  simp only [Option.bind_eq_bind, Option.bind_some]
  rw [show clampPage q (MikanJudge.totalPages rows.length) = page from rfl, hslice]
  rfl

theorem Build.submissionsPage_eq {total : Int} (h₀ : 0 ≤ total) (h : total < 2 ^ 62)
    (q : Option Int) :
    let page := clampPage q (MikanJudge.totalPages total)
    b.submissionsPage total q = some (page, (page - 1) * 20, MikanJudge.totalPages total) := by
  intro page
  have hoffset : b.offset page perPage = some ((page - 1) * 20) :=
    Build.offset_eq h₀ h (one_le_clampPage q total) (clampPage_le q _)
  simp only [Build.submissionsPage, Build.totalPages_eq h₀ h, Option.bind_eq_bind, Option.bind_some]
  rw [show min (max (q.getD 1) 1) (MikanJudge.totalPages total) = page from rfl, hoffset]
  rfl

/-- Whatever page is asked for, the page of the standings that is shown exists
and the slice is within bounds; it holds the rows at its positions, the pages
make up the list, and none is empty unless the list is. The lists of
submissions skip at most all rows but one. -/
theorem pages_exact {α : Type} (b : Build) (rows : List α) (q : Option Int)
    (hlen : rows.length < 2 ^ 62) :
    let total := totalPages rows.length
    let page := clampPage q total
    (1 ≤ page ∧ page ≤ total) ∧
    (∃ start stop, b.standingsBounds rows.length q = some (start, stop, page, total) ∧
      start ≤ stop ∧ stop ≤ rows.length ∧
      start = 20 * (page.toNat - 1) ∧ stop = min (20 * page.toNat) rows.length ∧
      b.standingsPage rows q = some (pageRows rows page, page, total) ∧
      (pageRows rows page).length = stop - start ∧
      (∀ i < stop - start, (pageRows rows page)[i]? = rows[start + i]?) ∧
      (pageRows rows page = [] ↔ rows = [])) ∧
    ((List.range total.toNat).flatMap (fun (i : Nat) => pageRows rows (i + 1)) = rows ∧
      ∀ i : Nat, i < total.toNat → b.standingsPage rows (some (i + 1)) =
        some (pageRows rows (i + 1), (i : Int) + 1, total)) ∧
    ∀ count : Int, 0 ≤ count → count < 2 ^ 62 →
      let page := clampPage q (totalPages count)
      b.submissionsPage count q = some (page, (page - 1) * perPage, totalPages count) ∧
      0 ≤ (page - 1) * perPage ∧ (page - 1) * perPage ≤ max (count - 1) 0 := by
  intro total page
  have h₁ : 1 ≤ page := one_le_clampPage q rows.length
  have h₂ : page ≤ total := clampPage_le q _
  have hbounds := offset_bounds (Int.natCast_nonneg rows.length) h₁ h₂
  have hwindow := pageRows_eq_window rows h₁
  refine ⟨⟨h₁, h₂⟩, ⟨_, _, Build.standingsBounds_eq hlen q, ?_, min_le_right _ _,
    ?_, rfl, Build.standingsPage_eq hlen q, ?_, ?_, pageRows_eq_nil_iff h₁ h₂⟩,
    ⟨flatMap_pageRows rows, ?_⟩, ?_⟩
  · change 20 * (page - 1).toNat ≤ min (20 * page.toNat) rows.length
    omega
  · change 20 * (page - 1).toNat = 20 * (page.toNat - 1)
    omega
  · change (pageRows rows page).length = min (20 * page.toNat) rows.length - 20 * (page - 1).toNat
    rw [hwindow, length_window]
    omega
  · intro i hi
    change i < min (20 * page.toNat) rows.length - 20 * (page - 1).toNat at hi
    rw [hwindow, window, List.getElem?_take, if_pos (by omega), List.getElem?_drop, Nat.mul_comm]
  · intro i hi
    have hpage : clampPage (some ((i : Int) + 1)) total = i + 1 :=
      clampPage_of_mem (by omega) (by omega)
    have hshown := Build.standingsPage_eq (b := b) hlen (some ((i : Int) + 1))
    rwa [show clampPage _ (totalPages rows.length) = (i : Int) + 1 from hpage] at hshown
  · intro count h₀ h
    exact ⟨Build.submissionsPage_eq h₀ h q, offset_bounds h₀ (one_le_clampPage q count)
      (clampPage_le q _)⟩

/-- The standings of 21 users, on a page that there is not. -/
theorem pages_exact_far :
    let rows := List.replicate 21 ()
    let page := clampPage (some (2 ^ 63 - 1)) (totalPages rows.length)
    ∃ start stop, Build.debug.standingsBounds rows.length (some (2 ^ 63 - 1)) =
        some (start, stop, page, totalPages rows.length) ∧
      start ≤ stop ∧ stop ≤ rows.length := by
  intro rows page
  obtain ⟨-, ⟨start, stop, hbounds, hle, hlast, -⟩, -⟩ :=
    pages_exact .debug rows (some (2 ^ 63 - 1)) (by decide)
  exact ⟨start, stop, hbounds, hle, hlast⟩

end MikanJudge
