import MikanJudge.Lib.Ranking
import MikanJudge.Proof.Totals
import Mathlib.Data.Int.ConditionallyCompleteOrder

/-!
# The order and the ranks of the standings

`compareRows` compares, where no total is NaN, by a key: the total, then the
time of the last AC, then without one the name. In an exact contest the rank
loop goes by total and by the time as it is shown, in whole seconds; since
that time grows with the other, those with the same are next to each other,
and the rank is one more than the number of rows that are better.
-/

namespace MikanJudge

open MikanJudge.Lib

namespace RowWithRaw

/-- The time of the last AC; without one, after all others. -/
def time (r : RowWithRaw) : WithTop Time :=
  match r.lastAcRaw with
  | some t => t
  | none => ⊤

/-- The same in whole seconds since the start. -/
def secs (contest : Contest) (r : RowWithRaw) : WithTop Int :=
  match r.lastAcRaw with
  | some t => (contest.elapsed t : Int)
  | none => ⊤

/-- What rows are sorted by: the total, the time, and without one the name. -/
def sortKey (r : RowWithRaw) : F64ᵒᵈ ×ₗ WithTop Time ×ₗ String :=
  toLex (OrderDual.toDual r.totalScoreRaw,
    toLex (r.time, if r.lastAcRaw.isSome then "" else r.row.username))

/-- A row is strictly better than another: more points, or as many in less time. -/
def Better (contest : Contest) (a b : RowWithRaw) : Prop :=
  b.totalScoreRaw < a.totalScoreRaw ∨
    a.totalScoreRaw = b.totalScoreRaw ∧ a.secs contest < b.secs contest

instance (contest : Contest) (a b : RowWithRaw) : Decidable (a.Better contest b) :=
  @instDecidableOr _ _ inferInstance
    (@instDecidableAnd _ _ inferInstance (WithTop.decidableLT (a.secs contest) (b.secs contest)))

/-- What ranks go by. -/
def rankKey (contest : Contest) (r : RowWithRaw) : F64ᵒᵈ ×ₗ WithTop Int :=
  toLex (OrderDual.toDual r.totalScoreRaw, r.secs contest)

/-- A row of an exact contest: few enough points to add exactly, and the time shown. -/
structure IsExact (contest : Contest) (r : RowWithRaw) : Prop where
  total : ∃ n : Nat, n < 2 ^ 53 ∧ r.totalScoreRaw = .fin n
  elapsed : r.row.elapsedFromStart = r.lastAcRaw.map fun t => fmtElapsed (contest.elapsed t)

end RowWithRaw

section

variable {contest : Contest} {a b : RowWithRaw}

theorem time_eq_coe {t : Time} (h : a.lastAcRaw = some t) : a.time = t := by
  rw [RowWithRaw.time, h]

theorem time_eq_top (h : a.lastAcRaw = none) : a.time = ⊤ := by
  rw [RowWithRaw.time, h]

theorem time_inj (h : a.time = b.time) : a.lastAcRaw = b.lastAcRaw := by
  cases ha : a.lastAcRaw with
  | none =>
    cases hb : b.lastAcRaw with
    | none => rfl
    | some u =>
      rw [time_eq_top ha, time_eq_coe hb] at h
      exact absurd h.symm WithTop.coe_ne_top
  | some t =>
    cases hb : b.lastAcRaw with
    | none =>
      rw [time_eq_coe ha, time_eq_top hb] at h
      exact absurd h WithTop.coe_ne_top
    | some u =>
      rw [time_eq_coe ha, time_eq_coe hb] at h
      exact congrArg some (WithTop.coe_injective h)

theorem sortRows_eq_sortBy (rows : List RowWithRaw) : sortRows rows = sortBy compareRows rows := rfl

/-- But for NaN, rows are compared by their keys. -/
theorem compareRows_eq_compare (ha : a.totalScoreRaw ≠ .nan) (hb : b.totalScoreRaw ≠ .nan) :
    compareRows a b = compare a.sortKey b.sortKey := by
  have hlex : compare a.sortKey b.sortKey = (compare b.totalScoreRaw a.totalScoreRaw).then
      (compare (ofLex a.sortKey).2 (ofLex b.sortKey).2) := rfl
  rw [hlex, compareRows, F64.partialCmp_eq_compare hb ha, Option.getD_some]
  refine congrArg _ ?_
  rw [RowWithRaw.sortKey, RowWithRaw.sortKey, RowWithRaw.time, RowWithRaw.time]
  cases a.lastAcRaw with
  | none =>
    cases b.lastAcRaw with
    | none => rfl
    | some u => rfl
  | some t =>
    cases b.lastAcRaw with
    | none => rfl
    | some u =>
      have h : compare (t : WithTop Time) u = compare t u := by
        rw [← cmp_eq_compare, ← cmp_eq_compare, WithTop.coe_strictMono.cmp_map_eq]
      exact h.symm.trans Ordering.then_eq.symm

/-! ## The time shown -/

theorem pad2_injective {m n : Nat} (h : pad2 m = pad2 n) : m = n := by
  have hpad : ∀ k : Nat, Nat.ofDigitChars 10 (pad2 k).toList 0 = k := by
    intro k
    rw [pad2, String.toList_ofList, List.leftpad, Nat.ofDigitChars_append,
      Nat.ofDigitChars_replicate_zero, Nat.mul_zero]
    exact (congrArg (Nat.ofDigitChars 10 · 0) Nat.toList_repr).trans Nat.ofDigitChars_ten_toDigits
  rw [← hpad m, ← hpad n, h]

theorem length_pad2 {n : Nat} (h : n < 60) : (pad2 n).toList.length = 2 := by
  have hall : ∀ n : Fin 60, (pad2 (n.val : Int)).toList.length = 2 := by decide +kernel
  exact hall ⟨n, h⟩

theorem toString_natCast_injective {m n : Nat} (h : toString (m : Int) = toString (n : Int)) :
    m = n := by
  have hread : ∀ k : Nat, Nat.ofDigitChars 10 (toString (k : Int)).toList 0 = k := fun k =>
    (congrArg (Nat.ofDigitChars 10 · 0) Nat.toList_repr).trans Nat.ofDigitChars_ten_toDigits
  rw [← hread m, ← hread n, h]

/-- The hours, minutes and seconds shown tell the number of seconds. -/
theorem fmtElapsed_injective {m n : Nat} (h : fmtElapsed m = fmtElapsed n) : m = n := by
  have hparts : ∀ k : Nat, (fmtElapsed k).toList =
      (toString ((k / 3600 : ℕ) : Int)).toList ++ (':' :: (pad2 ((k % 3600 / 60 : ℕ) : Int)).toList ++
        ':' :: (pad2 ((k % 60 : ℕ) : Int)).toList) := by
    intro k
    have hh : ((k : Int).tdiv 3600) = ((k / 3600 : ℕ) : Int) := rfl
    have hm : (((k : Int).tmod 3600).tdiv 60) = ((k % 3600 / 60 : ℕ) : Int) := rfl
    have hs : ((k : Int).tmod 60) = ((k % 60 : ℕ) : Int) := rfl
    have hc : (":" : String).toList = [':'] := rfl
    rw [fmtElapsed, hh, hm, hs]
    simp only [String.toList_append, List.append_assoc, hc, List.singleton_append]
  have hlist := congrArg String.toList h
  rw [hparts, hparts] at hlist
  have hlen : ∀ k : Nat, (pad2 ((k % 60 : ℕ) : Int)).toList.length = 2 := fun k =>
    length_pad2 (Nat.mod_lt k (by decide))
  have hlen' : ∀ k : Nat, (pad2 ((k % 3600 / 60 : ℕ) : Int)).toList.length = 2 := fun k =>
    length_pad2 (by omega)
  obtain ⟨e₁, e⟩ := List.append_inj' hlist (by
    simp only [List.length_cons, List.length_append, hlen, hlen'])
  obtain ⟨e₂, e₃⟩ := List.append_inj (List.cons_inj_right _ |>.mp e) (by rw [hlen', hlen'])
  have h₁ := toString_natCast_injective (String.toList_inj.mp e₁)
  have h₂ := pad2_injective (String.toList_inj.mp e₂)
  have h₃ := pad2_injective (String.toList_inj.mp (List.cons_inj_right _ |>.mp e₃))
  omega

theorem elapsed_mono {t u : Time} (h : t ≤ u) : contest.elapsed t ≤ contest.elapsed u :=
  max_le_max (Int.tdiv_le_tdiv (by decide) (Int.sub_le_sub_right h _)) le_rfl

/-- The same time is shown exactly if the whole seconds are the same. -/
theorem elapsedFromStart_eq_iff (ha : a.IsExact contest) (hb : b.IsExact contest) :
    a.row.elapsedFromStart = b.row.elapsedFromStart ↔ a.secs contest = b.secs contest := by
  have hnonneg : ∀ t, ∃ n : Nat, contest.elapsed t = n := fun t =>
    Int.eq_ofNat_of_zero_le (le_max_right _ _)
  rw [ha.elapsed, hb.elapsed, RowWithRaw.secs, RowWithRaw.secs]
  cases a.lastAcRaw with
  | none => cases b.lastAcRaw <;> simp
  | some t =>
    cases b.lastAcRaw with
    | none => simp
    | some u =>
      obtain ⟨m, hm⟩ := hnonneg t
      obtain ⟨n, hn⟩ := hnonneg u
      simp only [Option.map_some, Option.some.injEq, WithTop.coe_eq_coe, hm, hn]
      exact ⟨fun h => congrArg _ (fmtElapsed_injective h), fun h => h ▸ rfl⟩

/-! ## Ranks -/

theorem sub_abs_le_epsilon {m n : Nat} (hm : m < 2 ^ 53) (hn : n < 2 ^ 53) :
    (((F64.fin n).sub F64.round (.fin m)).abs.le epsilon = true) ↔ n = m := by
  have hsub : (F64.fin n).sub F64.round (.fin m) = .fin (((n : Int) - m : ℤ) : ℚ) := by
    have hround := F64.round_intCast (z := (n : Int) - m) (by rw [abs_lt]; omega)
    rw [← hround, F64.sub, F64.neg, F64.add]
    push_cast
    rw [sub_eq_add_neg]
  rw [hsub, F64.abs, F64.le, epsilon, F64.partialCmp, Option.any_some, bne_iff_ne, compare_le_iff_le]
  constructor
  · intro h
    have hlt : |(((n : Int) - m : ℤ) : ℚ)| < 1 := h.trans_lt (by norm_num)
    have hz : |(n : Int) - m| < 1 := by exact_mod_cast hlt
    rw [abs_lt] at hz
    omega
  · rintro rfl
    rw [sub_self, Int.cast_zero, abs_zero]
    norm_num

/-- The rank loop gives the places by total and whole seconds. -/
theorem rankRows_eq_ranks (rows : List RowWithRaw) (h : ∀ r ∈ rows, r.IsExact contest) (i current : Nat)
    (prev : Option RowWithRaw) (hp : ∀ p, prev = some p → p.IsExact contest) :
    rankRows false i (prev.map (·.totalScoreRaw)) (prev.bind (·.row.elapsedFromStart)) current rows =
      List.zipWith (fun r n => { r.row with rank := n }) rows
        (ranks i (prev.map (·.rankKey contest)) current (rows.map (·.rankKey contest))) := by
  induction rows generalizing i current prev with
  | nil => rfl
  | cons r rows ih =>
    have hr := h r List.mem_cons_self
    have hrows := fun r hr => h r (List.mem_cons_of_mem _ hr)
    -- the loop starts a new rank exactly if the key is not that of the last change
    have hcond : (!((prev.map (·.totalScoreRaw)).any fun s =>
          (r.totalScoreRaw.sub F64.round s).abs.le epsilon) ||
        (!false && r.row.elapsedFromStart != prev.bind (·.row.elapsedFromStart))) = true ↔
        prev.map (·.rankKey contest) ≠ some (r.rankKey contest) := by
      cases prev with
      | none => simp
      | some p =>
        have hpe := hp p rfl
        obtain ⟨m, hm, em⟩ := hpe.total
        obtain ⟨n, hn, en⟩ := hr.total
        have hkey : p.rankKey contest = r.rankKey contest ↔
            n = m ∧ r.row.elapsedFromStart = p.row.elapsedFromStart := by
          rw [elapsedFromStart_eq_iff hr hpe, RowWithRaw.rankKey, RowWithRaw.rankKey, em, en]
          simp [eq_comm]
        rw [Option.map_some, Option.map_some, Option.any_some, Option.bind_some, Bool.or_eq_true,
          Bool.not_eq_true', ← Bool.not_eq_true, Bool.not_false, Bool.true_and, bne_iff_ne, ne_eq,
          ne_eq, Option.some.injEq, hkey, em, en, sub_abs_le_epsilon hm hn, not_and_or]
    rw [rankRows, List.map_cons, ranks]
    dsimp only
    by_cases hk : prev.map (·.rankKey contest) = some (r.rankKey contest)
    · rw [if_neg (fun hc => hcond.mp hc hk), if_pos hk, List.zipWith_cons_cons, ih hrows _ _ _ hp]
    · rw [if_pos (hcond.mpr hk), if_neg hk, List.zipWith_cons_cons]
      exact congrArg _ (ih hrows _ _ (some r) fun p e => Option.some.inj e ▸ hr)

theorem rankKey_lt_iff : a.rankKey contest < b.rankKey contest ↔ a.Better contest b := by
  rw [RowWithRaw.rankKey, RowWithRaw.rankKey, Prod.Lex.toLex_lt_toLex, RowWithRaw.Better,
    OrderDual.toDual_lt_toDual, OrderDual.toDual_inj]

/-- In the order of the sort, the total falls, and with one total the time rises. -/
theorem le_of_sortKey_le (h : a.sortKey ≤ b.sortKey) :
    b.totalScoreRaw < a.totalScoreRaw ∨ b.totalScoreRaw = a.totalScoreRaw ∧ a.time ≤ b.time := by
  rw [RowWithRaw.sortKey, RowWithRaw.sortKey, Prod.Lex.toLex_le_toLex, OrderDual.toDual_lt_toDual,
    OrderDual.toDual_inj] at h
  refine h.imp_right fun h => ⟨h.1.symm, ?_⟩
  exact (Prod.Lex.toLex_le_toLex.mp h.2).elim le_of_lt fun h => h.1.le

theorem secs_le_of_time_le (h : a.time ≤ b.time) : a.secs contest ≤ b.secs contest := by
  rw [RowWithRaw.time, RowWithRaw.time] at h
  rw [RowWithRaw.secs, RowWithRaw.secs]
  cases hb : b.lastAcRaw with
  | none => exact le_top
  | some u =>
    rw [hb] at h
    cases ha : a.lastAcRaw with
    | none => rw [ha] at h; exact absurd (top_le_iff.mp h) (WithTop.coe_ne_top)
    | some t =>
      rw [ha] at h
      exact WithTop.coe_le_coe.mpr (elapsed_mono (WithTop.coe_le_coe.mp h))

/-- The rows of an exact contest are sorted by points, those with as many by the time of
the last AC; and the rank of each is one more than the number of rows that are better. -/
theorem sort_and_ranks (contest : Contest) (rows : List RowWithRaw)
    (h : ∀ r ∈ rows, r.IsExact contest) :
    (sortRows rows).Perm rows ∧
    ((sortRows rows).Pairwise fun a b => b.totalScoreRaw < a.totalScoreRaw ∨
      b.totalScoreRaw = a.totalScoreRaw ∧ a.time ≤ b.time) ∧
    rankRows false 0 none none 0 (sortRows rows) = (sortRows rows).map fun r =>
      { r.row with rank := 1 + rows.countP fun r' => decide (r'.Better contest r) } := by
  have hnan : ∀ r ∈ rows, r.totalScoreRaw ≠ .nan := fun r hr => by
    obtain ⟨n, -, e⟩ := (h r hr).total
    rw [e]
    exact F64.noConfusion
  have hkey : ∀ a ∈ rows, ∀ b ∈ rows, compareRows a b = compare a.sortKey b.sortKey :=
    fun a ha b hb => compareRows_eq_compare (hnan a ha) (hnan b hb)
  have hperm : (sortRows rows).Perm rows := sortBy_perm compareRows rows
  have hsorted : (sortRows rows).Pairwise fun a b => b.totalScoreRaw < a.totalScoreRaw ∨
      b.totalScoreRaw = a.totalScoreRaw ∧ a.time ≤ b.time := by
    refine List.Pairwise.imp_of_mem (fun ha hb hab => ?_) (PreorderOn.of_key _ hkey).pairwise_sortBy
    rw [hkey _ (hperm.subset ha) _ (hperm.subset hb), compare_le_iff_le] at hab
    exact le_of_sortKey_le hab
  have hranked : ((sortRows rows).map (·.rankKey contest)).Pairwise (· ≤ ·) := by
    refine List.pairwise_map.mpr (hsorted.imp fun hab => ?_)
    rw [RowWithRaw.rankKey, RowWithRaw.rankKey, Prod.Lex.toLex_le_toLex, OrderDual.toDual_lt_toDual,
      OrderDual.toDual_inj]
    exact hab.imp_right fun h => ⟨h.1.symm, secs_le_of_time_le h.2⟩
  refine ⟨hperm, hsorted, ?_⟩
  have hloop := rankRows_eq_ranks (sortRows rows) (fun r hr => h r (hperm.subset hr)) 0 0 none
    fun _ e => by cases e
  rw [Option.map_none, Option.bind_none, Option.map_none, ranks_eq_countP hranked, List.map_map,
    List.zipWith_map_right, List.zipWith_self] at hloop
  rw [hloop]
  refine List.map_congr_left fun r hr => ?_
  rw [Function.comp, List.countP_map, hperm.countP_eq]
  simp only [Function.comp_def, rankKey_lt_iff]

end

/-- The rows of the standings of an exact contest are such rows. -/
theorem isExact_of_mem_rawRows {ext : Externals} {app : AppState} {db : Db} {contest : Contest}
    {contestId : String} {order : HashOrder} (hids : (db.users.map (·.id)).Nodup)
    (hj : contest.judgeType = .exact)
    (htotal : ∀ us ∈ db.standingUsers contest contestId, exactTotal ext app db contestId us < 2 ^ 53) :
    ∀ r ∈ rawRows ext app db order contest contestId, r.IsExact contest := by
  intro r hr
  obtain ⟨us, hus, rfl⟩ := List.mem_map.mp ((rawRows_perm ext app contest contestId hids order).subset hr)
  rw [userRow, if_neg (by rw [hj]; decide)]
  exact ⟨⟨_, htotal us hus, (exactUserRow_total (htotal us hus)).1⟩, rfl⟩

/-! ### Three rows -/

/-- A row of `smallContest`. -/
def timedRow (username : String) (total : Nat) (lastAc : Option Time) : RowWithRaw where
  row := {
    rank := 0
    username := username
    totalScore := toString total
    elapsedFromStart := lastAc.map fun t => fmtElapsed (smallContest.elapsed t)
    problems := [] }
  totalScoreRaw := .fin total
  lastAcRaw := lastAc

/-- Two rows with the same points in the same second, and one without a time. -/
theorem sort_and_ranks_three :
    (rankRows false 0 none none 0 (sortRows [timedRow "a" 100 none,
      timedRow "b" 100 (some 5500000), timedRow "c" 100 (some 5000000)])).map (fun row =>
        (row.rank, row.username)) = [(1, "c"), (1, "b"), (3, "a")] := by
  have hrow : ∀ username lastAc, (timedRow username 100 lastAc).IsExact smallContest :=
    fun username lastAc => ⟨⟨100, by decide, rfl⟩, rfl⟩
  have hrows : ∀ r ∈ [timedRow "a" 100 none, timedRow "b" 100 (some 5500000),
      timedRow "c" 100 (some 5000000)], r.IsExact smallContest := by
    simp only [List.mem_cons, List.not_mem_nil, or_false, forall_eq_or_imp, forall_eq, hrow,
      and_self]
  rw [(sort_and_ranks smallContest _ hrows).2.2]
  decide +kernel

end MikanJudge
