import MikanJudge.Model.Pumping

/-!
# The pipes are pumped exactly

`drain_fd` makes the calls up to the one that delivers nothing and keeps the
first bytes of the stream (`drainReads_eq`, which is `drainFd` of
`Model/Sandbox.lean` over calls). The writer hands over what is left of its
data at each call (`writeLoop_spec`): so the bytes written so far are a prefix
of the data, and all of it unless the last call has failed.
-/

namespace MikanJudge

/-! ## Reading -/

/-- A call that delivers bytes. -/
structure ReadCall.Delivers (r : ReadCall) : Prop where
  pos : 0 < r.ret
  le : r.ret ≤ 4096

/-- The chunk a call delivers. -/
def ReadCall.Delivers.chunk {r : ReadCall} (h : r.Delivers) : Chunk :=
  ⟨r.delivered, by
    have := h.pos
    have := h.le
    rw [ReadCall.delivered, List.length_take, r.length_buf]
    omega⟩

theorem drainReads_eq_drainLoop {maxBytes : Nat} {reads : List ReadCall} {last : ReadCall}
    (rest : List ReadCall) (hreads : ∀ r ∈ reads, r.Delivers) (hlast : last.ret ≤ 0)
    (out : List UInt8) :
    drainReads maxBytes out (reads ++ last :: rest) =
      some (drainLoop maxBytes out (reads.pmap (fun _ h => h.chunk) hreads), rest) := by
  induction reads generalizing out with
  | nil => rw [List.nil_append, drainReads, if_pos hlast, List.pmap_nil, drainLoop]
  | cons r reads ih =>
    have hr : r.Delivers := hreads r List.mem_cons_self
    have hlen : hr.chunk.val.length = r.ret.toNat := by
      have := hr.pos
      have := hr.le
      change (r.buf.take r.ret.toNat).length = _
      rw [List.length_take, r.length_buf]
      omega
    have htake : ∀ k, hr.chunk.val.take (min r.ret.toNat k) = r.buf.take (min r.ret.toNat k) := by
      intro k
      change (r.buf.take r.ret.toNat).take _ = _
      rw [List.take_take]
      congr 1
      omega
    rw [List.cons_append, drainReads, if_neg (not_le.mpr hr.pos), List.pmap_cons, drainLoop]
    simp only [hlen, htake]
    exact ih _ _

theorem drainReads_eq {maxBytes : Nat} {reads : List ReadCall} {last : ReadCall}
    (rest : List ReadCall) (hreads : ∀ r ∈ reads, r.Delivers) (hlast : last.ret ≤ 0) :
    drainReads maxBytes [] (reads ++ last :: rest) =
      some ((reads.flatMap (·.delivered)).take maxBytes, rest) := by
  have hstream : stream (reads.pmap (fun _ h => h.chunk) hreads) = reads.flatMap (·.delivered) := by
    induction reads with
    | nil => rfl
    | cons r reads ih =>
      rw [List.pmap_cons, List.flatMap_cons, ← ih fun r hr => hreads r (List.mem_cons_of_mem _ hr)]
      rfl
  have hdrain := drainFd_eq (reads.pmap (fun _ h => h.chunk) hreads) maxBytes
  rw [drainFd] at hdrain
  rw [drainReads_eq_drainLoop rest hreads hlast, hdrain, hstream]

/-! ## Writing -/

/-- Calls that write from an offset on, the first at position `i`: each is given
what is left and returns what `write` does, only the last one may fail, and there
is no other while something is left. -/
structure WritesFrom (data : List UInt8) (write : Nat → List UInt8 → Int) (i offset : Nat)
    (calls : List WriteCall) : Prop where
  call_eq : ∀ k c, calls[k]? = some c →
    c.data = data.drop (offset + (written (calls.take k)).length) ∧ c.ret = write (i + k) c.data
  written_prefix : written calls <+: data.drop offset
  ended : written calls = data.drop offset ∨ ∃ c, calls.getLast? = some c ∧ c.ret ≤ 0
  pos_of_dropLast : ∀ c ∈ calls.dropLast, 0 < c.ret

variable {data : List UInt8} {write : Nat → List UInt8 → Int} {i offset : Nat}

theorem WritesFrom.nil (h : ¬ offset < data.length) : WritesFrom data write i offset [] := by
  have hdrop : data.drop offset = [] := List.drop_eq_nil_of_le (not_lt.mp h)
  exact ⟨fun k c hc => absurd hc (by simp), List.nil_prefix, .inl hdrop.symm,
    fun c hc => absurd hc List.not_mem_nil⟩

theorem WritesFrom.failed (h : write i (data.drop offset) ≤ 0) :
    WritesFrom data write i offset [⟨data.drop offset, write i (data.drop offset)⟩] := by
  have hnothing : written [⟨data.drop offset, write i (data.drop offset)⟩] = [] := by
    simp [written, WriteCall.written, Int.toNat_of_nonpos h]
  refine ⟨fun k c hc => ?_, ?_, .inr ⟨_, rfl, h⟩, fun c hc => absurd hc List.not_mem_nil⟩
  · cases k with
    | zero =>
      obtain rfl := Option.some.inj hc
      exact ⟨rfl, rfl⟩
    | succ k => cases hc
  · rw [hnothing]
    exact List.nil_prefix

theorem WritesFrom.cons {n : Int} {calls : List WriteCall} (hn : 0 < n)
    (hret : n = write i (data.drop offset))
    (h : WritesFrom data write (i + 1) (offset + n.toNat) calls) :
    WritesFrom data write i offset (⟨data.drop offset, n⟩ :: calls) := by
  have hwritten : ∀ cs, written (⟨data.drop offset, n⟩ :: cs) =
      (data.drop offset).take n.toNat ++ written cs := fun _ => rfl
  have hdrop : data.drop offset =
      (data.drop offset).take n.toNat ++ data.drop (offset + n.toNat) := by
    rw [← List.drop_drop, List.take_append_drop]
  refine ⟨fun k c hc => ?_, ?_, ?_, ?_⟩
  · cases k with
    | zero =>
      obtain rfl := Option.some.inj hc
      exact ⟨rfl, hret⟩
    | succ k =>
      obtain ⟨hdata, hcret⟩ := h.call_eq k c hc
      refine ⟨?_, by rw [hcret, Nat.add_right_comm, Nat.add_assoc]⟩
      rw [hdata, List.take_succ_cons, hwritten, List.length_append, List.length_take,
        List.length_drop]
      -- a call that returns more than it was given leaves nothing
      by_cases hall : n.toNat ≤ data.length - offset
      · rw [Nat.min_eq_left hall, Nat.add_assoc]
      · rw [List.drop_eq_nil_of_le (by omega), List.drop_eq_nil_of_le (by omega)]
  · obtain ⟨unwritten, hrest⟩ := h.written_prefix
    refine ⟨unwritten, ?_⟩
    rw [hwritten, List.append_assoc, hrest, ← hdrop]
  · rcases h.ended with hended | ⟨c, hlast, hc⟩
    · left
      rw [hwritten, hended, ← hdrop]
    · refine .inr ⟨c, ?_, hc⟩
      rw [List.getLast?_cons, hlast]
      rfl
  · intro c hc
    cases calls with
    | nil => exact absurd hc List.not_mem_nil
    | cons d calls =>
      rw [List.dropLast_cons_cons] at hc
      rcases List.mem_cons.mp hc with rfl | hc
      · exact hn
      · exact h.pos_of_dropLast c hc

/-- Where no call fails, everything is written. -/
theorem WritesFrom.written_all {calls : List WriteCall} (h : WritesFrom data write i offset calls)
    (hwrite : ∀ k bytes, 0 < write k bytes) : written calls = data.drop offset := by
  rcases h.ended with hended | ⟨c, hlast, hc⟩
  · exact hended
  · rw [List.getLast?_eq_getElem?] at hlast
    rw [(h.call_eq _ c hlast).2] at hc
    exact absurd (hwrite _ _) (not_lt.mpr hc)

/-- The loop ends, and has written from its offset on. -/
theorem writeLoop_spec (data : List UInt8) (write : Nat → List UInt8 → Int) (i offset : Nat) :
    ∃ calls, WritesFrom data write i offset calls ∧
      ∀ fuel, data.length - offset < fuel → writeLoop data write fuel i offset = some calls := by
  -- each call that does not fail leaves less to write
  induction hleft : data.length - offset using Nat.strong_induction_on generalizing i offset with
  | h left ih =>
    by_cases hoff : offset < data.length
    · by_cases hn : write i (data.drop offset) ≤ 0
      · refine ⟨_, .failed hn, fun fuel hfuel => ?_⟩
        obtain ⟨fuel, rfl⟩ := Nat.exists_eq_add_of_lt hfuel
        rw [writeLoop, if_pos hoff]
        exact if_pos hn
      · obtain ⟨calls, hcalls, hrun⟩ :=
          ih (data.length - (offset + (write i (data.drop offset)).toNat)) (by omega) (i + 1) _ rfl
        refine ⟨_, .cons (not_le.mp hn) rfl hcalls, fun fuel hfuel => ?_⟩
        obtain ⟨fuel, rfl⟩ := Nat.exists_eq_add_of_lt hfuel
        rw [writeLoop, if_pos hoff]
        simp only [if_neg hn]
        rw [hrun _ (by omega), Option.map_some]
    · refine ⟨_, .nil hoff, fun fuel hfuel => ?_⟩
      obtain ⟨fuel, rfl⟩ := Nat.exists_eq_add_of_lt hfuel
      rw [writeLoop, if_neg hoff]

/-- `drain_fd` reads to the end and keeps the first bytes; the writer ends and
closes its descriptor. Each of its calls is given what the calls before have left
and returns what `write` does, and they have written all of the data, or a prefix
of it where the last one fails. -/
theorem pipes_pumped (maxBytes : Nat) (reads : List ReadCall) (last : ReadCall)
    (rest : List ReadCall) (hreads : ∀ r ∈ reads, 0 < r.ret ∧ r.ret ≤ 4096) (hlast : last.ret ≤ 0)
    (data : List UInt8) (write : Nat → List UInt8 → Int) :
    drainReads maxBytes [] (reads ++ last :: rest) =
      some ((reads.flatMap (·.delivered)).take (min maxBytes
        (reads.flatMap (·.delivered)).length), rest) ∧
    ∃ calls, (∀ fuel, data.length < fuel →
        stdinWriter data write fuel = some (calls.map .write ++ [.close])) ∧
      (∀ k c, calls[k]? = some c →
        c.data = data.drop (written (calls.take k)).length ∧ c.ret = write k c.data) ∧
      ((∀ k bytes, 0 < write k bytes) → written calls = data) ∧
      (written calls = data ∨ ∃ c, calls.getLast? = some c ∧ c.ret ≤ 0) ∧
      written calls <+: data ∧ ∀ c ∈ calls.dropLast, 0 < c.ret := by
  constructor
  · rw [drainReads_eq rest (fun r hr => ⟨(hreads r hr).1, (hreads r hr).2⟩) hlast,
      ← List.take_eq_take_min]
  · obtain ⟨calls, hcalls, hrun⟩ := writeLoop_spec data write 0 0
    refine ⟨calls, fun fuel hfuel => ?_, fun k c hc => ?_, hcalls.written_all, hcalls.ended,
      hcalls.written_prefix, hcalls.pos_of_dropLast⟩
    · rw [stdinWriter, hrun fuel (by omega), Option.map_some]
    · have hcall := hcalls.call_eq k c hc
      rwa [Nat.zero_add, Nat.zero_add] at hcall

/-- A call that delivers one byte, or none. -/
def readCall (ret : Int) (b : UInt8) : ReadCall :=
  ⟨ret, List.replicate 4096 b, List.length_replicate⟩

/-- Two reads of one byte and the end of the file, and a writer of two bytes. -/
theorem pipes_pumped_two :
    drainReads 1 [] [readCall 1 7, readCall 1 8, readCall 0 8] =
      some (([readCall 1 7, readCall 1 8].flatMap (·.delivered)).take (min 1
        ([readCall 1 7, readCall 1 8].flatMap (·.delivered)).length), []) ∧
    ∃ calls, (∀ fuel, 2 < fuel → stdinWriter [7, 8] (fun _ _ => 1) fuel =
        some (calls.map .write ++ [.close])) ∧ written calls = [7, 8] := by
  have hreads : ∀ r ∈ [readCall 1 7, readCall 1 8], 0 < r.ret ∧ r.ret ≤ 4096 :=
    List.forall_mem_cons.mpr ⟨by decide, List.forall_mem_singleton.mpr (by decide)⟩
  obtain ⟨hdrain, calls, hrun, -, hall, -⟩ := pipes_pumped 1 [readCall 1 7, readCall 1 8]
    (readCall 0 8) [] hreads (by decide) [7, 8] (fun _ _ => 1)
  exact ⟨hdrain, calls, hrun, hall fun _ _ => one_pos⟩

end MikanJudge
