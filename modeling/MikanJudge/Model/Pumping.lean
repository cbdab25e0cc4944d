import MikanJudge.Model.Sandbox

/-!
# Pumping the pipes (`sandbox/runner.rs`)

The loops of `drain_fd` and of the thread that writes the standard input, call
by call: what each `read` and `write` returns is given. A loop has no result
(`none`) as long as it goes on.
-/

namespace MikanJudge

/-! ## Reading -/

/-- What a call of `read` returns, and the buffer after it. -/
structure ReadCall where
  ret : Int
  buf : List UInt8
  length_buf : buf.length = 4096

/-- The bytes a call has delivered. -/
def ReadCall.delivered (r : ReadCall) : List UInt8 := r.buf.take r.ret.toNat

/-- The loop of `drain_fd`, with `out` read so far. The calls after the one it
ends at are not made. -/
def drainReads (maxBytes : Nat) : List UInt8 → List ReadCall → Option (List UInt8 × List ReadCall)
  | _, [] => none
  | out, r :: rs =>
    if r.ret ≤ 0 then some (out, rs)
    else
      let n := r.ret.toNat
      let remaining := maxBytes - out.length
      drainReads maxBytes (if remaining > 0 then out ++ r.buf.take (min n remaining) else out) rs

/-! ## Writing -/

/-- A call of `write`: the bytes it is given, and what it returns. -/
structure WriteCall where
  data : List UInt8
  ret : Int

/-- The bytes a call has written. -/
def WriteCall.written (c : WriteCall) : List UInt8 := c.data.take c.ret.toNat

/-- What the thread does with its descriptor. -/
inductive WriterCall where
  | write (c : WriteCall)
  | close

/-- The loop, before the call at position `i`: the calls from there on. What
a call returns depends on the bytes it is given. -/
def writeLoop (data : List UInt8) (write : Nat → List UInt8 → Int) :
    Nat → Nat → Nat → Option (List WriteCall)
  | 0, _, _ => none
  | fuel + 1, i, offset =>
    if offset < data.length then
      let n := write i (data.drop offset)
      if n ≤ 0 then some [⟨data.drop offset, n⟩]
      else (writeLoop data write fuel (i + 1) (offset + n.toNat)).map (⟨data.drop offset, n⟩ :: ·)
    else some []

/-- The thread that writes the standard input. -/
def stdinWriter (data : List UInt8) (write : Nat → List UInt8 → Int) (fuel : Nat) :
    Option (List WriterCall) :=
  (writeLoop data write fuel 0 0).map fun calls => calls.map .write ++ [.close]

/-- The bytes some calls have written, one after another. -/
def written (calls : List WriteCall) : List UInt8 := calls.flatMap (·.written)

end MikanJudge
