import Mathlib.Data.List.Basic

/-!
# Decoding UTF-8

A decoder reads a byte string from left to right and carries the bytes of a
sequence it has not finished (`feed`). The lossy decoder (`decodeLossy`)
replaces each maximal incomplete or invalid sequence by one U+FFFD, so that
it decodes any byte string; the strict one (`decodeStrict`) fails there.
Because the state between two bytes is only the carry, a byte string may be
cut anywhere (`decodeFrom_append`).
-/

namespace MikanJudge.Lib.Utf8

abbrev Byte := UInt8

/-- The length of the sequence a byte leads; `0` for a byte that leads none. -/
def width (b : Byte) : Nat :=
  if b < 0x80 then 1 else if b < 0xC2 then 0 else if b < 0xE0 then 2
  else if b < 0xF0 then 3 else if b < 0xF5 then 4 else 0

/-- A continuation byte. -/
def isCont (b : Byte) : Bool := 0x80 ≤ b && b < 0xC0

/-- What may follow the leading byte `a` of a sequence: no overlong forms, no
surrogates, nothing above U+10FFFF. -/
def second (a b : Byte) : Bool :=
  if a = 0xE0 then 0xA0 ≤ b && b < 0xC0
  else if a = 0xED then 0x80 ≤ b && b < 0xA0
  else if a = 0xF0 then 0x90 ≤ b && b < 0xC0
  else if a = 0xF4 then 0x80 ≤ b && b < 0x90
  else isCont b

/-- A sequence that encodes one character. -/
def complete : List Byte → Bool
  | [a] => width a == 1
  | [a, b] => width a == 2 && isCont b
  | [a, b, c] => width a == 3 && second a b && isCont c
  | [a, b, c, d] => width a == 4 && second a b && isCont c && isCont d
  | _ => false

/-- A proper, nonempty beginning of such a sequence. -/
def incomplete : List Byte → Bool
  | [a] => 2 ≤ width a
  | [a, b] => 3 ≤ width a && second a b
  | [a, b, c] => width a == 4 && second a b && isCont c
  | _ => false

/-- The code point a complete sequence encodes. -/
def codePoint : List Byte → Nat
  | [a] => a.toNat
  | [a, b] => a.toNat % 32 * 64 + b.toNat % 64
  | [a, b, c] => a.toNat % 16 * 4096 + b.toNat % 64 * 64 + c.toNat % 64
  | [a, b, c, d] =>
    a.toNat % 8 * 262144 + b.toNat % 64 * 4096 + c.toNat % 64 * 64 + d.toNat % 64
  | _ => 0

/-- U+FFFD, what the lossy decoder writes for bytes that encode nothing. -/
def replacement : Char := Char.ofNat 0xFFFD

/-- What is written for a sequence that will not be finished. -/
def flush : List Byte → List Char
  | [] => []
  | _ :: _ => [replacement]

/-- One byte, after the bytes `carry`: the characters it finishes, and the
bytes carried on. -/
def feed (carry : List Byte) (b : Byte) : List Char × List Byte :=
  if complete (carry ++ [b]) then ([Char.ofNat (codePoint (carry ++ [b]))], [])
  else if incomplete (carry ++ [b]) then ([], carry ++ [b])
  -- `b` does not continue the sequence: it ends it, and starts anew
  else if complete [b] then (flush carry ++ [Char.ofNat (codePoint [b])], [])
  else if incomplete [b] then (flush carry, [b])
  else (flush carry ++ [replacement], [])

/-- The characters finished while reading `bs` after `carry`. -/
def output : List Byte → List Byte → List Char
  | _, [] => []
  | carry, b :: bs => (feed carry b).1 ++ output (feed carry b).2 bs

/-- The bytes still carried after reading `bs` after `carry`. -/
def carried : List Byte → List Byte → List Byte
  | carry, [] => carry
  | carry, b :: bs => carried (feed carry b).2 bs

/-- The characters of `bs`, read after `carry`, to its end. -/
def decodeFrom (carry bs : List Byte) : List Char := output carry bs ++ flush (carried carry bs)

/-- Lossy decoding of a whole byte string. -/
def decodeLossy (bs : List Byte) : List Char := decodeFrom [] bs

/-- Strict decoding: `none` unless every byte belongs to a complete sequence. -/
def decodeStrictFrom : List Byte → List Byte → Option (List Char)
  | [], [] => some []
  | _ :: _, [] => none
  | carry, b :: bs =>
    if complete (carry ++ [b]) then
      (decodeStrictFrom [] bs).map (Char.ofNat (codePoint (carry ++ [b])) :: ·)
    else if incomplete (carry ++ [b]) then decodeStrictFrom (carry ++ [b]) bs
    else none

def decodeStrict (bs : List Byte) : Option (List Char) := decodeStrictFrom [] bs

/-! ## Cutting a byte string -/

theorem output_append (carry xs ys : List Byte) :
    output carry (xs ++ ys) = output carry xs ++ output (carried carry xs) ys := by
  induction xs generalizing carry with
  | nil => rfl
  | cons x xs ih => simp only [List.cons_append, output, carried, ih, List.append_assoc]

theorem carried_append (carry xs ys : List Byte) :
    carried carry (xs ++ ys) = carried (carried carry xs) ys := by
  induction xs generalizing carry with
  | nil => rfl
  | cons x xs ih => simp only [List.cons_append, carried, ih]

/-- Decoding a byte string cut in two: the second part is read after what the
first leaves unfinished. -/
theorem decodeFrom_append (carry xs ys : List Byte) :
    decodeFrom carry (xs ++ ys) = output carry xs ++ decodeFrom (carried carry xs) ys := by
  simp only [decodeFrom, output_append, carried_append, List.append_assoc]

/-! ## ASCII -/

theorem complete_ascii {b : Byte} (hb : b < 0x80) : complete [b] = true := by
  simp [complete, width, hb]

theorem feed_ascii {b : Byte} (hb : b < 0x80) : feed [] b = ([Char.ofNat b.toNat], []) := by
  simp only [feed, List.nil_append, complete_ascii hb, if_true, codePoint]

theorem output_ascii {bs : List Byte} (h : ∀ b ∈ bs, b < 0x80) :
    output [] bs = bs.map (fun b => Char.ofNat b.toNat) ∧ carried [] bs = [] := by
  induction bs with
  | nil => exact ⟨rfl, rfl⟩
  | cons b bs ih =>
    obtain ⟨ho, hc⟩ := ih fun b hb => h b (List.mem_cons_of_mem _ hb)
    simp only [output, carried, feed_ascii (h b List.mem_cons_self), ho, hc, List.map_cons,
      List.singleton_append, and_self]

/-- A byte string of ASCII decodes byte by byte. -/
theorem decodeLossy_ascii {bs : List Byte} (h : ∀ b ∈ bs, b < 0x80) :
    decodeLossy bs = bs.map fun b => Char.ofNat b.toNat := by
  rw [decodeLossy, decodeFrom, (output_ascii h).1, (output_ascii h).2, flush, List.append_nil]

/-! ## U+0000 -/

theorem ofNat_ne_nul {n : Nat} (hv : n.isValidChar) (h0 : n ≠ 0) : Char.ofNat n ≠ '\x00' := by
  intro h
  rw [Char.ofNat, dif_pos hv] at h
  exact h0 (congrArg Char.toNat h)

/-- The leading bytes, by the length of what they lead. -/
theorem width_eq {a : Byte} {n : Nat} (h : width a = n) :
    (n = 1 → a.toNat < 128) ∧ (n = 2 → 194 ≤ a.toNat ∧ a.toNat < 224) ∧
      (n = 3 → 224 ≤ a.toNat ∧ a.toNat < 240) ∧ (n = 4 → 240 ≤ a.toNat ∧ a.toNat < 245) := by
  subst h
  simp only [width, UInt8.lt_iff_toNat_lt, UInt8.reduceToNat]
  split_ifs <;> simp <;> omega

theorem isCont_iff {b : Byte} : isCont b = true ↔ 128 ≤ b.toNat ∧ b.toNat < 192 := by
  simp [isCont, UInt8.le_iff_toNat_le, UInt8.lt_iff_toNat_lt]

theorem second_spec {a b : Byte} (h : second a b = true) :
    128 ≤ b.toNat ∧ b.toNat < 192 ∧ (a.toNat = 224 → 160 ≤ b.toNat) ∧
      (a.toNat = 237 → b.toNat < 160) ∧ (a.toNat = 240 → 144 ≤ b.toNat) ∧
      (a.toNat = 244 → b.toNat < 144) := by
  simp only [second, ← UInt8.toNat_inj, UInt8.reduceToNat] at h
  split_ifs at h <;>
    simp only [isCont_iff, Bool.and_eq_true, decide_eq_true_eq, UInt8.le_iff_toNat_le,
      UInt8.lt_iff_toNat_lt, UInt8.reduceToNat] at h <;> omega

/-- A complete sequence encodes a character, and U+0000 only as one zero
byte. -/
theorem complete_codePoint {bs : List Byte} (h : complete bs = true) :
    (codePoint bs).isValidChar ∧ (codePoint bs = 0 → bs = [0]) := by
  match bs, h with
  | [a], h =>
    simp only [complete, beq_iff_eq] at h
    have := (width_eq h).1 rfl
    refine ⟨.inl (by simp only [codePoint]; omega), fun h0 => ?_⟩
    rw [show a = 0 from UInt8.toNat_inj.mp h0]
  | [a, b], h =>
    simp only [complete, Bool.and_eq_true, beq_iff_eq, isCont_iff] at h
    have := (width_eq h.1).2.1 rfl
    simp only [codePoint, Nat.isValidChar]
    omega
  | [a, b, c], h =>
    simp only [complete, Bool.and_eq_true, beq_iff_eq, isCont_iff] at h
    have := (width_eq h.1.1).2.2.1 rfl
    have := second_spec h.1.2
    simp only [codePoint, Nat.isValidChar]
    omega
  | [a, b, c, d], h =>
    simp only [complete, Bool.and_eq_true, beq_iff_eq, isCont_iff] at h
    have := (width_eq h.1.1.1).2.2.2 rfl
    have := second_spec h.1.1.2
    simp only [codePoint, Nat.isValidChar]
    omega

/-- The zero byte ends any sequence before it and is itself a character. -/
theorem complete_zero {carry : List Byte} : complete (carry ++ [0]) = true ↔ carry = [] := by
  match carry with
  | [] => decide
  | [_] | [_, _] | [_, _, _] => simp [complete, isCont]
  | _ :: _ :: _ :: _ :: _ => simp [complete]

theorem nul_mem_flush (carry : List Byte) : '\x00' ∉ flush carry := by
  cases carry
  · exact List.not_mem_nil
  · rw [flush, List.mem_singleton]; decide

theorem nul_mem_char {bs : List Byte} (h : complete bs = true) :
    '\x00' ∈ [Char.ofNat (codePoint bs)] ↔ bs = [0] := by
  obtain ⟨hv, h0⟩ := complete_codePoint h
  rw [List.mem_singleton]
  constructor
  · intro he
    by_contra hn
    exact ofNat_ne_nul hv (fun hc => hn (h0 hc)) he.symm
  · rintro rfl; rfl

/-- The zero byte never continues a sequence. -/
theorem incomplete_zero (carry : List Byte) : incomplete (carry ++ [0]) = false := by
  match carry with
  | [] => decide
  | [_] | [_, _] | [_, _, _] => simp [incomplete, second, isCont]
  | _ :: _ :: _ :: _ :: _ => simp [incomplete]

/-- A byte adds U+0000 to the output exactly if it is the zero byte. -/
theorem nul_mem_feed (carry : List Byte) (b : Byte) : '\x00' ∈ (feed carry b).1 ↔ b = 0 := by
  simp only [feed]
  split_ifs with h₁ h₂ h₃ h₄
  · rw [nul_mem_char h₁]
    constructor
    · intro h
      exact List.singleton_inj.mp (List.append_inj' (show carry ++ [b] = [] ++ [0] from h) rfl).2
    · rintro rfl
      rw [complete_zero.mp h₁, List.nil_append]
  · refine iff_of_false List.not_mem_nil ?_
    rintro rfl
    exact absurd h₂ (by rw [incomplete_zero]; decide)
  · rw [List.mem_append, nul_mem_char h₃, or_iff_right (nul_mem_flush carry), List.singleton_inj]
  · refine iff_of_false (nul_mem_flush carry) ?_
    rintro rfl
    exact h₃ (complete_zero.mpr rfl)
  · refine iff_of_false ?_ ?_
    · rw [List.mem_append, not_or, List.mem_singleton]
      exact ⟨nul_mem_flush carry, by decide⟩
    · rintro rfl
      exact h₃ (complete_zero.mpr rfl)

theorem nul_mem_output (carry bs : List Byte) : '\x00' ∈ output carry bs ↔ 0 ∈ bs := by
  induction bs generalizing carry with
  | nil => exact iff_of_false List.not_mem_nil List.not_mem_nil
  | cons b bs ih =>
    rw [output, List.mem_append, nul_mem_feed, ih, List.mem_cons, eq_comm]

/-- The decoded text holds U+0000 exactly if the bytes hold a zero byte. -/
theorem nul_mem_decodeLossy (bs : List Byte) : '\x00' ∈ decodeLossy bs ↔ 0 ∈ bs := by
  rw [decodeLossy, decodeFrom, List.mem_append, nul_mem_output,
    or_iff_left (nul_mem_flush _)]

end MikanJudge.Lib.Utf8
