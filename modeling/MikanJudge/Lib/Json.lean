import Mathlib.Data.Rat.Defs

/-!
# JSON values and their text

The data model of JSON, with integers and finite decimals apart, and the
compact text a serializer writes for a value. How a finite decimal is spelled
is left to a parameter. Control characters are escaped, so the text of a value
never holds U+0000 (`nul_notMem_render`).
-/

namespace MikanJudge.Lib

inductive Json where
  | null
  | bool (b : Bool)
  | int (n : Int)
  | float (q : ℚ)
  | str (s : String)
  | arr (items : List Json)
  | obj (fields : List (String × Json))

namespace Json

def hexDigit (n : Nat) : Char := if n < 10 then Char.ofNat (48 + n) else Char.ofNat (87 + n)

/-- One character of a string literal. -/
def escape (c : Char) : List Char :=
  match c with
  | '"' => ['\\', '"']
  | '\\' => ['\\', '\\']
  | '\n' => ['\\', 'n']
  | '\r' => ['\\', 'r']
  | '\t' => ['\\', 't']
  | '\x08' => ['\\', 'b']
  | '\x0c' => ['\\', 'f']
  | c =>
    if c.toNat < 32 then ['\\', 'u', '0', '0', hexDigit (c.toNat / 16), hexDigit (c.toNat % 16)]
    else [c]

def quote (s : String) : List Char := '"' :: s.toList.flatMap escape ++ ['"']

section

variable (fmt : ℚ → List Char)

mutual

/-- The compact text of a value. -/
def render : Json → List Char
  | .null => ['n', 'u', 'l', 'l']
  | .bool true => ['t', 'r', 'u', 'e']
  | .bool false => ['f', 'a', 'l', 's', 'e']
  | .int n => (toString n).toList
  | .float q => fmt q
  | .str s => quote s
  | .arr [] => ['[', ']']
  | .arr (v :: vs) => '[' :: render v ++ renderItems vs
  | .obj [] => ['\x7b', '\x7d']
  | .obj ((k, v) :: fs) => '\x7b' :: quote k ++ ':' :: render v ++ renderFields fs

def renderItems : List Json → List Char
  | [] => [']']
  | v :: vs => ',' :: render v ++ renderItems vs

def renderFields : List (String × Json) → List Char
  | [] => ['\x7d']
  | (k, v) :: fs => ',' :: quote k ++ ':' :: render v ++ renderFields fs

end

end

/-- The value an object has for a key. -/
def get? (key : String) : Json → Option Json
  | .obj fields => fields.lookup key
  | _ => none

/-! ## U+0000 -/

theorem hexDigit_ne_nul : ∀ n < 16, hexDigit n ≠ '\x00' := by decide

theorem nul_notMem_escape (c : Char) : '\x00' ∉ escape c := by
  unfold escape
  split <;> try decide
  split_ifs with h
  · have h₁ := hexDigit_ne_nul (c.toNat / 16) (by omega)
    have h₂ := hexDigit_ne_nul (c.toNat % 16) (by omega)
    simpa using ⟨h₁.symm, h₂.symm⟩
  · rw [List.mem_singleton]
    rintro rfl
    exact h (by decide)

theorem nul_notMem_quote (s : String) : '\x00' ∉ quote s := by
  simp only [quote, List.cons_append, List.mem_cons, List.mem_append, List.mem_flatMap,
    List.not_mem_nil, or_false]
  rintro (h | ⟨c, -, h⟩ | h)
  · exact absurd h (by decide)
  · exact nul_notMem_escape c h
  · exact absurd h (by decide)

theorem nul_notMem_int (n : Int) : '\x00' ∉ (toString n).toList := by
  have hn : ∀ m : Nat, '\x00' ∉ m.repr.toList := fun m h => by
    rw [Nat.toList_repr] at h
    exact absurd (Nat.isDigit_of_mem_toDigits (by decide) (by decide) h) (by decide)
  cases n with
  | ofNat m => exact hn m
  | negSucc m =>
    rw [show toString (Int.negSucc m) = "-" ++ (m + 1).repr from rfl, String.toList_append,
      List.mem_append, not_or]
    exact ⟨by decide, hn _⟩

variable {fmt : ℚ → List Char}

mutual

/-- A serializer that spells decimals without U+0000 writes none at all. -/
theorem nul_notMem_render (hf : ∀ q, '\x00' ∉ fmt q) : ∀ j, '\x00' ∉ render fmt j
  | .null => by simp [render]
  | .bool true => by simp [render]
  | .bool false => by simp [render]
  | .int n => by rw [render]; exact nul_notMem_int n
  | .float q => by rw [render]; exact hf q
  | .str s => by rw [render]; exact nul_notMem_quote s
  | .arr [] => by simp [render]
  | .arr (v :: vs) => by
    simp [render, nul_notMem_render hf v, nul_notMem_renderItems hf vs]
  | .obj [] => by simp [render]
  | .obj ((k, v) :: fs) => by
    simp [render, nul_notMem_quote k, nul_notMem_render hf v, nul_notMem_renderFields hf fs]

theorem nul_notMem_renderItems (hf : ∀ q, '\x00' ∉ fmt q) : ∀ vs, '\x00' ∉ renderItems fmt vs
  | [] => by simp [renderItems]
  | v :: vs => by
    simp [renderItems, nul_notMem_render hf v, nul_notMem_renderItems hf vs]

theorem nul_notMem_renderFields (hf : ∀ q, '\x00' ∉ fmt q) :
    ∀ fs, '\x00' ∉ renderFields fmt fs
  | [] => by simp [renderFields]
  | (k, v) :: fs => by
    simp [renderFields, nul_notMem_quote k, nul_notMem_render hf v, nul_notMem_renderFields hf fs]

end

end Json

end MikanJudge.Lib
