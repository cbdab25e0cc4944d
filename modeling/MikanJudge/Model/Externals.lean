import MikanJudge.Model.Types

/-!
# What the program takes from its libraries

The functions of other crates that the model needs as they are: how numbers
are spelled and read, and the parsers of JSON, TOML and Markdown. A result
that relies on what one of them does says so in a hypothesis.
-/

namespace MikanJudge

open MikanJudge.Lib (F64 Json)

/-- The table of a `meta.toml`, before the defaults. -/
structure MetaTable where
  title : String
  timeLimitMs : Option Nat
  memoryLimitKb : Option Nat
  score : Option Nat

inductive DbError where
  | nulInText
  | uniqueViolation
  | foreignKeyViolation
  /-- The connection failed. -/
  | connection
  deriving DecidableEq

structure Externals where
  /-- `serde_json`'s text of a finite `f64`. -/
  fmtDecimal : ℚ → List Char
  /-- `serde_json::from_str`, up to the value a text denotes. -/
  parseJson : String → Option Json
  /-- `toml::from_str`, up to the table. -/
  parseToml : String → Option MetaTable
  markdownToHtml : String → String
  /-- `format!("{value:.6}")`. -/
  fmtFixed6 : F64 → String
  /-- `str::parse::<f64>`, or the text of its error. -/
  parseF64 : String → Except String F64
  /-- `format!("{s:?}")` of a string. -/
  fmtDebug : String → String
  /-- A time as `%Y/%m/%d %H:%M`, at an offset of nine hours. -/
  fmtJst : Time → String
  /-- `{e}` of an error of the database. -/
  dbErrorText : DbError → String
  /-- Argon2 with a salt. -/
  hashPassword : Nat → String → Except String String
  verifyPassword : String → String → Bool

/-- An instance that spells whole numbers, and parses no text. -/
def Externals.simple : Externals where
  fmtDecimal q := (toString q.num).toList ++ ['.', '0']
  parseJson _ := none
  parseToml _ := none
  markdownToHtml s := s
  fmtFixed6 _ := "0.000000"
  parseF64 _ := .error "invalid float literal"
  fmtDebug s := s
  fmtJst _ := "1970/01/01 09:00"
  dbErrorText _ := "error returned from database"
  hashPassword _ password := .ok password
  verifyPassword password hash := password == hash

/-- An instance that knows one `meta.toml`. -/
def Externals.titled : Externals :=
  { Externals.simple with
    parseToml := fun s => if s = "title = \"A\"" then some ⟨"A", none, none, none⟩ else none }

theorem Externals.nul_notMem_simple (q : ℚ) : '\x00' ∉ simple.fmtDecimal q := by
  rw [simple, List.mem_append, not_or]
  exact ⟨Json.nul_notMem_int _, by decide⟩

end MikanJudge
