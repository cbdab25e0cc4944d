import MikanJudge.Lib.Python
import Mathlib.Data.Int.Bitwise

/-!
# The scorer of Generated Max Cut (`problems/max_cut/scorer.py`)

The scorer gets the files of the input and of the output. The graph is
generated anew from the input. An exception while the output is read gives
score 0; any other ends the scorer.
-/

namespace MikanJudge.MaxCut

open MikanJudge.Lib

def mask : Nat := 0xFFFFFFFF

def xorshift32 (x : Nat) : Nat :=
  let x := x ^^^ ((x <<< 13) &&& mask)
  let x := x ^^^ (x >>> 17)
  let x := x ^^^ ((x <<< 5) &&& mask)
  x &&& mask

/-- The ends and the weight. -/
abbrev Edge := Int × Int × Int

/-- The variables of the loop in `generate_graph`. -/
structure GraphState where
  x : Nat
  total : Int
  edges : List Edge

/-- The body of the loop. -/
def GraphState.addEdge (n : Int) (s : GraphState) : Except Py.Exn GraphState := do
  let x := xorshift32 s.x
  let a ← Py.mod x n
  let x := xorshift32 x
  let b ← Py.mod x (n - 1)
  let b := if b ≥ a then b + 1 else b
  let x := xorshift32 x
  let w ← (1 + ·) <$> Py.mod x 1000
  return { x := x, total := s.total + w, edges := s.edges ++ [(a, b, w)] }

/-- So many rounds of it. -/
def GraphState.addEdges (n : Int) : Nat → GraphState → Except Py.Exn GraphState
  | 0, s => .ok s
  | k + 1, s => (s.addEdge n).bind (GraphState.addEdges n k)

def generateGraph (n m seed : Int) : Except Py.Exn (List Edge × Int) := do
  let s ← GraphState.addEdges n m.toNat { x := (seed.land mask).toNat, total := 0, edges := [] }
  return (s.edges, s.total)

/-- The loop that adds up what is cut. -/
def addCut (colors : List Int) : Int → List Edge → Except Py.Exn Int
  | cut, [] => .ok cut
  | cut, (a, b, w) :: edges => do
    let colorA ← Py.getItem colors a
    let colorB ← Py.getItem colors b
    addCut colors (if colorA ≠ colorB then cut + w else cut) edges

def score (v : Py.Version) (input output : Option (List UInt8)) : Except Py.Exn Int := do
  match ← v.readInts input with
  | [n, m, seed] =>
    match v.readInts output with
    | .error _ => return 0
    | .ok colors =>
      if colors.length ≠ n then return 0
      else if colors.any fun c => !(c == 0 || c == 1) then return 0
      else
        let (edges, total) ← generateGraph n m seed
        let cut ← addCut colors 0 edges
        (Py.trueDiv (1000000 * cut) total).bind Py.round
  | _ => throw .valueError

end MikanJudge.MaxCut
