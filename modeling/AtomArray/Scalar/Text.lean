import AtomArray.Scalar.Eval
import AtomArray.Tree

/-!
Scalar expressions as one line of text with explicit parentheses, as trees, and as saved JSON.
-/

namespace AtomArray

variable {N : Type} [Arith N]

namespace Scalar

mutual

/-- The one-line form. An interval without any bound has none. -/
def text : Scalar N → Outcome String
  | lit v => .ok (Arith.text v)
  | var name => .ok name
  | assigned name _ => .ok name
  | neg e => do return s!"-({← text e})"
  | add a b => do return s!"({← text a} + {← text b})"
  | mul a b => do return s!"({← text a} * {← text b})"
  | div a b => do return s!"({← text a} / {← text b})"
  | min ts => do
    let inner := Text.joined ", " (← texts ts)
    return s!"min({inner})"
  | max ts => do
    let inner := Text.joined ", " (← texts ts)
    return s!"max({inner})"
  | slice e start stop => do
    let whole ← text e
    let a ← boundText start
    let b ← boundText stop
    if a.isNone && b.isNone then throw .intervalWithoutBounds
    let range := a.getD "" ++ ":" ++ b.getD ""
    return s!"({whole})[{range}]"

def texts : List (Scalar N) → Outcome (List String)
  | [] => .ok []
  | t :: ts => do return (← text t) :: (← texts ts)

def boundText : Option (Scalar N) → Outcome (Option String)
  | none => .ok none
  | some e => do return some (← text e)

end

def intervalTree : Option Tree → Option Tree → Tree
  | none, none => .broken .intervalWithoutBounds
  | some a, none => .named "Interval" [("start", a)]
  | none, some b => .named "Interval" [("stop", b)]
  | some a, some b => .named "Interval" [("start", a), ("stop", b)]

mutual

def tree : Scalar N → Tree
  | lit v => .leaf ("Literal: " ++ Arith.text v)
  | var name => .node ("Variable: " ++ name) true false []
  | assigned name v => .leaf ("AssignedVariable: " ++ name ++ " = " ++ Arith.text v)
  | neg e => .branch "Negative" [tree e]
  | add a b => .branch "+" [tree a, tree b]
  | mul a b => .branch "*" [tree a, tree b]
  | div a b => .branch "/" [tree a, tree b]
  | min ts => .branch "min" (trees ts)
  | max ts => .branch "max" (trees ts)
  | slice e start stop =>
    .node "Slice" false true
      [(some "Scalar", tree e), (none, intervalTree (boundTree start) (boundTree stop))]

def trees : List (Scalar N) → List Tree
  | [] => []
  | t :: ts => tree t :: trees ts

def boundTree : Option (Scalar N) → Option Tree
  | none => none
  | some e => some (tree e)

end

mutual

def saved : Scalar N → Json
  | lit v => .obj [("literal", .obj [("value", .str (Arith.text v))])]
  | var name => .obj [("variable", .obj [("name", .str name)])]
  | assigned name v =>
    .obj [("assigned_variable", .obj [("name", .str name), ("value", .str (Arith.text v))])]
  | neg e => .obj [("negative", .obj [("expr", saved e)])]
  | add a b => .obj [("add", .obj [("lhs", saved a), ("rhs", saved b)])]
  | mul a b => .obj [("mul", .obj [("lhs", saved a), ("rhs", saved b)])]
  | div a b => .obj [("div", .obj [("lhs", saved a), ("rhs", saved b)])]
  | min ts => .obj [("min", .obj [("exprs", .arr (savedAll ts))])]
  | max ts => .obj [("max", .obj [("exprs", .arr (savedAll ts))])]
  | slice e start stop =>
    .obj [("slice_scalar", .obj [("expr", saved e),
      ("interval", .obj [("interval",
        .obj [("start", savedBound start), ("stop", savedBound stop)])])])]

def savedAll : List (Scalar N) → List Json
  | [] => []
  | t :: ts => saved t :: savedAll ts

def savedBound : Option (Scalar N) → Json
  | none => .null
  | some e => saved e

end

end Scalar

namespace Interval

variable (i : Interval N)

def text : Outcome String := do
  if i.start.isNone && i.stop.isNone then throw .intervalWithoutBounds
  let a ← Scalar.boundText i.start
  let b ← Scalar.boundText i.stop
  return a.getD "" ++ ":" ++ b.getD ""

def tree : Tree :=
  Scalar.intervalTree (Scalar.boundTree i.start) (Scalar.boundTree i.stop)

def saved : Json :=
  .obj [("interval", .obj [("start", Scalar.savedBound i.start),
    ("stop", Scalar.savedBound i.stop)])]

end Interval

end AtomArray
