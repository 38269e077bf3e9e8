import AtomArray.Fault

/-!
Trees as text. A node has a one-line label and children, which may carry a name. Branches are cut
below a depth limit with a mark. A part that has no picture is a `broken` node: drawing fails only
if it reaches that node.
-/

namespace AtomArray

/-- A tree to draw. `annotated` says whether the children come with names. -/
inductive Tree where
  | node (label : String) (highlighted : Bool) (annotated : Bool)
      (children : List (Option String × Tree))
  | text (s : String)
  | broken (f : Fault)

namespace Tree

variable (label : String)

def leaf : Tree := node label false false []

def branch (children : List Tree) : Tree :=
  node label false false (children.map (none, ·))

def named (children : List (String × Tree)) : Tree :=
  node label false true (children.map fun (k, t) => (some k, t))

structure Charset where
  mid : String
  terminator : String
  skip : String
  dash : String
  trunc : String
  pair : String

def Charset.unicode : Charset := ⟨"├", "└", "│", "─", "⋮", "⇒ "⟩
def Charset.ascii : Charset := ⟨"+", "\\", "|", "--", "...", "=> "⟩

structure Style where
  charset : Charset := .unicode
  colored : Bool := true
  maxDepth : Int := 10

def highlight (s : String) : String := "\x1b[94m" ++ s ++ "\x1b[0m"

/-- Where a node stands: depth, text before each of its lines, on the right edge or not. -/
structure Place where
  depth : Nat
  indent : String
  last : Bool

mutual

/-- Draws a node; `limit` is the depth limit of this call. -/
def draw (style : Style) (limit : Int) (place : Place) : Tree → Outcome String
  | broken f => .error f
  | text s => .ok (s ++ "\n")
  | node label highlighted annotated children => do
    let label := if highlighted && style.colored then highlight label else label
    let stop := if place.last && children.isEmpty then "" else "\n"
    let head := String.join ((label.splitOn "\n").map (· ++ stop))
    if min limit style.maxDepth < (place.depth : Int) then
      return head ++ style.charset.trunc ++ "\n"
    return head ++ (← drawChildren style limit place annotated children)

def drawChildren (style : Style) (limit : Int) (place : Place) (annotated : Bool) :
    List (Option String × Tree) → Outcome String
  | [] => .ok ""
  | (name, child) :: rest => do
    let cs := style.charset
    let isLast := rest.isEmpty
    let width := cs.skip.length + cs.dash.length + 1
    let indent := place.indent ++
      (if isLast then Text.times width " " else cs.skip ++ Text.times (cs.dash.length + 1) " ")
    let lead := place.indent ++ (if isLast then cs.terminator else cs.mid) ++ cs.dash ++ " "
    let edge := isLast && (place.depth == 0 || place.last)
    match (if annotated then name else none) with
    | some n =>
      let below := indent ++ Text.times cs.pair.length " "
      let body ← draw style limit ⟨place.depth + 1, below, edge⟩ child
      return lead ++ n ++ "\n" ++ indent ++ cs.pair ++ body
        ++ (← drawChildren style limit place annotated rest)
    | none =>
      let body ← draw style limit ⟨place.depth + 1, indent, edge⟩ child
      return lead ++ body ++ (← drawChildren style limit place annotated rest)

end

/-- The drawing of a tree; without a limit of its own it takes that of the style. -/
def render (t : Tree) (style : Style := {}) (limit : Option Int := none) : Outcome String :=
  draw style (limit.getD style.maxDepth) ⟨0, "", false⟩ t

end Tree

end AtomArray
