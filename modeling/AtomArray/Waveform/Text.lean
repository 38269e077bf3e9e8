import AtomArray.Waveform.Analysis
import AtomArray.Scalar.Text

/-!
Waveforms as trees and as saved JSON. A smoothed waveform has no picture; profiles, recorded and
aligned waveforms have no saved form.
-/

namespace AtomArray

variable {N : Type} [Arith N]

namespace Waveform

def coeffNames (n : Nat) : List String :=
  (List.range n).map fun i => if i = 0 then "b" else if i = 1 then "t" else s!"t^{i}"

def alignmentText : Alignment → String
  | .left => "Left"
  | .right => "Right"

def alignedValueTree : AlignedValue N → Tree
  | .scalar e => e.tree
  | .left => .text "Left"
  | .right => .text "Right"

def paramName (p : Scalar N) : String := p.names.headD ""

mutual

def tree : Waveform N → Tree
  | linear a b d => .named "Linear" [("start", a.tree), ("stop", b.tree), ("duration", d.tree)]
  | constant v d => .named "Constant" [("value", v.tree), ("duration", d.tree)]
  | poly cs d =>
    .named "Poly" ((coeffNames cs.length).zip (cs.map Scalar.tree) ++ [("duration", d.tree)])
  | profile fn d ps _ =>
    .named ("PythonFn: " ++ fn.shownName)
      (Json.merge [("duration", d.tree)] (ps.map fun p => (paramName p, p.tree)))
  | smooth .. => .broken .part
  | slice w i => .branch "Slice" [tree w, i.tree]
  | append ws => .branch "Append" (trees ws)
  | neg w => .branch "Negative" [tree w]
  | scale s w => .branch "Scale" [s.tree, tree w]
  | add a b => .branch "+" [tree a, tree b]
  | record w n => .named "Record" [("Waveform", tree w), ("Variable", (Scalar.var n : Scalar N).tree)]
  | sample w i dt =>
    .named ("Sample " ++ i.name) [("Waveform", tree w), ("sample_step", dt.tree)]
  | aligned w a v =>
    .named "AlignedWaveform" [("Waveform", tree w), ("Alignment", .text (alignmentText a)),
      ("Value", alignedValueTree v)]

def trees : List (Waveform N) → List Tree
  | [] => []
  | w :: ws => tree w :: trees ws

end

mutual

def saved : Waveform N → Outcome Json
  | linear a b d => .ok (.obj [("linear", .obj [("start", a.saved), ("stop", b.saved),
      ("duration", d.saved)])])
  | constant v d => .ok (.obj [("constant", .obj [("value", v.saved), ("duration", d.saved)])])
  | poly cs d => .ok (.obj [("poly", .obj [("coeffs", .arr (cs.map Scalar.saved)),
      ("duration", d.saved)])])
  | profile .. => .error .functionNotSaved
  | smooth r k w => do
    return .obj [("smooth", .obj [("waveform", ← saved w), ("radius", r.saved),
      ("kernel", .str k.name)])]
  | slice w i => do
    return .obj [("slice_waveform", .obj [("waveform", ← saved w), ("interval", i.saved)])]
  | append ws => do
    return .obj [("append_waveform", .obj [("waveforms", .arr (← savedAll ws))])]
  | neg w => do return .obj [("negative_waveform", .obj [("waveform", ← saved w)])]
  | scale s w => do
    return .obj [("scale", .obj [("waveform", ← saved w), ("scalar", s.saved)])]
  | add a b => do
    return .obj [("add_waveform", .obj [("left", ← saved a), ("right", ← saved b)])]
  | record .. => .error .type
  | sample w i dt => do
    return .obj [("sample", .obj [("waveform", ← saved w), ("dt", dt.saved),
      ("interpolation", .str i.name)])]
  | aligned w _ _ => do
    let _ ← saved w
    throw .part

def savedAll : List (Waveform N) → Outcome (List Json)
  | [] => .ok []
  | w :: ws => do return (← saved w) :: (← savedAll ws)

end

end Waveform

end AtomArray
