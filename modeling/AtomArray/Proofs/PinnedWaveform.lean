import AtomArray.Proofs.Lookup
import AtomArray.Proofs.PinnedScalar
import AtomArray.Waveform.Analysis

/-!
Binding one parameter in a waveform, before or after anything else is done to it.

As for expressions, it does not matter when this is done, if the parameter was not bound already, is
no recorded name and there is no profile, whose parameters have defaults (`Waveform.Clear`):

* `Waveform.assign_supplies`: to supply one value more is to supply the others and bind it;
* `Waveform.assign_pin`, `Waveform.eval_pin`: a bound parameter counts as a supplied one;
* `Waveform.scanRecords_pin`: the recorded values are the same.
-/

namespace AtomArray

open Outcome Scalar

variable {N : Type}

/-! ### Parts of a waveform -/

section Parts

variable (x : String) (v : N)

def Interval.pin (i : Interval N) : Interval N :=
  ⟨Scalar.pinBound x v i.start, Scalar.pinBound x v i.stop⟩

def Interval.Clear (i : Interval N) : Prop :=
  Scalar.ClearBound x i.start ∧ Scalar.ClearBound x i.stop

def AlignedValue.pin : AlignedValue N → AlignedValue N
  | scalar e => scalar (e.pin x v)
  | left => left
  | right => right

def AlignedValue.Clear : AlignedValue N → Prop
  | scalar e => e.Clear x
  | left | right => True

end Parts

namespace Waveform

mutual

/-- The waveform with a free parameter bound to a number. -/
def pin (x : String) (v : N) : Waveform N → Waveform N
  | linear a b d => linear (a.pin x v) (b.pin x v) (d.pin x v)
  | constant a d => constant (a.pin x v) (d.pin x v)
  | poly cs d => poly (Scalar.pinAll x v cs) (d.pin x v)
  | profile fn d ps ds => profile fn (d.pin x v) (Scalar.pinAll x v ps) ds
  | smooth r k w => smooth (r.pin x v) k (pin x v w)
  | slice w i => slice (pin x v w) (i.pin x v)
  | append ws => append (pinAll x v ws)
  | neg w => neg (pin x v w)
  | scale s w => scale (s.pin x v) (pin x v w)
  | add a b => add (pin x v a) (pin x v b)
  | record w n => record (pin x v w) n
  | sample w i dt => sample (pin x v w) i (dt.pin x v)
  | aligned w a c => aligned (pin x v w) a (c.pin x v)

def pinAll (x : String) (v : N) : List (Waveform N) → List (Waveform N)
  | [] => []
  | w :: ws => pin x v w :: pinAll x v ws

end

mutual

/-- A parameter is not bound anywhere in a waveform, is not recorded, and there is no profile. -/
def Clear (x : String) : Waveform N → Prop
  | linear a b d => a.Clear x ∧ b.Clear x ∧ d.Clear x
  | constant a d => a.Clear x ∧ d.Clear x
  | poly cs d => Scalar.ClearAll x cs ∧ d.Clear x
  | profile _ _ _ _ => False
  | smooth r _ w => r.Clear x ∧ Clear x w
  | slice w i => Clear x w ∧ i.Clear x
  | append ws => ClearAll x ws
  | neg w => Clear x w
  | scale s w => s.Clear x ∧ Clear x w
  | add a b => Clear x a ∧ Clear x b
  | record w n => Clear x w ∧ n ≠ x
  | sample w _ dt => Clear x w ∧ dt.Clear x
  | aligned w _ c => Clear x w ∧ c.Clear x

def ClearAll (x : String) : List (Waveform N) → Prop
  | [] => True
  | w :: ws => Clear x w ∧ ClearAll x ws

end

def Pins (x : String) (v : N) (w w' : Waveform N) : Prop := w.Clear x ∧ w' = w.pin x v

def PinsAll (x : String) (v : N) (ws ws' : List (Waveform N)) : Prop :=
  ClearAll x ws ∧ ws' = pinAll x v ws

variable {x : String} {v : N}

theorem clearAll_append {ws ws' : List (Waveform N)} :
    ClearAll x (ws ++ ws') ↔ ClearAll x ws ∧ ClearAll x ws' := by
  induction ws with
  | nil => simp [ClearAll]
  | cons w ws ih => rw [List.cons_append, ClearAll, ClearAll, ih, and_assoc]

theorem pinAll_append (ws ws' : List (Waveform N)) :
    pinAll x v (ws ++ ws') = pinAll x v ws ++ pinAll x v ws' := by
  induction ws with
  | nil => simp [pinAll]
  | cons w ws ih => rw [List.cons_append, pinAll, pinAll, ih, List.cons_append]

end Waveform

variable {x : String} {v : N} {env env' : Env N}

/-- The second environment is the first one with a new binding in front. -/
def Env.Precedes (x : String) (v : N) (env env' : Env N) : Prop :=
  env.lookup x = none ∧ env' = (x, .number v) :: env

theorem Env.Precedes.supplies (h : env.Precedes x v env') : env.Supplies x v env' := by
  obtain ⟨habsent, rfl⟩ := h
  exact ⟨habsent, fun y => lookup_cons_ite x _⟩

theorem Env.Precedes.insert (h : env.Precedes x v env') {name : String} (hname : name ≠ x)
    (q : Param N) : (env.insert name q).Precedes x v (env'.insert name q) := by
  obtain ⟨habsent, rfl⟩ := h
  refine ⟨?_, ?_⟩
  · rw [Env.lookup_insert, if_neg hname.symm, habsent]
  · rw [Env.insert, Json.insert, if_neg hname.symm, Env.insert]

set_option linter.unusedSectionVars false

variable [Arith N] [Arith.Exact N]

/-! ### Equality -/

theorem Interval.same_pin {i j : Interval N} (hi : i.Clear x)
    (hj : j.Clear x) : (i.pin x v).same (j.pin x v) = i.same j := by
  rw [Interval.same, Interval.same, Interval.pin, Interval.pin, sameBound_pin hi.1 hj.1,
    sameBound_pin hi.2 hj.2]

theorem AlignedValue.same_pin {a b : AlignedValue N} (ha : a.Clear x)
    (hb : b.Clear x) : (a.pin x v).same (b.pin x v) = a.same b := by
  cases a <;> cases b
  case scalar.scalar a b => exact Scalar.same_pin ha hb
  all_goals rfl

theorem Scalar.sameList_pinAll {as bs : List (Scalar N)} (ha : ClearAll x as) (hb : ClearAll x bs) :
    sameList Scalar.same (pinAll x v as) (pinAll x v bs) = sameList Scalar.same as bs := by
  induction as generalizing bs with
  | nil => cases bs <;> rfl
  | cons a as ih =>
    cases bs with
    | nil => rfl
    | cons b bs =>
      rw [pinAll, pinAll, sameList, sameList, same_pin ha.1 hb.1, ih ha.2 hb.2]

namespace Waveform

mutual

theorem same_pin {w w' : Waveform N} (h : w.Clear x) (h' : w'.Clear x) :
    same (w.pin x v) (w'.pin x v) = same w w' := by
  cases w <;> cases w' <;> simp only [pin, same]
  case linear.linear =>
    rw [Scalar.same_pin h.1 h'.1, Scalar.same_pin h.2.1 h'.2.1, Scalar.same_pin h.2.2 h'.2.2]
  case constant.constant => rw [Scalar.same_pin h.1 h'.1, Scalar.same_pin h.2 h'.2]
  case poly.poly => rw [Scalar.sameList_pinAll h.1 h'.1, Scalar.same_pin h.2 h'.2]
  case profile.profile => exact h.elim
  case smooth.smooth | scale.scale => rw [Scalar.same_pin h.1 h'.1, same_pin h.2 h'.2]
  case slice.slice => rw [same_pin h.1 h'.1, Interval.same_pin h.2 h'.2]
  case append.append => exact sameAll_pin h h'
  case neg.neg w _ => exact same_pin (w := w) h h'
  case add.add => rw [same_pin h.1 h'.1, same_pin h.2 h'.2]
  case record.record => rw [same_pin h.1 h'.1]
  case sample.sample => rw [same_pin h.1 h'.1, Scalar.same_pin h.2 h'.2]
  case aligned.aligned => rw [same_pin h.1 h'.1, AlignedValue.same_pin h.2 h'.2]

theorem sameAll_pin : ∀ {ws ws' : List (Waveform N)},
    ClearAll x ws → ClearAll x ws' → sameAll (pinAll x v ws) (pinAll x v ws') = sameAll ws ws'
  | [], [], _, _ | [], _ :: _, _, _ | _ :: _, [], _, _ => by simp only [pinAll, sameAll]
  | _ :: _, _ :: _, h, h' => by
    simp only [pinAll, sameAll, same_pin h.1 h'.1, sameAll_pin h.2 h'.2]

end

/-! ### Durations and canonical form -/

mutual

/-- The duration of a waveform with a parameter bound is its duration with the parameter bound. -/
theorem duration_pin {w : Waveform N} (h : w.Clear x) :
    Agree (Scalar.Pins x v) (duration w) (duration (w.pin x v)) := by
  cases w <;> rw [pin, duration, duration]
  case linear => exact .ok ⟨h.2.2, rfl⟩
  case constant | poly => exact .ok ⟨h.2, rfl⟩
  case profile => exact h.elim
  case smooth | scale => exact duration_pin h.2
  case slice =>
    have hopen : ∀ s : Option (Scalar N), (Scalar.pinBound x v s).isNone = s.isNone := by
      intro s
      cases s <;> simp [Scalar.pinBound]
    rw [Interval.pin]
    simp only [hopen]
    split
    · exact .error _
    · exact (duration_pin h.1).map fun d hd => ⟨⟨hd, h.2⟩, by rw [Scalar.pin]⟩
  case append => exact durationAfter_pin (pins_lit _) h
  case neg w => exact duration_pin (w := w) h
  case add =>
    apply (duration_pin h.1).bind₂ (duration_pin h.2)
    rintro d _ ⟨hd, rfl⟩ e _ ⟨he, rfl⟩
    exact greater_pin hd he
  case record | sample | aligned => exact duration_pin h.1

theorem durationAfter_pin : ∀ {ws : List (Waveform N)}
    {d d' : Scalar N}, Scalar.Pins x v d d' → ClearAll x ws →
    Agree (Scalar.Pins x v) (durationAfter d ws) (durationAfter d' (pinAll x v ws))
  | [], _, _, hd, _ => by
    rw [pinAll, durationAfter, durationAfter]
    exact .ok hd
  | w :: ws, d, _, ⟨hd, rfl⟩, h => by
    rw [pinAll, durationAfter, durationAfter]
    apply (duration_pin h.1).bind
    rintro e _ ⟨he, rfl⟩
    apply (plus_pin hd he).bind
    intro s s' hs
    exact durationAfter_pin hs h.2

end

mutual

theorem canon_pin : ∀ {w : Waveform N}, w.Clear x → Agree (Pins x v) (canon w) (canon (w.pin x v))
  | append ws, h => by
    rw [pin, canon, canon]
    exact (canonPieces_pin h).map fun ws hws => ⟨hws, by rw [pin]⟩
  | add a b, h => by
    rw [pin, canon, canon]
    apply (canon_pin h.1).bind
    rintro l _ ⟨hl, rfl⟩
    apply (canon_pin h.2).bind
    rintro r _ ⟨hr, rfl⟩
    rw [same_pin hl hr]
    split
    · exact .ok ⟨⟨trivial, hl⟩, by rw [pin, Scalar.const, Scalar.pin]⟩
    have hzero : ∀ {d : Scalar N}, d.Clear x → (d.pin x v).same (.const 0) = d.same (.const 0) := by
      intro d hd
      rw [← Scalar.same_pin hd (b := .const 0) trivial, Scalar.const, Scalar.pin]
    apply (duration_pin hl).bind
    rintro d _ ⟨hd, rfl⟩
    rw [hzero hd]
    split
    · exact .ok ⟨hr, rfl⟩
    apply (duration_pin hr).bind
    rintro e _ ⟨he, rfl⟩
    rw [hzero he]
    split
    · exact .ok ⟨hl, rfl⟩
    · exact .ok ⟨h, by rw [pin]⟩
  | profile _ _ _ _, h => h.elim
  | linear _ _ _, h | constant _ _, h | poly _ _, h | smooth _ _ _, h | slice _ _, h | neg _, h
  | scale _ _, h | record _ _, h | sample _ _ _, h | aligned _ _ _, h => by
    simp only [pin, canon]
    exact .ok ⟨h, by rw [pin]⟩

theorem canonPieces_pin : ∀ {ws : List (Waveform N)}, ClearAll x ws →
    Agree (PinsAll x v) (canonPieces ws) (canonPieces (pinAll x v ws))
  | [], h => by
    rw [pinAll, canonPieces]
    exact .ok ⟨h, by rw [pinAll]⟩
  | append vs :: ws, h => by
    rw [pinAll, pin, canonPieces, canonPieces]
    exact (canonAll_pin h.1).both (canonPieces_pin h.2) fun vs ws hvs hws =>
      ⟨clearAll_append.mpr ⟨hvs, hws⟩, (pinAll_append vs ws).symm⟩
  | profile _ _ _ _ :: _, h => h.1.elim
  | linear _ _ _ :: ws, h | constant _ _ :: ws, h | poly _ _ :: ws, h | smooth _ _ _ :: ws, h
  | slice _ _ :: ws, h | neg _ :: ws, h | scale _ _ :: ws, h | add _ _ :: ws, h
  | record _ _ :: ws, h | sample _ _ _ :: ws, h | aligned _ _ _ :: ws, h => by
    have hhead := canon_pin h.1
    simp only [pinAll, pin, canonPieces] at hhead ⊢
    exact hhead.both (canonPieces_pin h.2) fun w ws hw hws => ⟨⟨hw, hws⟩, by rw [pinAll]⟩

theorem canonAll_pin : ∀ {ws : List (Waveform N)}, ClearAll x ws →
    Agree (PinsAll x v) (canonAll ws) (canonAll (pinAll x v ws))
  | [], h => by
    rw [pinAll, canonAll]
    exact .ok ⟨h, by rw [pinAll]⟩
  | w :: ws, h => by
    rw [pinAll, canonAll, canonAll]
    exact (canon_pin h.1).both (canonAll_pin h.2) fun w ws hw hws => ⟨⟨hw, hws⟩, by rw [pinAll]⟩

end

end Waveform

/-! ### Substitution -/

section Supplies

variable (henv : env.Supplies x v env')

include henv

variable {ts : List (Scalar N)}

theorem Scalar.mapM_assign_supplies (h : ClearAll x ts) :
    Agree (PinsAll x v) (ts.mapM (assign env)) (ts.mapM (assign env')) := by
  induction ts with
  | nil => exact .ok ⟨h, rfl⟩
  | cons t ts ih =>
    rw [List.mapM_cons, List.mapM_cons]
    exact (assign_supplies henv h.1).both (ih h.2)
      fun t ts ht hts => ⟨⟨ht, hts⟩, by rw [pinAll]⟩

theorem Scalar.mapM_assign_pin (h : ClearAll x ts) :
    (pinAll x v ts).mapM (assign env) = ts.mapM (assign env') := by
  induction ts with
  | nil => rfl
  | cons t ts ih => rw [pinAll, List.mapM_cons, List.mapM_cons, assign_pin henv h.1, ih h.2]

namespace Waveform

variable {s : Option (Scalar N)}

theorem assignBound_supplies (h : Scalar.ClearBound x s) :
    Agree (fun s s' => Scalar.ClearBound x s ∧ s' = Scalar.pinBound x v s)
      (assignBound env s) (assignBound env' s) := by
  cases s with
  | none => exact .ok ⟨h, by rw [Scalar.pinBound]⟩
  | some e =>
    exact (assign_supplies henv (e := e) h).map fun e he => ⟨he, by rw [Scalar.pinBound]⟩

theorem assignBound_pin (h : Scalar.ClearBound x s) :
    assignBound env (Scalar.pinBound x v s) = assignBound env' s := by
  cases s with
  | none => rw [Scalar.pinBound, assignBound, assignBound]
  | some e => rw [Scalar.pinBound, assignBound, assignBound, assign_pin henv (e := e) h]

variable {c : AlignedValue N}

theorem assignAligned_supplies (h : c.Clear x) :
    Agree (fun c c' => c.Clear x ∧ c' = c.pin x v) (assignAligned env c)
      (assignAligned env' c) := by
  cases c with
  | scalar e => exact (assign_supplies henv (e := e) h).map fun e he => ⟨he, rfl⟩
  | left | right => exact .ok ⟨trivial, rfl⟩

theorem assignAligned_pin (h : c.Clear x) :
    assignAligned env (c.pin x v) = assignAligned env' c := by
  cases c with
  | scalar e =>
    rw [AlignedValue.pin, assignAligned, assignAligned, assign_pin henv (e := e) h]
  | left | right => rfl

mutual

theorem substitute_supplies {w : Waveform N} (h : w.Clear x) :
    Agree (Pins x v) (substitute env w) (substitute env' w) := by
  cases w <;> rw [substitute, substitute]
  case linear =>
    apply (assign_supplies henv h.1).bind
    rintro a _ ⟨ha, rfl⟩
    exact (assign_supplies henv h.2.1).both (assign_supplies henv h.2.2)
      fun b d hb hd => ⟨⟨ha, hb, hd⟩, by rw [pin]⟩
  case constant =>
    exact (assign_supplies henv h.1).both (assign_supplies henv h.2)
      fun a d ha hd => ⟨⟨ha, hd⟩, by rw [pin]⟩
  case poly =>
    exact (mapM_assign_supplies henv h.1).both (assign_supplies henv h.2)
      fun cs d hcs hd => ⟨⟨hcs, hd⟩, by rw [pin]⟩
  case profile => exact h.elim
  case smooth | scale =>
    exact (assign_supplies henv h.1).both (substitute_supplies h.2)
      fun r w hr hw => ⟨⟨hr, hw⟩, by rw [pin]⟩
  case slice =>
    apply (assignBound_supplies henv h.2.1).bind
    rintro a _ ⟨ha, rfl⟩
    exact (assignBound_supplies henv h.2.2).both (substitute_supplies h.1)
      fun b w hb hw => ⟨⟨hw, ha, hb⟩, by rw [pin, Interval.pin]⟩
  case append => exact (substituteAll_supplies h).map fun ws hws => ⟨hws, by rw [pin]⟩
  case neg w => exact (substitute_supplies (w := w) h).map fun w hw => ⟨hw, by rw [pin]⟩
  case add =>
    exact (substitute_supplies h.1).both (substitute_supplies h.2)
      fun a b ha hb => ⟨⟨ha, hb⟩, by rw [pin]⟩
  case record =>
    -- Recorded or not is decided alike, for the name is not the parameter.
    rw [henv.has_of_ne h.2]
    split
    · exact substitute_supplies h.1
    · exact (substitute_supplies h.1).map fun w hw => ⟨⟨hw, h.2⟩, by rw [pin]⟩
  case sample =>
    exact (assign_supplies henv h.2).both (substitute_supplies h.1)
      fun dt w hdt hw => ⟨⟨hw, hdt⟩, by rw [pin]⟩
  case aligned =>
    exact (assignAligned_supplies henv h.2).both (substitute_supplies h.1)
      fun c w hc hw => ⟨⟨hw, hc⟩, by rw [pin]⟩

theorem substituteAll_supplies : ∀ {ws : List (Waveform N)}, ClearAll x ws →
      Agree (PinsAll x v) (substituteAll env ws) (substituteAll env' ws)
  | [], h => by
    rw [substituteAll, substituteAll]
    exact .ok ⟨h, by rw [pinAll]⟩
  | w :: ws, h => by
    rw [substituteAll, substituteAll]
    exact (substitute_supplies h.1).both (substituteAll_supplies h.2)
      fun w ws hw hws => ⟨⟨hw, hws⟩, by rw [pinAll]⟩

end

variable {w : Waveform N}

theorem assign_supplies (h : w.Clear x) : Agree (Pins x v) (assign env w) (assign env' w) := by
  apply (substitute_supplies henv h).bind
  rintro w _ ⟨hw, rfl⟩
  exact canon_pin hw

mutual

theorem substitute_pin {w : Waveform N} (h : w.Clear x) :
    substitute env (w.pin x v) = substitute env' w := by
  cases w <;> rw [pin, substitute, substitute]
  case linear => rw [assign_pin henv h.1, assign_pin henv h.2.1, assign_pin henv h.2.2]
  case constant => rw [assign_pin henv h.1, assign_pin henv h.2]
  case poly => rw [mapM_assign_pin henv h.1, assign_pin henv h.2]
  case profile => exact h.elim
  case smooth | scale => rw [assign_pin henv h.1, substitute_pin h.2]
  case slice =>
    rw [Interval.pin, assignBound_pin henv h.2.1, assignBound_pin henv h.2.2, substitute_pin h.1]
  case append => rw [substituteAll_pin h]
  case neg w => rw [substitute_pin (w := w) h]
  case add => rw [substitute_pin h.1, substitute_pin h.2]
  case record => rw [substitute_pin h.1, henv.has_of_ne h.2]
  case sample => rw [assign_pin henv h.2, substitute_pin h.1]
  case aligned => rw [assignAligned_pin henv h.2, substitute_pin h.1]

theorem substituteAll_pin : ∀ {ws : List (Waveform N)}, ClearAll x ws →
      substituteAll env (pinAll x v ws) = substituteAll env' ws
  | [], _ => by rw [pinAll, substituteAll, substituteAll]
  | w :: ws, h => by
    rw [pinAll, substituteAll, substituteAll, substitute_pin h.1, substituteAll_pin h.2]

end

theorem assign_pin (h : w.Clear x) : assign env (w.pin x v) = assign env' w := by
  rw [assign, assign, substitute_pin henv h]

/-! ### Values -/

theorem length_pin (h : w.Clear x) : (w.pin x v).length env = w.length env' := by
  refine ((duration_pin h).bind_eq ?_).symm
  rintro d _ ⟨hd, rfl⟩
  exact (eval_pin henv hd).symm

theorem polyValue_pin (t : N) {cs : List (Scalar N)} (h : Scalar.ClearAll x cs) (acc power : N) :
    polyValue env t acc power (Scalar.pinAll x v cs) = polyValue env' t acc power cs := by
  induction cs generalizing acc power with
  | nil => rw [Scalar.pinAll, polyValue, polyValue]
  | cons c cs ih =>
    rw [Scalar.pinAll, polyValue, polyValue, eval_pin henv h.1]
    simp only [ih h.2]

mutual

/-- A waveform with a parameter bound has the values that it has if the parameter is supplied. -/
theorem eval_pin {w : Waveform N} (h : w.Clear x) : eval env (w.pin x v) = eval env' w := by
  funext t
  have hlength := length_pin henv h
  cases w <;> rw [pin] at hlength ⊢ <;> rw [eval, eval]
  case linear =>
    rw [Scalar.eval_pin henv h.1, Scalar.eval_pin henv h.2.1, Scalar.eval_pin henv h.2.2]
  case constant => rw [Scalar.eval_pin henv h.1, Scalar.eval_pin henv h.2]
  case poly => rw [Scalar.eval_pin henv h.2, polyValue_pin henv t h.1]
  case profile => exact h.elim
  case smooth => rw [Scalar.eval_pin henv h.1, length_pin henv h.2, eval_pin h.2]
  case slice _ i =>
    have hstart : Scalar.evalBound env (i.pin x v).start = Scalar.evalBound env' i.start :=
      evalBound_pin henv h.2.1
    rw [hlength, hstart, eval_pin h.1]
  case append => rw [evalPieces_pin h]
  case neg w => rw [eval_pin (w := w) h]
  case scale => rw [Scalar.eval_pin henv h.1, eval_pin h.2]
  case add => rw [eval_pin h.1, eval_pin h.2]
  case record => rw [eval_pin h.1]
  case sample => rw [length_pin henv h.1, Scalar.eval_pin henv h.2, eval_pin h.1]

theorem evalPieces_pin : ∀ {ws : List (Waveform N)}, ClearAll x ws →
    evalPieces env (pinAll x v ws) = evalPieces env' ws
  | [], _ => by rw [pinAll]; rfl
  | w :: ws, h => by
    funext start t
    rw [pinAll, evalPieces, evalPieces, length_pin henv h.1, eval_pin h.1, evalPieces_pin h.2]

end

end Waveform

end Supplies

/-! ### Recorded values -/

namespace Waveform

mutual

/-- The values recorded with a parameter bound are those recorded if it is supplied. -/
theorem scanRecords_pin {w : Waveform N} {env env' : Env N} (h : w.Clear x)
    (henv : env.Precedes x v env') :
    Agree (Env.Precedes x v) (scanRecords env (w.pin x v)) (scanRecords env' w) := by
  cases w <;> rw [pin, scanRecords, scanRecords]
  case linear | constant | poly => exact .ok henv
  case profile => exact h.elim
  case smooth | scale => exact scanRecords_pin h.2 henv
  case slice | sample => exact scanRecords_pin h.1 henv
  case append => exact scanRecordsAll_pin h henv
  case neg w => exact scanRecords_pin (w := w) h henv
  case add =>
    apply (scanRecords_pin h.1 henv).bind
    intro m m' hm
    exact scanRecords_pin h.2 hm
  case record =>
    apply (scanRecords_pin h.1 henv).bind
    intro m m' hm
    rw [length_pin hm.supplies h.1, eval_pin hm.supplies h.1]
    apply (Agree.self (R := Eq) fun _ _ => rfl).bind
    rintro d _ rfl
    apply (Agree.self (R := Eq) fun _ _ => rfl).bind
    rintro value _ rfl
    exact .ok (hm.insert h.2 _)
  case aligned => exact .error _

theorem scanRecordsAll_pin : ∀ {ws : List (Waveform N)} {env env' : Env N},
    ClearAll x ws → env.Precedes x v env' →
    Agree (Env.Precedes x v) (scanRecordsAll env (pinAll x v ws)) (scanRecordsAll env' ws)
  | [], _, _, _, henv => by
    rw [pinAll, scanRecordsAll, scanRecordsAll]
    exact .ok henv
  | w :: ws, _, _, h, henv => by
    rw [pinAll, scanRecordsAll, scanRecordsAll]
    apply (scanRecords_pin h.1 henv).bind
    intro m m' hm
    exact scanRecordsAll_pin h.2 hm

end

end Waveform

end AtomArray
