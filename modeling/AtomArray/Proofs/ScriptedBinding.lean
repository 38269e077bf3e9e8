import AtomArray.Proofs.RecordedNames
import AtomArray.Proofs.StackedJoins

/-!
Binding all parameters of a waveform, in any arithmetic.

Where numbers are rounded, simplifying an expression can change its value. In a waveform as it is
written down step by step (`Waveform.Scripted`) the times are numbers and supplied parameters, and
durations sums and cuts of these, which are simplified alike before and after the parameters are
bound (`Scalar.BoundSum.canon_agree`). If binding keeps the other expressions (`Scalar.Kept`), the
waveform can be bound, and is collected as it was before (`Waveform.Scripted.exists_settled`).
-/

namespace AtomArray

open List Outcome Scalar Option

/-! ### Environments -/

variable {N : Type}

/-- Every binding of the first environment is one of the second. -/
def Env.Extends (m m' : Env N) : Prop := ∀ name p, m.lookup name = some p → m'.lookup name = some p

variable {name : String}

theorem Env.Extends.insert {m m' : Env N} {v : Param N} (h : m.Extends m')
    (hname : m.has name = false) : m.Extends (m'.insert name v) := by
  intro key p hp
  have hne : key ≠ name := by
    rintro rfl
    simp [Env.has, hp] at hname
  rw [Env.lookup_insert, if_neg hne, h key p hp]

theorem Env.Extends.lookup_eq {m m' : Env N} (h : m.Extends m')
    (hname : m.has name) : m'.lookup name = m.lookup name := by
  obtain ⟨p, hp⟩ := isSome_iff_exists.mp hname
  rw [hp, h name p hp]

theorem Env.Extends.has_eq {m m' : Env N} (h : m.Extends m')
    (hname : m.has name) : m'.has name = m.has name := by
  rw [Env.has, h.lookup_eq hname, Env.has]

variable [Arith N]

namespace Scalar

variable {m m' : Env N} {a a' b b' e e' : Scalar N}

/-! ### Numbers and parameters -/

/-- The second expression is the first, a number or a parameter that is supplied, with the parameter
bound to its value. -/
inductive Bound (m : Env N) : Scalar N → Scalar N → Prop where
  | lit (v : N) : Bound m (.lit v) (.lit v)
  | var {name : String} {p : Param N} {v : N} : m.lookup name = some p → p.number? = .ok v →
      Bound m (.var name) (.assigned name v)

theorem Bound.eval_eq (h : Bound m e e') : e'.eval [] = e.eval m := by
  cases h with
  | lit v => rfl
  | var hp hv => simp [eval, hp, hv, Env.has]

theorem Bound.assign_eq (hm : m.Storable) (hext : m.Extends m') (h : Bound m e e') :
    e.assign m' = .ok e' := by
  cases h with
  | lit v => rfl
  | @var name p v hp hv => simp [assign, substitute, hext name p hp, hm.of_lookup hp v hv, canon]

theorem Bound.has_of_mem_names (h : Bound m e e') : ∀ name ∈ e.names, m.has name := by
  cases h with
  | lit v => simp [names]
  | var hp hv =>
    intro name hname
    obtain rfl := mem_singleton.mp hname
    rw [Env.has, hp, isSome_some]

theorem evalBound_eq {e e' : Option (Scalar N)} (h : Rel (Bound m) e e') :
    evalBound [] e' = evalBound m e := by
  cases h with
  | none => rfl
  | some h => rw [evalBound, evalBound, h.eval_eq]

/-! ### Durations -/

/-- The second duration is the first, a sum of numbers, parameters and cuts, with its parameters
bound to their values. -/
inductive BoundSum (m : Env N) : Scalar N → Scalar N → Prop where
  | term {e e' : Scalar N} : Bound m e e' → BoundSum m e e'
  | add {a a' b b' : Scalar N} : BoundSum m a a' → BoundSum m b b' → BoundSum m (.add a b) (.add a' b')
  | slice {e e' : Scalar N} {s s' t t' : Option (Scalar N)} : BoundSum m e e' →
      Option.Rel (Bound m) s s' → Option.Rel (Bound m) t t' →
      BoundSum m (.slice e s t) (.slice e' s' t')

theorem BoundSum.eval_eq (h : BoundSum m e e') : e'.eval [] = e.eval m := by
  induction h with
  | term h => exact h.eval_eq
  | add _ _ iha ihb => rw [eval, eval, iha, ihb]
  | slice _ hs ht ih => rw [eval, eval, ih, evalBound_eq hs, evalBound_eq ht]

theorem BoundSum.isLit_eq (h : BoundSum m e e') (d : Decimal) : isLit d e' = isLit d e := by
  cases h with
  | term h => cases h <;> rfl
  | add | slice => rfl

/-- The simplification of a sum without signs, except of two literals. -/
theorem canon_add_unsigned (ha : a.underNeg? = none) (hb : b.underNeg? = none)
    (h : ∀ v w, a = lit v → b ≠ lit w) :
    canon (add a b) = if isLit 0 a then canon b else if isLit 0 b then canon a
      else .ok (add a b) := by
  rw [canon]
  · simp [ha, hb, sameOption]
  · exact fun v w hv hw => h v w hv hw
  · rintro v w - rfl
    cases hb
  · rintro v w rfl
    cases ha

theorem BoundSum.eq_lit_iff (h : BoundSum m e e') (v : N) : e = lit v ↔ e' = lit v := by
  cases h with
  | term h => cases h <;> simp
  | add | slice => simp

theorem BoundSum.underNeg?_eq (h : BoundSum m e e') : e.underNeg? = none ∧ e'.underNeg? = none := by
  cases h with
  | term h => cases h <;> exact ⟨rfl, rfl⟩
  | add | slice => exact ⟨rfl, rfl⟩

theorem BoundSum.canon_agree (h : BoundSum m e e') : Agree (BoundSum m) (canon e) (canon e') := by
  induction h with
  | term h =>
    cases h with
    | lit v => exact .ok (.term (.lit v))
    | var hp hv => exact .ok (.term (.var hp hv))
  | slice he hs ht => exact .ok (.slice he hs ht)
  | @add a a' b b' ha hb iha ihb =>
    by_cases hlit : ∃ v w, a = lit v ∧ b = lit w
    · obtain ⟨v, w, rfl, rfl⟩ := hlit
      obtain rfl := (ha.eq_lit_iff v).mp rfl
      obtain rfl := (hb.eq_lit_iff w).mp rfl
      rw [canon]
      split
      · exact .ok hb
      split
      · exact .ok ha
      cases Arith.add v w with
      | ok sum => exact .ok (.term (.lit sum))
      | error fault => exact .error fault
    · have hlit' : ∀ v w, a' = lit v → b' ≠ lit w := fun v w hv hw =>
        hlit ⟨v, w, (ha.eq_lit_iff v).mpr hv, (hb.eq_lit_iff w).mpr hw⟩
      rw [canon_add_unsigned ha.underNeg?_eq.1 hb.underNeg?_eq.1 fun v w hv hw => hlit ⟨v, w, hv, hw⟩,
        canon_add_unsigned ha.underNeg?_eq.2 hb.underNeg?_eq.2 hlit', ha.isLit_eq, hb.isLit_eq]
      split
      · exact ihb
      split
      · exact iha
      · exact .ok (.add ha hb)

/-- A number, or a parameter that the environment gives a value. -/
def Supplied (m : Env N) (e : Scalar N) : Prop := ∃ e', Bound m e e'

theorem exists_boundOption {e : Option (Scalar N)} (h : ∀ x ∈ e, x.Supplied m) :
    ∃ e', Rel (Bound m) e e' := by
  cases e with
  | none => exact ⟨none, .none⟩
  | some x =>
    obtain ⟨x', hx⟩ := h x rfl
    exact ⟨some x', .some hx⟩

/-! ### Expressions whose value is kept -/

theorem substitute_extends (hext : m.Extends m') : ∀ e : Scalar N,
    (∀ name ∈ e.names, m.has name) → substitute m' e = substitute m e
  | lit v, _ => rfl
  | var name, h => by rw [substitute, substitute, hext.lookup_eq (h name (by simp [names]))]
  | assigned name v, h => by rw [substitute, substitute, hext.has_eq (h name (by simp [names]))]
  | neg a, h => by rw [substitute, substitute, substitute_extends hext a h]
  | add a b, h | mul a b, h | div a b, h => by
    obtain ⟨ha, hb⟩ := forall_mem_append.mp h
    rw [substitute, substitute, substitute_extends hext a ha, substitute_extends hext b hb]
  | min ts, _ | max ts, _ | slice a s t, _ => rfl

/-- All parameters of the expression are supplied, and binding them keeps its value. -/
structure Kept (m : Env N) (e : Scalar N) : Prop where
  supplied : ∀ name ∈ e.names, m.has name
  assigned : ∃ e', e.assign m = .ok e' ∧ e'.eval [] = e.eval m

theorem Kept.exists_assign (hext : m.Extends m') (h : e.Kept m) :
    ∃ e', e.assign m' = .ok e' ∧ e'.eval [] = e.eval m := by
  rw [assign, substitute_extends hext e h.supplied]
  exact h.assigned

theorem Supplied.kept (hm : m.Storable) (h : e.Supplied m) : e.Kept m := by
  obtain ⟨e', he⟩ := h
  exact ⟨he.has_of_mem_names, e', he.assign_eq hm fun _ _ hp => hp, he.eval_eq⟩

end Scalar

namespace Waveform

open PiecewiseLinear SeriesRules

/-- A join, perhaps with its final value recorded. -/
def isJoin : Waveform N → Bool
  | append _ => true
  | record w _ => isJoin w
  | _ => false

/-- A waveform as it is written down step by step. Its times are numbers and supplied parameters, its
values are given by expressions that binding keeps, and what it joins to a waveform is no join
itself. -/
inductive Scripted (m : Env N) : Waveform N → Prop where
  | linear {a b d : Scalar N} : a.Kept m → b.Kept m → d.Supplied m → Scripted m (.linear a b d)
  | constant {v d : Scalar N} : v.Kept m → d.Supplied m → Scripted m (.constant v d)
  | poly {cs : List (Scalar N)} {d : Scalar N} : (∀ c ∈ cs, c.Kept m) → d.Supplied m →
      Scripted m (.poly cs d)
  | slice {w : Waveform N} {i : Interval N} : (∀ e ∈ i.start, e.Supplied m) →
      (∀ e ∈ i.stop, e.Supplied m) → Scripted m w → Scripted m (.slice w i)
  | append {w : Waveform N} {ws : List (Waveform N)} : Scripted m w → (∀ v ∈ ws, Scripted m v) →
      (∀ v ∈ ws, v.isJoin = false) → Scripted m (.append (w :: ws))
  | neg {w : Waveform N} : Scripted m w → Scripted m (.neg w)
  | scale {s : Scalar N} {w : Waveform N} : s.Kept m → Scripted m w → Scripted m (.scale s w)
  | record {w : Waveform N} {name : String} : Scripted m w → Scripted m (.record w name)

/-- The second waveform is what binding the parameters makes of the first. It is collected without
parameters as the first is with them. -/
structure Settled (m m' : Env N) (w w' : Waveform N) : Prop where
  substituted : w.substitute m' = .ok w'
  duration : Agree (Scalar.BoundSum m) w.duration w'.duration
  collected : rules.collect [] w' = rules.collect m w
  stacked : w'.Stacked
  piece : w.isJoin = false → w'.isPiece

variable {m m' : Env N} {w w' : Waveform N} {ws ws' : List (Waveform N)}

theorem Settled.length_eq (h : Settled m m' w w') : w'.length [] = w.length m :=
  (h.duration.bind_eq fun _ _ he => he.eval_eq.symm).symm

theorem durationAfter_agree (h : Forall₂ (Settled m m') ws ws') {d d' : Scalar N}
    (hd : BoundSum m d d') :
    Agree (BoundSum m) (durationAfter d ws) (durationAfter d' ws') := by
  induction h generalizing d d' with
  | nil =>
    rw [durationAfter, durationAfter]
    exact .ok hd
  | cons hw _ ih =>
    rw [durationAfter, durationAfter]
    refine hw.duration.bind fun e e' he => ?_
    exact (BoundSum.canon_agree (.add hd he)).bind fun s s' hs => ih hs

theorem joinAll_eq (h : Forall₂ (Settled m m') ws ws') (p : PiecewiseLinear N) :
    rules.joinAll [] p ws' = rules.joinAll m p ws := by
  induction h generalizing p with
  | nil => rw [joinAll, joinAll]
  | cons hw _ ih =>
    rw [joinAll, joinAll, hw.collected]
    simp only [ih]

theorem assignBound_eq (hm : m.Storable) (hext : m.Extends m') {e e' : Option (Scalar N)}
    (h : Rel (Bound m) e e') : assignBound m' e = .ok e' := by
  cases h with
  | none => rfl
  | some h =>
    rw [assignBound, h.assign_eq hm hext]
    rfl

theorem lineEnds_eq {cs cs' : List (Scalar N)}
    (h : Forall₂ (fun c c' => c'.eval [] = c.eval m) cs cs') (kind : SeriesKind) (d : N) :
    lineEnds [] kind cs' d = lineEnds m kind cs d := by
  cases h with
  | nil => rfl
  | cons hc h =>
    cases h with
    | nil => rw [lineEnds, lineEnds, hc]
    | cons hslope h =>
      cases h with
      | nil => rw [lineEnds, lineEnds, hc, hslope]
      | cons _ h =>
        simp [lineEnds, h.length_eq]

theorem cutBounds_eq {i i' : Interval N} (hstart : Rel (Bound m) i.start i'.start)
    (hstop : Rel (Bound m) i.stop i'.stop) (whole : N) :
    cutBounds [] whole i' = cutBounds m whole i := by
  rw [cutBounds, cutBounds, evalBound_eq hstart, evalBound_eq hstop]

theorem isNone_eq {e e' : Option (Scalar N)} (h : Rel (Bound m) e e') :
    e'.isNone = e.isNone := by
  cases h <;> rfl

theorem Settled.slice (hm : m.Storable) (hext : m.Extends m') {i i' : Interval N}
    (hstart : Rel (Bound m) i.start i'.start)
    (hstop : Rel (Bound m) i.stop i'.stop) (h : Settled m m' w w') :
    Settled m m' (.slice w i) (.slice w' i') := by
  refine ⟨?_, ?_, ?_, .piece rfl, fun _ => rfl⟩
  · rw [substitute, assignBound_eq hm hext hstart, assignBound_eq hm hext hstop, h.substituted]
    rfl
  · rw [Waveform.duration, Waveform.duration, isNone_eq hstart, isNone_eq hstop]
    split
    · exact .error _
    · exact h.duration.bind fun e e' he => .ok (.slice he hstart hstop)
  · rw [collect, collect, h.collected, h.length_eq]
    simp only [cutBounds_eq hstart hstop]

theorem Settled.append (h : Settled m m' w w') (hs : Forall₂ (Settled m m') ws ws')
    (hjoin : ∀ v ∈ ws, v.isJoin = false) :
    Settled m m' (.append (w :: ws)) (.append (w' :: ws')) := by
  refine ⟨?_, ?_, ?_, .join h.stacked ?_, fun hno => (by cases hno)⟩
  · have hall : (w :: ws).mapM (substitute m') = .ok (w' :: ws') :=
      mapM_eq_ok_iff.mpr (.cons h.substituted (hs.imp fun _ _ hv => hv.substituted))
    rw [substitute, substituteAll_eq_mapM, hall]
    rfl
  · rw [Waveform.duration, Waveform.duration]
    exact durationAfter_agree (.cons h hs) (.term (.lit _))
  · rw [collect, collect, h.collected]
    simp only [joinAll_eq hs]
  · intro v' hv'
    obtain ⟨v, hv, hsettled⟩ := exists_of_mem_forall₂ hs.flip hv'
    exact hsettled.piece (hjoin v hv)

theorem Settled.record (h : Settled m m' w w') (name : String) :
    ∃ u, Settled m m' (.record w name) u := by
  by_cases hname : m'.has name
  · refine ⟨w', ?_, ?_, ?_, h.stacked, h.piece⟩
    · rw [substitute, if_pos hname, h.substituted]
    · rw [Waveform.duration]
      exact h.duration
    · rw [collect, h.collected]
  · refine ⟨.record w' name, ?_, ?_, ?_, .piece rfl, fun _ => rfl⟩
    · rw [substitute, if_neg hname, h.substituted]
      rfl
    · rw [Waveform.duration, Waveform.duration]
      exact h.duration
    · rw [collect, collect, h.collected]

theorem Scripted.exists_settled (hm : m.Storable) (hext : m.Extends m') (hw : Scripted m w) :
    ∃ w', Settled m m' w w' := by
  induction hw with
  | linear ha hb hd =>
    obtain ⟨a', ha, hav⟩ := ha.exists_assign hext
    obtain ⟨b', hb, hbv⟩ := hb.exists_assign hext
    obtain ⟨d', hd⟩ := hd
    refine ⟨.linear a' b' d', ?_, .ok (.term hd), ?_, .piece rfl, fun _ => rfl⟩
    · rw [substitute, ha, hb, hd.assign_eq hm hext]
      rfl
    · rw [collect, collect, hav, hbv, hd.eval_eq]
  | constant hv hd =>
    obtain ⟨v', hv, hvv⟩ := hv.exists_assign hext
    obtain ⟨d', hd⟩ := hd
    refine ⟨.constant v' d', ?_, .ok (.term hd), ?_, .piece rfl, fun _ => rfl⟩
    · rw [substitute, hv, hd.assign_eq hm hext]
      rfl
    · rw [collect, collect, hvv, hd.eval_eq]
  | poly hcs hd =>
    obtain ⟨cs', hassign, hcs'⟩ :=
      exists_mapM_eq_ok fun c hc => (hcs c hc).exists_assign hext
    obtain ⟨d', hd⟩ := hd
    refine ⟨.poly cs' d', ?_, .ok (.term hd), ?_, .piece rfl, fun _ => rfl⟩
    · rw [substitute, hassign, hd.assign_eq hm hext]
      rfl
    · rw [collect, collect, hd.eval_eq, hcs'.length_eq]
      simp only [lineEnds_eq hcs']
  | @slice w i hstart hstop _ ih =>
    obtain ⟨w', hw'⟩ := ih
    obtain ⟨start', hstart⟩ := exists_boundOption hstart
    obtain ⟨stop', hstop⟩ := exists_boundOption hstop
    exact ⟨.slice w' ⟨start', stop'⟩, hw'.slice hm hext hstart hstop⟩
  | append _ _ hjoin ih ihs =>
    obtain ⟨w', hw'⟩ := ih
    obtain ⟨ws', -, hws'⟩ := exists_mapM_eq_ok fun v hv => by
      obtain ⟨v', hv'⟩ := ihs v hv
      exact ⟨v', hv'.substituted, hv'⟩
    exact ⟨.append (w' :: ws'), hw'.append hws' hjoin⟩
  | neg _ ih =>
    obtain ⟨w', hw'⟩ := ih
    refine ⟨.neg w', ?_, ?_, ?_, .piece rfl, fun _ => rfl⟩
    · rw [substitute, hw'.substituted]
      rfl
    · rw [Waveform.duration, Waveform.duration]
      exact hw'.duration
    · rw [collect, collect, hw'.collected]
  | scale hs _ ih =>
    obtain ⟨w', hw'⟩ := ih
    obtain ⟨s', hs, hsv⟩ := hs.exists_assign hext
    refine ⟨.scale s' w', ?_, ?_, ?_, .piece rfl, fun _ => rfl⟩
    · rw [substitute, hs, hw'.substituted]
      rfl
    · rw [Waveform.duration, Waveform.duration]
      exact hw'.duration
    · rw [collect, collect, hw'.collected, hsv]
  | record _ ih =>
    obtain ⟨w', hw'⟩ := ih
    exact hw'.record _

/-! ### Recorded names -/

/-- What is supplied stays as it is when values are recorded under other names. -/
theorem extends_scanRecords {env : Env N} (hfresh : ∀ name ∈ w.recorded, m.has name = false)
    (h : w.scanRecords m = .ok env) : m.Extends env :=
  scanRecords_keeps (fun _ name _ hname hext => hext.insert (hfresh name hname)) (Subset.refl _)
    (fun _ _ hp => hp) h

end Waveform

end AtomArray
