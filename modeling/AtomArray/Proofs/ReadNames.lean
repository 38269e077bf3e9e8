import AtomArray.Proofs.CanonicalForm
import AtomArray.Proofs.WaveformSubstitution

/-!
What evaluation reads of an environment.

Nothing but the names of an expression or a waveform is read. This is said for two environments of
which the second may give numbers to names that the first lacks (`Scalar.eval_behind`,
`Waveform.Elementary.eval_behind`). Durations are expressions made by simplifying sums and maxima;
that brings no name in (`Scalar.mem_names_of_canon`, `Waveform.mem_names_of_duration`).
-/

namespace AtomArray

open List Outcome

variable {N : Type}

/-- The first is the second, or it stops at a name that is not assigned, or the second at one that
is assigned already. -/
inductive Outcome.Behind {α : Type} (S : String → Prop) : Outcome α → Outcome α → Prop where
  | same (x : Outcome α) : Behind S x x
  | unassigned {name : String} (h : S name) (y : Outcome α) :
      Behind S (.error (.unassigned name)) y
  | alreadyAssigned {name : String} (h : S name) (x : Outcome α) :
      Behind S x (.error (.alreadyAssigned name))

theorem Outcome.Behind.bind {α β : Type} {S : String → Prop} {x y : Outcome α} {f g : α → Outcome β}
    (h : Behind S x y) (hfg : ∀ a, Behind S (f a) (g a)) : Behind S (x >>= f) (y >>= g) := by
  cases h with
  | same =>
    cases x with
    | error e => exact .same _
    | ok a => exact hfg a
  | unassigned hn => exact .unassigned hn _
  | alreadyAssigned hn => exact .alreadyAssigned hn _

theorem Outcome.Behind.eq {α : Type} {x y : Outcome α} (h : Behind (fun _ => False) x y) :
    x = y := by
  cases h with
  | same => rfl
  | unassigned h | alreadyAssigned h => exact h.elim

variable [Arith N] {m m' : Env N} {S : String → Prop} {name : String}

/-- The two environments give a name the same number, or none, or the first lacks it and it is one
of `S`. -/
def Env.AheadAt (S : String → Prop) (m m' : Env N) (name : String) : Prop :=
  (m.lookup name).map Param.number? = (m'.lookup name).map Param.number? ∨
    m.lookup name = none ∧ S name

/-! ### Expressions -/

namespace Scalar

mutual

theorem eval_behind : ∀ e : Scalar N, (∀ n ∈ e.names, m.AheadAt S m' n) →
    Behind S (eval m e) (eval m' e)
  | lit _, _ => .same _
  | var n, h => by
    rw [eval, eval]
    rcases h n (mem_singleton_self n) with hsame | ⟨hnone, hn⟩
    · cases hm : m.lookup n <;> cases hm' : m'.lookup n <;> simp_all [Behind.same]
    · rw [hnone]
      exact .unassigned hn _
  | assigned n v, h => by
    rw [eval, eval, Env.has, Env.has]
    rcases h n (mem_singleton_self n) with hsame | ⟨hnone, hn⟩
    · rw [← Option.isSome_map (f := Param.number?), hsame, Option.isSome_map]
      exact .same _
    · cases m'.lookup n with
      | none => simpa [hnone] using Behind.same _
      | some p => exact .alreadyAssigned hn _
  | neg a, h => (eval_behind a h).bind fun _ => .same _
  | add a b, h | mul a b, h | div a b, h => by
    obtain ⟨ha, hb⟩ := forall_mem_append.mp h
    exact (eval_behind a ha).bind fun _ => (eval_behind b hb).bind fun _ => .same _
  | min ts, h | max ts, h => (evalAll_behind ts h).bind fun _ => .same _
  | slice a s t, h => by
    obtain ⟨⟨ha, hs⟩, ht⟩ := (forall_mem_append.mp h).imp_left forall_mem_append.mp
    exact (eval_behind a ha).bind fun _ => (evalBound_behind s hs).bind fun _ =>
      (evalBound_behind t ht).bind fun _ => .same _

theorem evalAll_behind : ∀ ts : List (Scalar N), (∀ n ∈ namesAll ts, m.AheadAt S m' n) →
    Behind S (evalAll m ts) (evalAll m' ts)
  | [], _ => .same _
  | t :: ts, h => by
    obtain ⟨ht, hts⟩ := forall_mem_append.mp h
    exact (eval_behind t ht).bind fun _ => (evalAll_behind ts hts).bind fun _ => .same _

theorem evalBound_behind : ∀ e : Option (Scalar N), (∀ n ∈ boundNames e, m.AheadAt S m' n) →
    Behind S (evalBound m e) (evalBound m' e)
  | none, _ => .same _
  | some e, h => (eval_behind e h).bind fun _ => .same _

end

omit [Arith N] in
theorem mem_namesAll {ts : List (Scalar N)} : name ∈ namesAll ts ↔ ∃ t ∈ ts, name ∈ t.names := by
  induction ts with
  | nil => simp [namesAll]
  | cons t ts ih => simp [namesAll, ih]

omit [Arith N] in
theorem mem_names_of_mem_parts {e p : Scalar N} (hp : p ∈ parts e) (h : name ∈ p.names) :
    name ∈ e.names := by
  unfold parts at hp
  split at hp <;> simp_all [names, mem_namesAll] <;> grind

theorem mem_names_of_canon {e u : Scalar N} (hu : canon e = .ok u) (h : name ∈ u.names) :
    name ∈ e.names := by
  rcases canon_cases e with ⟨p, hp, hc⟩ | ⟨x, hx⟩ | ⟨hself, -⟩ | ⟨node, op, ts, hnode, rfl⟩
  · have := sizeOf_lt_of_mem_parts hp
    exact mem_names_of_mem_parts hp (mem_names_of_canon (hc.symm.trans hu) h)
  · rw [hx] at hu
    obtain ⟨v, -, hv⟩ := bind_eq_ok.mp hu
    cases hv
    simp [names] at h
  · rw [hself] at hu
    cases hu
    exact h
  · rw [hnode.canon_eq] at hu
    obtain ⟨vs, hvs, hu⟩ := bind_eq_ok.mp hu
    obtain ⟨v, hv, hname⟩ : ∃ v ∈ termSet vs, name ∈ v.names := by
      rw [ofTerms] at hu
      split at hu <;> cases hu
      · rename_i hone
        exact ⟨u, by simp [hone], h⟩
      · cases hnode <;> exact mem_namesAll.mp h
    obtain ⟨t, ht, htv⟩ :=
      exists_of_mem_forall₂ (canonAll_eq_ok.mp hvs).flip (mem_of_mem_termSet hv)
    have hpart : t ∈ parts (node ts) := by cases hnode <;> exact ht
    have := sizeOf_lt_of_mem_parts hpart
    exact mem_names_of_mem_parts hpart (mem_names_of_canon htv hname)
termination_by sizeOf e

end Scalar

/-! ### Waveforms -/

namespace Waveform

mutual

theorem mem_names_of_duration : ∀ {w : Waveform N} {d : Scalar N}, w.duration = .ok d →
    name ∈ d.names → name ∈ w.names
  | linear .., _, rfl, h | constant .., _, rfl, h | poly .., _, rfl, h => mem_append_right _ h
  | profile .., _, rfl, h => mem_append_left _ h
  | slice w i, d, hd, h => by
    simp only [duration, throw_eq_error, error_bind, refuse_eq_ok, bind_eq_ok, return_eq_ok] at hd
    obtain ⟨-, s, hs, rfl⟩ := hd
    have := mem_names_of_duration (w := w) hs
    simp only [Scalar.names, names, Interval.names, mem_append] at h ⊢
    tauto
  | append ws, d, hd, h => (mem_names_of_durationAfter hd h).resolve_left not_mem_nil
  | add a b, d, hd, h => by
    simp only [duration, bind_eq_ok] at hd
    obtain ⟨s, hs, t, ht, hd⟩ := hd
    obtain ⟨u, hu, hname⟩ := Scalar.mem_namesAll.mp (Scalar.mem_names_of_canon hd h)
    rcases mem_pair.mp (Scalar.mem_of_mem_termSet hu) with rfl | rfl
    · exact mem_append_left _ (mem_names_of_duration hs hname)
    · exact mem_append_right _ (mem_names_of_duration ht hname)
  | smooth _ _ w, d, hd, h | scale _ w, d, hd, h | record w _, d, hd, h | aligned w _ _, d, hd, h =>
    mem_append_left _ (mem_names_of_duration (w := w) hd h)
  | neg w, d, hd, h => mem_names_of_duration (w := w) hd h
  | sample w _ _, d, hd, h => mem_append_right _ (mem_names_of_duration (w := w) hd h)

theorem mem_names_of_durationAfter : ∀ {ws : List (Waveform N)} {s d : Scalar N},
    durationAfter s ws = .ok d → name ∈ d.names → name ∈ s.names ∨ name ∈ namesAll ws
  | [], _, _, rfl, h => .inl h
  | w :: ws, s, d, hd, h => by
    simp only [durationAfter, bind_eq_ok] at hd
    obtain ⟨r, hr, sum, hsum, hd⟩ := hd
    rw [namesAll, mem_append]
    rcases mem_names_of_durationAfter hd h with h | h
    · exact (mem_append.mp (Scalar.mem_names_of_canon hsum h)).imp_right fun h =>
        .inl (mem_names_of_duration hr h)
    · exact .inr (.inr h)

end

/-- Lines, constants and polynomials, that are joined, cut, negated, scaled, added, recorded and
sampled. -/
inductive Elementary : Waveform N → Prop where
  | linear {a b d : Scalar N} : Elementary (.linear a b d)
  | constant {v d : Scalar N} : Elementary (.constant v d)
  | poly {cs : List (Scalar N)} {d : Scalar N} : Elementary (.poly cs d)
  | slice {w : Waveform N} {i : Interval N} : Elementary w → Elementary (.slice w i)
  | append {ws : List (Waveform N)} : (∀ w ∈ ws, Elementary w) → Elementary (.append ws)
  | neg {w : Waveform N} : Elementary w → Elementary (.neg w)
  | scale {s : Scalar N} {w : Waveform N} : Elementary w → Elementary (.scale s w)
  | add {a b : Waveform N} : Elementary a → Elementary b → Elementary (.add a b)
  | record {w : Waveform N} {name : String} : Elementary w → Elementary (.record w name)
  | sample {w : Waveform N} {i : Interpolation} {dt : Scalar N} :
      Elementary w → Elementary (.sample w i dt)

variable {w : Waveform N} {ws : List (Waveform N)}

omit [Arith N] in
theorem Composed.elementary (h : w.Composed) : w.Elementary := by
  induction h <;> constructor <;> assumption

theorem length_behind (h : ∀ n ∈ w.names, m.AheadAt S m' n) :
    Behind S (w.length m) (w.length m') := by
  unfold length
  cases hd : w.duration with
  | error f => exact .same _
  | ok d => exact d.eval_behind fun n hn => h n (mem_names_of_duration hd hn)

theorem polyValue_behind {t acc power : N} {cs : List (Scalar N)}
    (h : ∀ n ∈ cs.flatMap Scalar.names, m.AheadAt S m' n) :
    Behind S (polyValue m t acc power cs) (polyValue m' t acc power cs) := by
  induction cs generalizing acc power with
  | nil => exact .same _
  | cons c cs ih =>
    obtain ⟨hc, hcs⟩ := forall_mem_append.mp h
    exact (c.eval_behind hc).bind fun _ => Behind.bind (.same _) fun _ =>
      Behind.bind (.same _) fun _ => Behind.bind (.same _) fun _ => ih hcs

omit [Arith N] in
theorem mapM_behind {f g : N → Outcome N} (h : ∀ x, Behind S (f x) (g x)) (xs : List N) :
    Behind S (xs.mapM f) (xs.mapM g) := by
  induction xs with
  | nil => exact .same _
  | cons x xs ih =>
    rw [mapM_cons, mapM_cons]
    exact (h x).bind fun _ => ih.bind fun _ => .same _

theorem evalPieces_behind (hnames : ∀ n ∈ namesAll ws, m.AheadAt S m' n)
    (hws : ∀ w ∈ ws, (∀ n ∈ w.names, m.AheadAt S m' n) → ∀ t, Behind S (w.eval m t) (w.eval m' t))
    (start t : N) : Behind S (evalPieces m ws start t) (evalPieces m' ws start t) := by
  induction ws generalizing start with
  | nil => exact .same _
  | cons w ws ih =>
    obtain ⟨hw, hws⟩ := forall_mem_cons.mp hws
    obtain ⟨hown, hrest⟩ := forall_mem_append.mp hnames
    rw [evalPieces, evalPieces]
    refine (length_behind hown).bind fun _ => Behind.bind (.same _) fun stop => ?_
    refine Behind.bind (.same _) fun early => ?_
    cases early with
    | true => exact Behind.bind (.same _) (hw hown)
    | false => exact ih hrest hws stop

theorem Elementary.eval_behind (hw : Elementary w) (h : ∀ n ∈ w.names, m.AheadAt S m' n) (t : N) :
    Behind S (w.eval m t) (w.eval m' t) := by
  induction hw generalizing t with
  | linear =>
    simp only [names, forall_mem_append] at h
    exact (Scalar.eval_behind _ h.1.1).bind fun _ => (Scalar.eval_behind _ h.1.2).bind fun _ =>
      (Scalar.eval_behind _ h.2).bind fun _ => .same _
  | constant =>
    simp only [names, forall_mem_append] at h
    exact (Scalar.eval_behind _ h.1).bind fun _ => (Scalar.eval_behind _ h.2).bind fun _ => .same _
  | poly =>
    simp only [names, forall_mem_append] at h
    rw [eval, eval]
    refine (Scalar.eval_behind _ h.2).bind fun _ => Behind.bind (.same _) fun past => ?_
    cases past with
    | true => exact .same _
    | false => exact polyValue_behind h.1
  | slice _ ih =>
    rw [eval, eval]
    refine (length_behind h).bind fun _ => Behind.bind (.same _) fun past => ?_
    simp only [names, Interval.names, forall_mem_append] at h
    cases past with
    | true => exact .same _
    | false =>
      exact (Scalar.evalBound_behind _ h.1.1).bind fun _ => Behind.bind (.same _) (ih h.2)
  | append _ ih =>
    rw [eval, eval]
    exact evalPieces_behind h ih _ t
  | record _ ih => exact (ih (forall_mem_append.mp h).1 _).bind fun _ => .same _
  | neg _ ih => exact (ih h t).bind fun _ => .same _
  | scale _ ih =>
    simp only [names, forall_mem_append] at h
    exact (Scalar.eval_behind _ h.2).bind fun _ => (ih h.1 t).bind fun _ => .same _
  | add _ _ iha ihb =>
    simp only [names, forall_mem_append] at h
    exact ((iha h.1 _).bind fun _ => .same _).bind fun _ =>
      ((ihb h.2 _).bind fun _ => .same _).bind fun _ => .same _
  | sample _ ih =>
    simp only [names, forall_mem_append] at h
    rw [eval, eval]
    exact (length_behind h.2).bind fun _ => (Scalar.eval_behind _ h.1).bind fun _ =>
      Behind.bind (.same _) fun _ => Behind.bind (.same _) fun _ =>
        (mapM_behind (ih h.2) _).bind fun _ => .same _

end Waveform

end AtomArray
