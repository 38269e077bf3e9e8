import AtomArray.Proofs.Breakpoints
import AtomArray.Proofs.Meaning

/-!
Series that realize waveforms.

`Realizes kind env w s` says that the breakpoints of `s` describe, as lines or as steps, the
function that the waveform `w` denotes. A basic waveform is realized by two points, signs and
multiples act on the values, and a join is realized piece by piece (`Spliced`). So by induction on
the waveform, what a sound builder collects realizes it (`SeriesRules.Sound.collect_realizes`).
-/

namespace AtomArray

/-! ### Actions of the builder -/

namespace Collect

variable {N α β : Type} {s s' : Series N}

theorem fresh_eq_ok {c : Collect N Unit} : c.fresh = .ok s ↔ c.run {} = .ok () s := by
  unfold fresh
  split <;> simp [*]

variable {next : α → Collect N β} {b : β}

theorem run_bind_eq_ok {c : Collect N α} :
    (c >>= next).run s = .ok b s' ↔ ∃ a r, c.run s = .ok a r ∧ (next a).run r = .ok b s' := by
  rw [EStateM.run_bind]
  cases c.run s <;> simp

@[simp] theorem run_throw (f : Fault) : (throw f : Collect N α).run s = .error f s := rfl

theorem run_lift_bind_eq_ok {x : Outcome α} :
    (lift x >>= next).run s = .ok b s' ↔ ∃ a, x = .ok a ∧ (next a).run s = .ok b s' := by
  cases x <;> simp [lift]

theorem run_get_bind_eq_ok {next : Series N → Collect N β} :
    (get >>= next).run s = .ok b s' ↔ (next s).run s = .ok b s' := by
  simp

theorem run_set_eq_ok {r : Series N} : (set r : Collect N Unit).run s = .ok () s' ↔ r = s' := by
  simp

theorem run_refuse_eq_ok {refused : Prop} [Decidable refused] {fault : Fault}
    {rest : Collect N α} {a : α} :
    (if refused then (throw fault : Collect N PUnit) >>= fun _ => rest else rest).run s = .ok a s' ↔
      ¬refused ∧ rest.run s = .ok a s' := by
  split <;> simp [*]

variable {c : Collect Rat Unit} {s : Series Rat}

theorem run_neg_eq_ok (h : (do
      c
      let s ← get
      set { s with values := ← lift (s.values.mapM Arith.neg) }).run {} = .ok () s) :
    ∃ r, c.run {} = .ok () r ∧ s = ⟨r.times, r.values.map (-·)⟩ := by
  rw [run_bind_eq_ok] at h
  simp only [run_lift_bind_eq_ok, run_get_bind_eq_ok, run_set_eq_ok, Exact.mapM_neg,
    Except.ok.injEq, exists_eq_left'] at h
  obtain ⟨_, r, hr, rfl⟩ := h
  exact ⟨r, hr, rfl⟩

theorem run_scale_eq_ok {env : Env Rat} {e : Scalar Rat} (h : (do
      c
      let x ← lift (e.eval env)
      let s ← get
      set { s with values := ← lift (s.values.mapM (Arith.mul x)) }).run {} = .ok () s) :
    ∃ r x, c.run {} = .ok () r ∧ e.eval env = .ok x ∧ s = ⟨r.times, r.values.map (x * ·)⟩ := by
  rw [run_bind_eq_ok] at h
  simp only [run_lift_bind_eq_ok, run_get_bind_eq_ok, run_set_eq_ok, Exact.mapM_mul,
    Except.ok.injEq, exists_eq_left'] at h
  obtain ⟨_, r, hr, x, hx, rfl⟩ := h
  exact ⟨r, x, hr, hx, rfl⟩

end Collect

/-! ### Points of a series -/

namespace Series

variable (points : List Breakpoint)

def ofPoints : Series Rat :=
  ⟨points.map Prod.fst, points.map Prod.snd⟩

@[simp] theorem times_ofPoints : (ofPoints points).times = points.map Prod.fst := rfl

@[simp] theorem values_ofPoints : (ofPoints points).values = points.map Prod.snd := rfl

theorem exists_ofPoints {s : Series Rat} (h : s.times.length = s.values.length) :
    ∃ points, s = ofPoints points :=
  ⟨s.times.zip s.values, by
    rw [ofPoints, List.map_fst_zip h.le, List.map_snd_zip h.ge]⟩

/-- A series in order traces a function. -/
theorem exists_traces (k : SeriesKind) {s : Series Rat} {first last : Rat}
    (hcount : s.times.length = s.values.length) (hsorted : s.times.Pairwise (· < ·))
    (hfirst : s.times.head? = some first) (hlast : s.times.getLast? = some last) :
    ∃ f points, s = ofPoints points ∧ Traces k f first last points := by
  obtain ⟨points, rfl⟩ := exists_ofPoints hcount
  cases points with
  | nil => cases hfirst
  | cons p rest =>
    obtain ⟨f, e, h, -⟩ := Traces.exists_of_sorted k (List.pairwise_map.mp hsorted)
    obtain ⟨v, init, hends⟩ := h.ends
    have hp : p.1 = first := Option.some.inj hfirst
    have he : e = last := by simpa [hends] using hlast
    exact ⟨f, _, rfl, hp ▸ he ▸ h⟩

@[simp] theorem stored_eq_ok (times values : List Rat) :
    stored times values = .ok ⟨times, values⟩ := by
  simp [stored]

end Series

theorem ofCollected_eq_ok {c : Collect Rat Unit} {p : Series Rat} :
    ofCollected c = .ok p ↔ c.run {} = .ok () p := by
  simp [ofCollected, Outcome.bind_eq_ok, Collect.fresh_eq_ok]

theorem mapM_add_last {times : List Rat} {m : Rat} (h : lastItem? times = .ok m) (ts : List Rat) :
    (ts.mapM fun t => do Arith.add t (← lastItem? times)) = .ok (ts.map (· + m)) :=
  Outcome.mapM_eq_ok fun t _ => by rw [h, Outcome.ok_bind, Exact.add_eq]

/-- The value of the last step is repeated at its end. -/
def SeriesKind.Held : SeriesKind → List Breakpoint → Prop
  | linear, _ => True
  | constant, points => ∃ init t e v, points = init ++ [(t, v), (e, v)]

variable {points : List Breakpoint} {k : SeriesKind}

/-- Changing points one by one keeps the last value repeated, if the values change alike. -/
theorem SeriesKind.Held.map (h : k.Held points)
    (time value : Rat → Rat) : k.Held (points.map fun p => (time p.1, value p.2)) := by
  cases k with
  | linear => trivial
  | constant =>
    obtain ⟨init, t, e, v, rfl⟩ := h
    exact ⟨init.map fun p => (time p.1, value p.2), time t, time e, value v, by simp⟩

theorem SeriesKind.Held.append (h : k.Held points)
    (pre : List Breakpoint) : k.Held (pre ++ points) := by
  cases k with
  | linear => trivial
  | constant =>
    obtain ⟨init, t, e, v, rfl⟩ := h
    exact ⟨pre ++ init, t, e, v, by rw [List.append_assoc]⟩

/-! ### Realization -/

open Waveform Collect

/-- The series describes what the waveform denotes. -/
def Realizes (k : SeriesKind) (env : Env Rat) (w : Waveform Rat) (s : Series Rat) : Prop :=
  ∃ d f points, Denotes env w d f ∧ Traces k f 0 d points ∧ k.Held points ∧ s = .ofPoints points

variable {k : SeriesKind} {env : Env Rat} {w : Waveform Rat} {s : Series Rat} {x : Rat}

namespace Realizes

theorem line {a b d : Rat} (h : Denotes env w d fun t => (b - a) / d * t + a)
    (hab : k = .constant → a = b) : Realizes k env w ⟨[0, d], [a, b]⟩ := by
  refine ⟨d, _, [(0, a), (d, b)], h, .cons ⟨h.pos, fun t _ => ?_⟩ (.last d b), ?_, rfl⟩
  · cases k with
    | linear => simp [SeriesKind.value]
    | constant => simp [SeriesKind.value, hab rfl]
  · cases k with
    | linear => trivial
    | constant => exact ⟨[], 0, d, b, by rw [hab rfl]; rfl⟩

theorem scale {c : Scalar Rat} (hc : c.eval env = .ok x) (h : Realizes k env w s) :
    Realizes k env (.scale c w) ⟨s.times, s.values.map (x * ·)⟩ := by
  obtain ⟨d, f, points, hd, ht, hheld, rfl⟩ := h
  refine ⟨d, _, _, hd.scale hc, ht.scale x, hheld.map id (x * ·), ?_⟩
  simp [Series.ofPoints, Function.comp_def]

theorem neg (h : Realizes k env w s) : Realizes k env (.neg w) ⟨s.times, s.values.map (-·)⟩ := by
  obtain ⟨d, f, points, hd, ht, hheld, rfl⟩ := h
  refine ⟨d, _, _, hd.neg, (ht.scale (-1)).congr fun t _ => neg_one_mul (f t),
    hheld.map id (-1 * ·), ?_⟩
  simp [Series.ofPoints, Function.comp_def]

theorem record {name : String} (h : Realizes k env w s) : Realizes k env (.record w name) s := by
  obtain ⟨d, f, points, hd, hrest⟩ := h
  exact ⟨d, f, points, hd.record, hrest⟩

end Realizes

/-- The series describes `f` up to the time `d`, and what the pieces denote from there on. -/
def Spliced (k : SeriesKind) (env : Env Rat) (d : Rat) (f : Rat → Rat) (ws : List (Waveform Rat))
    (s : Series Rat) : Prop :=
  ∃ e g points, Continues env ws d e g ∧ (∀ t, t ≤ d → g t = f t) ∧ Traces k g 0 e points ∧
    k.Held points ∧ s = .ofPoints points

namespace Spliced

variable {ws : List (Waveform Rat)} {c d : Rat} {f g : Rat → Rat}

theorem nil (h : Traces k f 0 d points) (hheld : k.Held points) :
    Spliced k env d f [] (.ofPoints points) :=
  ⟨d, f, points, .nil, fun _ _ => rfl, h, hheld, rfl⟩

theorem cons (hw : Denotes env w d g) (h : Spliced k env (c + d) (followedBy f c g) ws s) :
    Spliced k env c f (w :: ws) s := by
  obtain ⟨e, g', points, hcont, hg', ht, hheld, rfl⟩ := h
  refine ⟨e, g', points, hcont.cons hw fun t hct htd => ?_, fun t htc => ?_, ht, hheld, rfl⟩
  · rw [hg' t htd, followedBy_of_lt hct]
  · rw [hg' t (by linarith [hw.pos]), followedBy_of_le htc]

/-- The first piece with the others spliced to it realizes the join. -/
theorem realizes (h : Spliced k env d f ws s) (hw : Denotes env w d f) :
    Realizes k env (.append (w :: ws)) s := by
  obtain ⟨e, g, points, hcont, hg, hrest⟩ := h
  exact ⟨e, g, points, hw.append hcont hg, hrest⟩

end Spliced

/-! ### The builder -/

open List Outcome

namespace SeriesRules

/-- What a kind of series does to points keeps what they trace. -/
structure Sound (k : SeriesRules Rat) : Prop where
  extend {sloped : Option Fault} {a b d : Rat} {s : Series Rat} :
    (k.kind = .constant → sloped = none → a = b) → (k.extend sloped a b d).run {} = .ok () s →
    s = ⟨[0, d], [a, b]⟩ ∧ (k.kind = .constant → a = b)
  slice {f : Rat → Rat} {s e a b : Rat} {points : List Breakpoint} :
    Traces k.kind f s e points → s ≤ a → a < b → b ≤ e →
    ∃ points', k.slice (.ofPoints points) a b = .ok (.ofPoints points') ∧
      Traces k.kind (fun t => f (t + a)) 0 (b - a) points' ∧ k.kind.Held points'
  join {ps qs : List Breakpoint} {m v w : Rat} {r : Series Rat} :
    k.join (.ofPoints (ps ++ [(m, v)])) (.ofPoints ((0, w) :: qs)) = .ok r →
    (k.kind = .linear → v = w) ∧ r = .ofPoints (ps ++ ((0, w) :: qs).map fun p => (p.1 + m, p.2))

/-- What is collected from nothing describes the waveform. -/
def Collects (k : SeriesRules Rat) (env : Env Rat) (w : Waveform Rat) : Prop :=
  ∀ s, (k.collect env w).run {} = .ok () s → Realizes k.kind env w s

namespace Sound

variable {k : SeriesRules Rat} {ws : List (Waveform Rat)} (hk : k.Sound)

include hk

theorem joinAll_spliced {d : Rat} {f : Rat → Rat} (hws : ∀ w ∈ ws, k.Collects env w) (hd : 0 < d)
    (h : Traces k.kind f 0 d points) (hheld : k.kind.Held points)
    (hs : k.joinAll env (.ofPoints points) ws = .ok s) : Spliced k.kind env d f ws s := by
  induction ws generalizing d f points with
  | nil =>
    rw [joinAll] at hs
    cases hs
    exact .nil h hheld
  | cons w ws ih =>
    simp only [joinAll, bind_eq_ok] at hs
    obtain ⟨q, hq, last, hlast, hs⟩ := hs
    obtain ⟨d', g, points', hw, h', hheld', rfl⟩ := hws w mem_cons_self _ (ofCollected_eq_ok.mp hq)
    obtain rfl : d' = last := by simpa [h'.lastItem?_times] using hlast
    rw [if_neg (by simpa using hw.pos.ne')] at hs
    obtain ⟨r, hr, hs⟩ := bind_eq_ok.mp hs
    obtain ⟨v, init, rfl⟩ := h.ends
    obtain ⟨v', rest, rfl⟩ := h'.begins
    obtain ⟨hvv', rfl⟩ := hk.join hr
    have hjoin := h.join h' hd hw.pos hvv'
    have hheld'' := (hheld'.map (· + d) id).append init
    have hws' := fun w' hw' => hws w' (mem_cons_of_mem w hw')
    exact .cons hw (ih hws' (add_pos hd hw.pos) hjoin hheld'' hs)

theorem slice_realizes {i : Interval Rat} (hw : k.Collects env w)
    (hlen : (Waveform.slice w i).length env = .ok x) (hx : 0 < x) :
    k.Collects env (.slice w i) := by
  intro s hs
  simp only [collect, run_lift_bind_eq_ok, run_set_eq_ok, bind_eq_ok] at hs
  obtain ⟨⟨a, b⟩, ⟨whole, hwhole, hcut⟩, p, ⟨q, hq, hslice⟩, rfl⟩ := hs
  obtain ⟨d, f, points, hden, ht, -, rfl⟩ := hw _ (ofCollected_eq_ok.mp hq)
  obtain rfl : d = whole := by simpa [hden.length] using hwhole
  obtain ⟨⟨ha, hab, hbd⟩, hpart⟩ := hden.slice hlen hx hcut
  obtain ⟨points', hpoints', ht', hheld⟩ := hk.slice ht ha hab hbd
  obtain rfl : .ofPoints points' = p := by simpa [hpoints'] using hslice
  exact ⟨_, _, points', hpart, ht', hheld, rfl⟩

theorem append_realizes (hws : ∀ w' ∈ w :: ws, k.Collects env w') :
    k.Collects env (.append (w :: ws)) := by
  intro s hs
  simp only [collect, run_lift_bind_eq_ok, run_set_eq_ok, bind_eq_ok] at hs
  obtain ⟨q, ⟨p, hp, hq⟩, rfl⟩ := hs
  obtain ⟨hfirst, hothers⟩ := forall_mem_cons.mp hws
  obtain ⟨d, f, points, hden, ht, hheld, rfl⟩ := hfirst _ (ofCollected_eq_ok.mp hp)
  exact (hk.joinAll_spliced hothers hden.pos ht hheld hq).realizes hden

theorem collect_realizes (hw : w.Timed env) : k.Collects env w := by
  induction hw with
  | linear hd hx =>
    intro s hs
    simp only [collect, run_lift_bind_eq_ok, hd, Except.ok.injEq, exists_eq_left'] at hs
    obtain ⟨a, ha, b, hb, hs⟩ := hs
    obtain ⟨rfl, hab⟩ := hk.extend (by simp) hs
    exact .line (.linear hd ha hb hx) hab
  | constant hd hx =>
    intro s hs
    simp only [collect, run_lift_bind_eq_ok, hd, Except.ok.injEq, exists_eq_left'] at hs
    obtain ⟨v, hv, hs⟩ := hs
    obtain ⟨rfl, hab⟩ := hk.extend (fun _ _ => rfl) hs
    exact .line (.constant hd hv hx) hab
  | @poly cs d x hd hx =>
    intro s hs
    simp only [collect, run_lift_bind_eq_ok, hd, Except.ok.injEq, exists_eq_left'] at hs
    obtain ⟨⟨a, b⟩, hends, hs⟩ := hs
    have hlevel : (if 1 < cs.length then some Fault.slopedPolynomial else none) = none → a = b :=
      fun hcs => eq_of_lineEnds (.inl (by simpa using hcs)) hends
    obtain ⟨rfl, hab⟩ := hk.extend (fun _ => hlevel) hs
    exact .line (.poly hd hends hx) hab
  | neg _ ih =>
    intro s hs
    rw [collect] at hs
    obtain ⟨r, hr, rfl⟩ := run_neg_eq_ok hs
    exact (ih r hr).neg
  | scale _ ih =>
    intro s hs
    rw [collect] at hs
    obtain ⟨r, x, hr, hx, rfl⟩ := run_scale_eq_ok hs
    exact (ih r hr).scale hx
  | slice _ hlen hx ih => exact hk.slice_realizes ih hlen hx
  | @append ws hne _ ih =>
    cases ws with
    | nil => exact absurd rfl hne
    | cons w ws => exact hk.append_realizes ih
  | record _ ih =>
    intro s hs
    rw [collect] at hs
    exact (ih s hs).record

/-- The series of a waveform realizes it. -/
theorem realizes (hw : w.Timed env) (h : k.ofWaveform env w = .ok s) : Realizes k.kind env w s :=
  hk.collect_realizes hw s (ofCollected_eq_ok.mp h)

end Sound

end SeriesRules

end AtomArray
