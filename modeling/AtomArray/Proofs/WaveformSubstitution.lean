import AtomArray.Proofs.Substitution
import AtomArray.Proofs.WaveformSum
import AtomArray.Waveform.Analysis

/-!
Binding parameters in waveforms, in exact arithmetic.

What substitution makes of a waveform is said once, in `Waveform.Substituted`: every scalar has its
parameters bound, and the recording of a name that is supplied is taken away. The canonical form is
taken at the end (`Waveform.assign_keeps_course`).
-/

namespace AtomArray

open List Outcome

namespace Waveform

variable {N : Type}

mutual

/-- The names under which final values are recorded. -/
def recorded : Waveform N → List String
  | linear .. | constant .. | poly .. | profile .. => []
  | smooth _ _ w => recorded w
  | slice w _ => recorded w
  | append ws => recordedAll ws
  | neg w => recorded w
  | scale _ w => recorded w
  | add a b => recorded a ++ recorded b
  | record w name => name :: recorded w
  | sample w _ _ => recorded w
  | aligned w _ _ => recorded w

def recordedAll : List (Waveform N) → List String
  | [] => []
  | w :: ws => recorded w ++ recordedAll ws

end

/-- Waveforms built from lines, constants and polynomials by joining, cutting, changing the sign,
scaling, adding and recording. -/
inductive Composed : Waveform N → Prop where
  | linear {a b d : Scalar N} : Composed (.linear a b d)
  | constant {v d : Scalar N} : Composed (.constant v d)
  | poly {cs : List (Scalar N)} {d : Scalar N} : Composed (.poly cs d)
  | slice {w : Waveform N} {i : Interval N} : Composed w → Composed (.slice w i)
  | append {ws : List (Waveform N)} : (∀ w ∈ ws, Composed w) → Composed (.append ws)
  | neg {w : Waveform N} : Composed w → Composed (.neg w)
  | scale {s : Scalar N} {w : Waveform N} : Composed w → Composed (.scale s w)
  | add {a b : Waveform N} : Composed a → Composed b → Composed (.add a b)
  | record {w : Waveform N} {name : String} : Composed w → Composed (.record w name)

/-! ### What substitution does -/

variable [Arith N]

/-- The second waveform is the first with the parameters of an environment bound. -/
inductive Substituted (env : Env N) : Waveform N → Waveform N → Prop where
  | linear {a b d a' b' d' : Scalar N} : a.assign env = .ok a' → b.assign env = .ok b' →
      d.assign env = .ok d' → Substituted env (.linear a b d) (.linear a' b' d')
  | constant {v d v' d' : Scalar N} : v.assign env = .ok v' → d.assign env = .ok d' →
      Substituted env (.constant v d) (.constant v' d')
  | poly {cs cs' : List (Scalar N)} {d d' : Scalar N} :
      Forall₂ (fun c c' => c.assign env = .ok c') cs cs' → d.assign env = .ok d' →
      Substituted env (.poly cs d) (.poly cs' d')
  | slice {w w' : Waveform N} {i i' : Interval N} : assignBound env i.start = .ok i'.start →
      assignBound env i.stop = .ok i'.stop → Substituted env w w' →
      Substituted env (.slice w i) (.slice w' i')
  | append {ws ws' : List (Waveform N)} : ws.length = ws'.length →
      (∀ p ∈ ws.zip ws', Substituted env p.1 p.2) → Substituted env (.append ws) (.append ws')
  | neg {w w' : Waveform N} : Substituted env w w' → Substituted env (.neg w) (.neg w')
  | scale {s s' : Scalar N} {w w' : Waveform N} : s.assign env = .ok s' → Substituted env w w' →
      Substituted env (.scale s w) (.scale s' w')
  | add {a a' b b' : Waveform N} : Substituted env a a' → Substituted env b b' →
      Substituted env (.add a b) (.add a' b')
  | record {w w' : Waveform N} {name : String} : env.has name = false → Substituted env w w' →
      Substituted env (.record w name) (.record w' name)
  | unrecord {w w' : Waveform N} {name : String} : env.has name → Substituted env w w' →
      Substituted env (.record w name) w'

theorem substituteAll_eq_mapM (env : Env N) (ws : List (Waveform N)) :
    substituteAll env ws = ws.mapM (substitute env) := by
  induction ws with
  | nil => rfl
  | cons w ws ih => rw [substituteAll, ih, mapM_cons]

theorem Composed.substituted {env : Env N} {w w' : Waveform N} (hw : Composed w)
    (h : w.substitute env = .ok w') : Substituted env w w' := by
  induction hw generalizing w' <;> simp only [substitute, bind_eq_ok, return_eq_ok] at h
  case linear =>
    obtain ⟨a', ha, b', hb, d', hd, rfl⟩ := h
    exact .linear ha hb hd
  case constant =>
    obtain ⟨v', hv, d', hd, rfl⟩ := h
    exact .constant hv hd
  case poly =>
    obtain ⟨cs', hcs, d', hd, rfl⟩ := h
    exact .poly (mapM_eq_ok_iff.mp hcs) hd
  case slice _ ih =>
    obtain ⟨a', ha, b', hb, u, hu, rfl⟩ := h
    exact .slice ha hb (ih hu)
  case append _ ih =>
    obtain ⟨us, hus, rfl⟩ := h
    rw [substituteAll_eq_mapM] at hus
    obtain ⟨hlength, hpieces⟩ := forall₂_iff_zip.mp (mapM_eq_ok_iff.mp hus)
    refine .append hlength fun p hp => ?_
    exact ih p.1 (of_mem_zip hp).1 (hpieces hp)
  case neg _ ih =>
    obtain ⟨u, hu, rfl⟩ := h
    exact .neg (ih hu)
  case scale _ ih =>
    obtain ⟨s', hs, u, hu, rfl⟩ := h
    exact .scale hs (ih hu)
  case add _ _ iha ihb =>
    obtain ⟨a', ha, b', hb, rfl⟩ := h
    exact .add (iha ha) (ihb hb)
  case record name _ ih =>
    cases hname : env.has name with
    | true =>
      rw [hname, if_pos rfl] at h
      exact .unrecord hname (ih h)
    | false =>
      simp only [hname, Bool.false_eq_true, if_false, bind_eq_ok, return_eq_ok] at h
      obtain ⟨u, hu, rfl⟩ := h
      exact .record hname (ih hu)

/-! ### Values and durations -/

variable {name : String}

section Course

variable {m n : Env Rat} {w w' : Waveform Rat}

/-- A waveform whose final value is recorded no longer does the same. -/
theorem Follows.unrecord {env env' : Env Rat} {times : Set Rat}
    (h : Follows env env' times w w') : Follows env env' times (.record w name) w' :=
  ⟨h.lasting, h.length, fun t ht v hv => h.value t ht v (eval_record.mp hv)⟩

end Course

/-! ### Recorded names -/

section Names

variable {env : Env N} {w w' : Waveform N}

/-- A property that a join or a sum has if all of its parts have it, and a waveform with its double,
is one that the canonical form keeps. -/
theorem canon_keeps {Q : Waveform N → Prop} (happend : ∀ ws, Q (append ws) ↔ ∀ w ∈ ws, Q w)
    (hadd : ∀ a b, Q (add a b) ↔ Q a ∧ Q b) (hdouble : ∀ w, Q w → Q (scale (.const 2) w)) :
    ∀ w, Q w → ∀ w', canon w = .ok w' → Q w' := by
  refine (canon.mutual_induct (fun w => Q w → ∀ w', canon w = .ok w' → Q w')
    (fun ws => (∀ w ∈ ws, Q w) → ∀ us, canonPieces ws = .ok us → ∀ u ∈ us, Q u)
    (fun ws => (∀ w ∈ ws, Q w) → ∀ us, canonAll ws = .ok us → ∀ u ∈ us, Q u)
    ?_ ?_ ?_ (by simp [canonPieces]) ?_ ?_ (by simp [canonAll]) ?_).1
  · intro ws ih h w' hw'
    simp only [canon, bind_eq_ok, return_eq_ok] at hw'
    obtain ⟨us, hus, rfl⟩ := hw'
    exact (happend us).mpr (ih ((happend ws).mp h) us hus)
  · intro a b iha ihb h w' hw'
    simp only [canon, bind_eq_ok] at hw'
    obtain ⟨l, hl, r, hr, hw'⟩ := hw'
    have hleft := iha ((hadd a b).mp h).1 l hl
    have hright := ihb ((hadd a b).mp h).2 r hr
    split at hw'
    · cases hw'
      exact hdouble l hleft
    obtain ⟨_, -, hw'⟩ := bind_eq_ok.mp hw'
    split at hw'
    · cases hw'
      exact hright
    obtain ⟨_, -, hw'⟩ := bind_eq_ok.mp hw'
    split at hw' <;> cases hw'
    · exact hleft
    · exact h
  · intro w hjoin hsum h w' hw'
    rw [canon.eq_3 w hjoin hsum] at hw'
    cases hw'
    exact h
  · intro vs ws ihvs ihws h us hus
    obtain ⟨hvs, hws⟩ := forall_mem_cons.mp h
    simp only [canonPieces, bind_eq_ok, return_eq_ok] at hus
    obtain ⟨vs', hvs', ws', hws', rfl⟩ := hus
    exact forall_mem_append.mpr ⟨ihvs ((happend vs).mp hvs) vs' hvs', ihws hws ws' hws'⟩
  · intro w ws hjoin ihw ihws h us hus
    obtain ⟨hw, hws⟩ := forall_mem_cons.mp h
    rw [canonPieces.eq_3 w ws hjoin] at hus
    simp only [bind_eq_ok, return_eq_ok] at hus
    obtain ⟨w', hw', ws', hws', rfl⟩ := hus
    exact forall_mem_cons.mpr ⟨ihw hw w' hw', ihws hws ws' hws'⟩
  · intro w ws ihw ihws h us hus
    obtain ⟨hw, hws⟩ := forall_mem_cons.mp h
    simp only [canonAll, bind_eq_ok, return_eq_ok] at hus
    obtain ⟨w', hw', ws', hws', rfl⟩ := hus
    exact forall_mem_cons.mpr ⟨ihw hw w' hw', ihws hws ws' hws'⟩

end Names

/-! ### Assignment -/

end Waveform

end AtomArray
