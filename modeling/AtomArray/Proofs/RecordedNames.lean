import AtomArray.Circuit
import AtomArray.Proofs.Bundles
import AtomArray.Proofs.WaveformSubstitution

/-!
Where recorded values are written.

Looking for recorded values goes through the waveforms of a sequence one after the other, and does
nothing to an environment but bind the names that they record. What holds before and is kept by
each such binding holds in the end (`Sequence.scanRecords_keeps`).
-/

namespace AtomArray

open AtomArray.Bundle List Outcome Waveform

variable {N : Type}

/-! ### The waveforms of a sequence -/

def Field.waveforms (f : Field N) : List (Waveform N) := f.drives.map Prod.snd

def Pulse.waveforms : Pulse N → List (Waveform N) :=
  fold (gather Field.waveforms fun _ => [])

def Sequence.waveforms : Sequence N → List (Waveform N) :=
  fold (gather Pulse.waveforms fun _ => [])

/-- The names under which final values are recorded somewhere in a sequence. -/
def Sequence.recorded (s : Sequence N) : List String := s.waveforms.flatMap Waveform.recorded

variable [Arith N]

theorem foldlM_flatMap {α β γ : Type} {f : α → List β} {g : γ → β → Outcome γ} {xs : List α}
    {c : γ} : (xs.flatMap f).foldlM g c = xs.foldlM (fun c x => (f x).foldlM g c) c := by
  induction xs generalizing c with
  | nil => rfl
  | cons x xs ih => simp [ih]

/-- Looks for recorded values in one waveform after the other. -/
def Waveform.scanOneByOne (env : Env N) (ws : List (Waveform N)) : Outcome (Env N) :=
  ws.foldlM (fun env w => w.scanRecords env) env

theorem Bundle.scan_eq {κ α : Type} {f : Env N → α → Outcome (Env N)} {ws : α → List (Waveform N)}
    (h : ∀ a env, f env a = scanOneByOne env (ws a)) (b : Bundle κ α N) (env : Env N) :
    b.fold (scan f) env = scanOneByOne env (b.fold (gather ws fun _ => [])) := by
  refine congrFun (map_fold (fun ws env => scanOneByOne env ws) ?_ ?_ ?_ ?_ b).symm env
  · intro ms
    ext1 env
    simp only [gather, scan, h, scanOneByOne, foldlM_flatMap]
  · exact fun _ _ => rfl
  · intro wss
    ext1 env
    simp only [gather, scan, scanOneByOne, ← flatMap_id, foldlM_flatMap, foldlM_map]
    rfl
  · exact fun _ _ => rfl

theorem Field.scanRecords_eq (f : Field N) (env : Env N) :
    f.scanRecords env = scanOneByOne env f.waveforms := by
  rw [scanRecords, scanOneByOne, waveforms, foldlM_map]

theorem Pulse.scanRecords_eq (p : Pulse N) (env : Env N) :
    p.scanRecords env = scanOneByOne env p.waveforms :=
  scan_eq Field.scanRecords_eq p env

theorem Sequence.scanRecords_eq (s : Sequence N) (env : Env N) :
    s.scanRecords env = scanOneByOne env s.waveforms :=
  scan_eq Pulse.scanRecords_eq s env

/-! ### What binding recorded names keeps -/

namespace Waveform

/-- Binding one of these names to a number keeps a property of environments. -/
def BindingKeeps (names : List String) (P : Env N → Prop) : Prop :=
  ∀ env name v, name ∈ names → P env → P (env.insert name (.number v))

variable {P : Env N → Prop} {names : List String}

mutual

theorem scanRecords_keeps (hkeep : BindingKeeps names P) : ∀ {w : Waveform N} {env env' : Env N},
    w.recorded ⊆ names → P env → w.scanRecords env = .ok env' → P env'
  | linear .., _, _, _, henv, rfl | constant .., _, _, _, henv, rfl | poly .., _, _, _, henv, rfl
  | profile .., _, _, _, henv, rfl => henv
  | smooth _ _ w, _, _, hnames, henv, h | slice w _, _, _, hnames, henv, h
  | neg w, _, _, hnames, henv, h | scale _ w, _, _, hnames, henv, h
  | sample w _ _, _, _, hnames, henv, h => scanRecords_keeps hkeep (w := w) hnames henv h
  | append ws, _, _, hnames, henv, h => scanRecordsAll_keeps hkeep (l := ws) hnames henv h
  | add a b, _, _, hnames, henv, h => by
    obtain ⟨m, hm, h⟩ := bind_eq_ok.mp h
    obtain ⟨ha, hb⟩ := append_subset.mp hnames
    exact scanRecords_keeps hkeep hb (scanRecords_keeps hkeep ha henv hm) h
  | record w name, _, _, hnames, henv, h => by
    obtain ⟨m, d, hm, -, h⟩ := bind₂_eq_ok.mp h
    obtain ⟨v, -, h⟩ := bind_eq_ok.mp h
    cases h
    obtain ⟨hname, hw⟩ := cons_subset.mp hnames
    exact hkeep _ _ _ hname (scanRecords_keeps hkeep hw henv hm)

theorem scanRecordsAll_keeps (hkeep : BindingKeeps names P) :
    ∀ {l : List (Waveform N)} {env env' : Env N}, recordedAll l ⊆ names → P env →
      scanRecordsAll env l = .ok env' → P env'
  | [], _, _, _, henv, rfl => henv
  | w :: ws, _, _, hnames, henv, h => by
    obtain ⟨m, hm, h⟩ := bind_eq_ok.mp h
    obtain ⟨hw, hws⟩ := append_subset.mp hnames
    exact scanRecordsAll_keeps hkeep hws (scanRecords_keeps hkeep hw henv hm) h

end

end Waveform

/-- What the binding of each recorded name keeps is kept in the end. -/
theorem Sequence.scanRecords_keeps {s : Sequence N} {P : Env N → Prop}
    (hkeep : BindingKeeps s.recorded P) {env env' : Env N} (henv : P env)
    (h : s.scanRecords env = .ok env') : P env' := by
  rw [scanRecords_eq] at h
  refine Outcome.foldlM_keeps (fun w hw _ _ => ?_) henv h
  exact Waveform.scanRecords_keeps hkeep fun n hn => mem_flatMap.mpr ⟨w, hw, hn⟩

end AtomArray
