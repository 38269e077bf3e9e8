import AtomArray.Piecewise.Compile
import AtomArray.Proofs.Exact

/-!
Joins as they are built up piece by piece, in any arithmetic.

Storing a series once more changes nothing. So the series of a join is that of its first piece,
joined with those of the others one after the other (`SeriesRules.Stores.ofWaveform_append`).

The canonical form takes a join inside a join apart. Where the inner join comes first, this only
regroups the same steps: a `Waveform.Stacked` waveform and its canonical form have the same series,
or the same fault (`Waveform.Stacked.exists_canon`).
-/

namespace AtomArray

open Outcome

theorem Collect.fresh_lift_set {N : Type} {x : Outcome (Series N)} :
    Collect.fresh (Collect.lift x >>= fun p => set p) = x := by
  cases x with
  | error fault => rfl
  | ok p => rfl

variable {N : Type} [Arith N]

/-! ### Joining series -/

/-- Storing changes no number that was stored before, and no decimal constant. -/
class Arith.StoresOnce (N : Type) [Arith N] : Prop where
  stored_again {a b : N} : Arith.stored a = .ok b → Arith.stored b = .ok b
  stored_ofDecimal (d : Decimal) : Arith.stored (Arith.ofDecimal d : N) = .ok (Arith.ofDecimal d)

instance : Arith.StoresOnce Quantity where
  stored_again {a b} h := by
    cases a with
    | decimal d =>
      cases h
      rfl
    | binary x =>
      simp only [Arith.stored] at h
      split at h
      · cases h
        rfl
      · cases h
  stored_ofDecimal d := rfl

instance : Arith.StoresOnce Rat where
  stored_again {a b} _ := by simp
  stored_ofDecimal d := by simp

theorem SeriesRules.joinAll_append (k : SeriesRules N) (env : Env N) (p : Series N)
    (vs ws : List (Waveform N)) :
    k.joinAll env p (vs ++ ws) = k.joinAll env p vs >>= fun q => k.joinAll env q ws := by
  induction vs generalizing p with
  | nil =>
    rw [List.nil_append, joinAll]
    rfl
  | cons v vs ih =>
    rw [List.cons_append, joinAll, joinAll, bind_assoc]
    refine bind_congr fun q => ?_
    rw [bind_assoc]
    refine bind_congr fun e => ?_
    split
    · exact ih p
    · simp [ih]

section Stored

variable [Arith.StoresOnce N] {env : Env N} {p q : Series N} {w : Waveform N} {ws : List (Waveform N)}

namespace Series

theorem mapM_stored_again {xs ys : List N} (h : xs.mapM Arith.stored = .ok ys) :
    ys.mapM Arith.stored = .ok ys := by
  have hys : ∀ y ∈ ys, Arith.stored y = .ok (id y) := fun y hy => by
    obtain ⟨x, _, hx⟩ := exists_of_mem_forall₂ (mapM_eq_ok_iff.mp h).flip hy
    exact Arith.StoresOnce.stored_again hx
  rw [mapM_eq_ok hys, List.map_id]

/-- Storing the series again does not change it. -/
def IsStored (p : Series N) : Prop := stored p.times p.values = .ok p

theorem isStored_of_stored {times values : List N} (h : stored times values = .ok p) :
    p.IsStored := by
  simp only [stored, bind_eq_ok, return_eq_ok] at h
  obtain ⟨ts, hts, vs, hvs, rfl⟩ := h
  rw [IsStored, stored, mapM_stored_again hts, mapM_stored_again hvs]
  rfl

end Series

open Series

namespace SeriesRules

variable {k : SeriesRules N}

theorem isStored_of_ofWaveform (h : k.ofWaveform env w = .ok p) : p.IsStored := by
  obtain ⟨s, -, h⟩ := bind_eq_ok.mp h
  exact isStored_of_stored h

/-- What is joined is stored. -/
def Stores (k : SeriesRules N) : Prop := ∀ {p q r : Series N}, k.join p q = .ok r → r.IsStored

namespace Stores

variable (hk : k.Stores)

include hk

omit [Arith.StoresOnce N] in
theorem joinAll (hp : p.IsStored) (h : k.joinAll env p ws = .ok q) : q.IsStored := by
  induction ws generalizing p with
  | nil =>
    rw [SeriesRules.joinAll] at h
    cases h
    exact hp
  | cons w ws ih =>
    rw [SeriesRules.joinAll] at h
    obtain ⟨s, e, -, -, h⟩ := bind₂_eq_ok.mp h
    split at h
    · exact ih hp h
    · obtain ⟨r, hr, h⟩ := bind_eq_ok.mp h
      exact ih (hk hr) h

theorem ofWaveform_append (env : Env N) (w : Waveform N) (ws : List (Waveform N)) :
    k.ofWaveform env (.append (w :: ws)) = k.ofWaveform env w >>= fun p => k.joinAll env p ws := by
  rw [ofWaveform, ofCollected, collect, Collect.fresh_lift_set]
  change ((k.ofWaveform env w >>= fun p => k.joinAll env p ws) >>= fun p =>
    stored p.times p.values) = _
  cases h : k.ofWaveform env w >>= fun p => k.joinAll env p ws with
  | error fault => rfl
  | ok q =>
    obtain ⟨p, hp, hq⟩ := bind_eq_ok.mp h
    exact hk.joinAll (isStored_of_ofWaveform hp) hq

end Stores

end SeriesRules

theorem PiecewiseLinear.rules_stores : (rules : SeriesRules N).Stores := by
  intro p q r h
  obtain ⟨_, _, -, -, h⟩ := bind₂_eq_ok.mp h
  obtain ⟨_, _, -, -, h⟩ := bind₂_eq_ok.mp h
  simp only [throw_eq_error, error_bind, refuse_eq_ok, bind_eq_ok] at h
  obtain ⟨-, _, -, h⟩ := h
  exact isStored_of_stored h

end Stored

/-! ### Canonical forms -/

namespace Waveform

open PiecewiseLinear (ofWaveform rules_stores)

/-- Neither a join nor a sum: a waveform that is its own canonical form. -/
def isPiece : Waveform N → Bool
  | append _ | add _ _ => false
  | _ => true

/-- A join of pieces to the end of a waveform that is such a join again, or a piece. -/
inductive Stacked : Waveform N → Prop where
  | piece {w : Waveform N} : w.isPiece → Stacked w
  | join {w : Waveform N} {ws : List (Waveform N)} : Stacked w → (∀ v ∈ ws, v.isPiece) →
      Stacked (.append (w :: ws))

variable {w : Waveform N} {ws : List (Waveform N)}

theorem canon_of_isPiece (h : w.isPiece) : w.canon = .ok w := by
  cases w with
  | append ws => cases h
  | add a b => cases h
  | _ => rfl

theorem canonPieces_cons (hw : w.isPiece) (ws : List (Waveform N)) :
    canonPieces (w :: ws) = canonPieces ws >>= fun us => .ok (w :: us) := by
  rw [canonPieces, canon_of_isPiece hw]
  · rfl
  · rintro vs rfl
    cases hw

theorem canonPieces_of_isPiece (h : ∀ w ∈ ws, w.isPiece) : canonPieces ws = .ok ws := by
  induction ws with
  | nil => rfl
  | cons w ws ih =>
    obtain ⟨hw, hws⟩ := List.forall_mem_cons.mp h
    rw [canonPieces_cons hw, ih hws]
    rfl

theorem canonAll_of_isPiece (h : ∀ w ∈ ws, w.isPiece) : canonAll ws = .ok ws := by
  induction ws with
  | nil => rfl
  | cons w ws ih =>
    obtain ⟨hw, hws⟩ := List.forall_mem_cons.mp h
    rw [canonAll, canon_of_isPiece hw, ih hws]
    rfl

variable [Arith.StoresOnce N]

/-- **The canonical form of a stack** compiles to the same series. -/
theorem Stacked.exists_canon (h : Stacked w) :
    ∃ w', w.canon = .ok w' ∧ ∀ env, ofWaveform env w' = ofWaveform env w := by
  -- Taking a join apart brings out its first piece, so the induction carries that piece along.
  suffices h : (∃ w', w.canon = .ok w' ∧ ∀ env, ofWaveform env w' = ofWaveform env w) ∧
      ∀ v vs, w = .append (v :: vs) →
        ∃ v', v.canon = .ok v' ∧ ∀ env, ofWaveform env v' = ofWaveform env v from h.1
  induction h with
  | @piece w hw =>
    refine ⟨⟨w, canon_of_isPiece hw, fun _ => rfl⟩, ?_⟩
    rintro v vs rfl
    cases hw
  | @join w ws hstack hws ih =>
    refine ⟨?_, ?_⟩
    · cases hstack with
      | piece hw =>
        refine ⟨.append (w :: ws), ?_, fun _ => rfl⟩
        rw [canon, canonPieces_cons hw, canonPieces_of_isPiece hws]
        rfl
      | @join v vs _ hvs =>
        obtain ⟨v', hv', hsame⟩ := ih.2 v vs rfl
        refine ⟨.append (v' :: (vs ++ ws)), ?_, fun env => ?_⟩
        · rw [canon, canonPieces, canonAll, hv', canonAll_of_isPiece hvs,
            canonPieces_of_isPiece hws]
          rfl
        · simp only [ofWaveform] at hsame ⊢
          simp [rules_stores.ofWaveform_append, hsame, SeriesRules.joinAll_append]
    · rintro v vs heq
      obtain ⟨rfl, rfl⟩ := List.cons.inj (append.inj heq)
      exact ih.1

end Waveform

end AtomArray
