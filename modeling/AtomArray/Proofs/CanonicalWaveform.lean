import AtomArray.Proofs.WaveformSum

/-!
Canonical forms of waveforms, and joining what is canonical.

A sum with itself becomes a double that may have no value with decimals and binary numbers.
Waveforms that are canonical and joined on one level only (`Waveform.Normal`) can be joined in any
order of steps.
-/

namespace AtomArray

open List Outcome

namespace Waveform

/-! ### The course of a canonical form -/

/-- **The canonical form has the course of the waveform**: it takes the same time, and after the
start it has every value that the waveform has, also past the end. -/
theorem canon_same_course {env : Env Rat} {w : Waveform Rat} (h : Lasting env w) :
    ∃ u d, w.canon = .ok u ∧ 0 ≤ d ∧ w.length env = .ok d ∧ u.length env = .ok d ∧
      ∀ t > 0, ∀ v, w.eval env t = .ok v → u.eval env t = .ok v := by
  obtain ⟨u, hu, hfollows⟩ := h.canonFollows
  obtain ⟨d, hd0, hd⟩ := h.exists_length
  exact ⟨u, d, hu, hd0, hd, hfollows.length d hd, hfollows.value⟩

/-- What takes no time and a join with a join in it, added, and the pieces of that join once more. -/
def twiceOver : Waveform Rat :=
  .add (.add (.constant (.lit 7) (.lit 0))
      (.append [.append [.constant (.var "a") (.lit 1)], .record (.linear (.lit 0) (.lit 1) (.lit 2)) "x"]))
    (.append [.constant (.var "a") (.lit 1), .record (.linear (.lit 0) (.lit 1) (.lit 2)) "x"])

theorem twiceOver_same_course : Lasting [("a", .number 3)] twiceOver ∧
    ∃ u d, twiceOver.canon = .ok u ∧ 0 ≤ d ∧ u.length [("a", .number 3)] = .ok d ∧
      u.eval [("a", .number 3)] (1 / 2) = .ok 6 ∧ u.eval [("a", .number 3)] 2 = .ok 1 ∧
      u.eval [("a", .number 3)] 5 = .ok 0 := by
  have hlast : Lasting [("a", .number 3)] twiceOver := by
    have hconst : Lasting [("a", .number 3)] (.constant (.var "a") (.lit 1)) :=
      .constant rfl zero_le_one
    have hramp : ∀ p ∈ [Waveform.record (.linear (.lit 0) (.lit 1) (.lit 2)) "x"],
        Lasting [("a", .number 3)] p := forall_mem_singleton.mpr (.record (.linear rfl zero_le_two))
    exact .add (.add (.constant rfl le_rfl) (.append (forall_mem_cons.mpr
      ⟨.append (forall_mem_singleton.mpr hconst), hramp⟩)))
      (.append (forall_mem_cons.mpr ⟨hconst, hramp⟩))
  obtain ⟨u, d, hu, hd, -, hlen, hvalue⟩ := canon_same_course hlast
  exact ⟨hlast, u, d, hu, hd, hlen, hvalue _ (by norm_num) _ (by with_unfolding_all rfl),
    hvalue _ (by norm_num) _ (by with_unfolding_all rfl),
    hvalue _ (by norm_num) _ (by with_unfolding_all rfl)⟩

/-- A recorded one and itself have a sum, but its canonical form has no value: twice a binary number
would have to be taken. -/
theorem doubled_record_fails :
    let w : Waveform Quantity := .record (.constant (.const 1) (.const 1)) "x"
    (w.add w).eval [] (.decimal 1) = .ok (.binary (Binary.ofDecimal 1 + Binary.ofDecimal 1)) ∧
      (w.add w).canon = .ok (.scale (.const 2) w) ∧
      (Waveform.scale (.const 2) w).eval [] (.decimal 1) = .error .type := by
  refine ⟨by with_unfolding_all rfl, ?_, by with_unfolding_all rfl⟩
  have hone : Arith.same (.decimal 1 : Quantity) (.decimal 1) = true := by with_unfolding_all rfl
  simp [canon, same, Scalar.same, Scalar.const, Arith.ofDecimal, hone]

/-! ### Joining -/

section

variable {N : Type} [Arith N] {a b c w : Waveform N} {ws : List (Waveform N)}

/-- A waveform that is its own canonical form, and no join of joins. -/
def Normal (w : Waveform N) : Prop :=
  w.canon = .ok w ∧ ∀ vs, w = append vs → ∀ v ∈ vs, ∀ us, v ≠ append us

/-- What a piece is in a normal waveform. -/
def IsPiece (w : Waveform N) : Prop := w.canon = .ok w ∧ ∀ us, w ≠ append us

omit [Arith N] in
theorem pieces_eq_singleton (h : ∀ us, w ≠ append us) : w.pieces = [w] := by
  refine (pieces_cases w).resolve_left ?_
  rintro ⟨us, hus⟩
  exact h us hus

omit [Arith N] in
theorem flatMap_pieces (h : ∀ w ∈ ws, ∀ us, w ≠ append us) : ws.flatMap pieces = ws := by
  rw [flatMap_congr fun w hw => pieces_eq_singleton (h w hw), flatMap_singleton']

/-- The canonical form of a join has the pieces in a row. -/
theorem canon_append (h : ∀ p ∈ ws.flatMap pieces, p.IsPiece) :
    (append ws).canon = .ok (append (ws.flatMap pieces)) := by
  have hall : (ws.flatMap pieces).mapM canon = .ok (ws.flatMap pieces) :=
    mapM_eq_ok_iff.mpr (forall₂_same.mpr fun p hp => (h p hp).1)
  rw [canon, canonPieces_eq_canonAll, canonAll_eq_mapM, hall]
  rfl

theorem Normal.isPiece (h : w.Normal) : ∀ p ∈ w.pieces, p.IsPiece := by
  by_cases hw : ∃ vs, w = append vs
  · obtain ⟨vs, rfl⟩ := hw
    have hcanon := h.1
    rw [canon, canonPieces_eq_canonAll, canonAll_eq_mapM, flatMap_pieces (h.2 vs rfl)] at hcanon
    obtain ⟨us, hus, heq⟩ := bind_eq_ok.mp hcanon
    cases heq
    exact fun v hv => ⟨forall₂_same.mp (mapM_eq_ok_iff.mp hus) v hv, h.2 vs rfl v hv⟩
  · rw [not_exists] at hw
    rw [pieces_eq_singleton hw, forall_mem_singleton]
    exact ⟨h.1, hw⟩

theorem normal_append (h : ∀ p ∈ ws, p.IsPiece) : (append ws).Normal := by
  have hflat : ws.flatMap pieces = ws := flatMap_pieces fun p hp => (h p hp).2
  refine ⟨?_, ?_⟩
  · rw [canon_append (by rwa [hflat]), hflat]
  · rintro vs ⟨⟩ v hv
    exact (h v hv).2

theorem Normal.join (ha : a.Normal) (hb : b.Normal) :
    a.join b = .ok (append (a.pieces ++ b.pieces)) ∧ (append (a.pieces ++ b.pieces)).Normal := by
  have hpieces : ∀ p ∈ a.pieces ++ b.pieces, p.IsPiece :=
    forall_mem_append.mpr ⟨ha.isPiece, hb.isPiece⟩
  have hrow : [a, b].flatMap pieces = a.pieces ++ b.pieces := by simp
  refine ⟨?_, normal_append hpieces⟩
  rw [Waveform.join, canon_append (by rwa [hrow]), hrow]

/-- **Joining is associative**, and keeps to normal waveforms: the pieces stand in a row. -/
theorem join_assoc (ha : a.Normal) (hb : b.Normal) (hc : c.Normal) :
    ∃ ab bc, a.join b = .ok ab ∧ ab.Normal ∧ b.join c = .ok bc ∧ ab.join c = a.join bc ∧
      a.join bc = .ok (append (a.pieces ++ b.pieces ++ c.pieces)) := by
  obtain ⟨hab, habn⟩ := ha.join hb
  obtain ⟨hbc, hbcn⟩ := hb.join hc
  have hleft := (habn.join hc).1
  have hright := (ha.join hbcn).1
  refine ⟨_, _, hab, habn, hbc, ?_, ?_⟩
  · rw [hleft, hright]
    simp [pieces]
  · rw [hright]
    simp [pieces]

theorem join_assoc_ramps :
    let rise : Waveform Rat := .append [.constant (.lit 1) (.lit 1), .linear (.lit 1) (.lit 2) (.lit 1)]
    let hold : Waveform Rat := .record (.constant (.lit 2) (.lit 1)) "x"
    let sum : Waveform Rat := .add (.linear (.var "x") (.lit 0) (.lit 1)) (.constant (.lit 1) (.lit 2))
    ∃ ab bc, rise.join hold = .ok ab ∧ ab.Normal ∧ hold.join (.append [sum]) = .ok bc ∧
      ab.join (.append [sum]) = rise.join bc ∧
      rise.join bc = .ok (.append [.constant (.lit 1) (.lit 1),
        .linear (.lit 1) (.lit 2) (.lit 1), hold, sum]) := by
  intro rise hold sum
  have hrise : rise.Normal := normal_append (by simp [IsPiece, canon])
  have hhold : hold.Normal := ⟨rfl, by simp [hold]⟩
  have hsum : sum.IsPiece := by
    refine ⟨?_, by simp [sum]⟩
    have hzero : (Scalar.const 0 : Scalar Rat) = .lit 0 := congrArg _ Exact.zero_eq
    simp [sum, canon, same, duration, Scalar.same, hzero]
  exact join_assoc hrise hhold (normal_append (forall_mem_singleton.mpr hsum))

end

end Waveform

end AtomArray
