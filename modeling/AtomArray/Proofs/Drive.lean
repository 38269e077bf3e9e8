import AtomArray.Drive.Field
import AtomArray.Proofs.Lookup
import AtomArray.Proofs.WaveformSum
import Mathlib.Data.List.Perm.Subperm

/-!
What a field drives.

`Modulation.coefficient env k` is how strongly a modulation acts on the site `k`, and
`Field.driveAt env given k t` adds coefficient times waveform over the drives of a field. Merging the
scales of chosen locations adds their values at every location (`Scales.merge_keeps`), and scales
that compare as equal are equal at every location (`Scales.scaleAt_of_same`).
-/

namespace AtomArray

open List Scalar

/-! ### Coefficients -/

namespace Scales

variable {env : Env Rat} {a b s : Scales Rat} {k j : Int} {e : Scalar Rat} {x y : Rat}

/-- The scale of a location; a location that has none is not acted on. -/
def scaleAt (env : Env Rat) (k : Int) (s : Scales Rat) : Outcome Rat :=
  match s.lookup k with
  | some e => e.eval env
  | none => .ok 0

/-- Scales as a field keeps them: no location has two, and each has a value. -/
structure Valued (env : Env Rat) (s : Scales Rat) : Prop where
  nodup : (s.map Prod.fst).Nodup
  value : ∀ p ∈ s, ∃ x, p.2.eval env = .ok x

theorem Valued.nil : Valued env [] := ⟨nodup_nil, by simp⟩

theorem scaleAt_cons :
    scaleAt env k ((j, e) :: s) = if k = j then e.eval env else scaleAt env k s := by
  by_cases h : k = j
  · subst h
    simp [scaleAt]
  · have hkj : (k == j) = false := by simpa using h
    simp [scaleAt, lookup_cons, h, hkj]

theorem scaleAt_of_notMem (h : k ∉ s.map Prod.fst) : scaleAt env k s = .ok 0 := by
  simp only [scaleAt, lookup_eq_none.mpr h]

theorem scaleAt_insert :
    scaleAt env k (insert j e s) = if k = j then e.eval env else scaleAt env k s := by
  induction s with
  | nil => rw [insert, scaleAt_cons]
  | cons p s ih =>
    obtain ⟨i, d⟩ := p
    by_cases hij : i = j
    · subst hij
      rw [insert, if_pos rfl, scaleAt_cons, scaleAt_cons]
      split <;> rfl
    · rw [insert, if_neg hij, scaleAt_cons, scaleAt_cons, ih]
      by_cases hki : k = i
      · subst hki
        rw [if_pos rfl, if_neg hij, if_pos rfl]
      · rw [if_neg hki, if_neg hki]

theorem mem_keys_insert : k ∈ (insert j e s).map Prod.fst ↔ k = j ∨ k ∈ s.map Prod.fst := by
  induction s with
  | nil => simp [insert]
  | cons p s ih =>
    obtain ⟨i, d⟩ := p
    by_cases hij : i = j
    · simp [insert, hij]
    · simp only [insert, if_neg hij, map_cons, mem_cons, ih]
      tauto

theorem Valued.insert (hs : Valued env s) (he : e.eval env = .ok x) :
    Valued env (Scales.insert j e s) := by
  induction s with
  | nil => exact ⟨by simp [Scales.insert], by simp [Scales.insert, he]⟩
  | cons p s ih =>
    obtain ⟨i, d⟩ := p
    obtain ⟨hnodup, hvalue⟩ := hs
    rw [map_cons, nodup_cons] at hnodup
    obtain ⟨hd, hrest⟩ := forall_mem_cons.mp hvalue
    by_cases hij : i = j
    · subst hij
      rw [Scales.insert, if_pos rfl]
      exact ⟨nodup_cons.mpr hnodup, forall_mem_cons.mpr ⟨⟨x, he⟩, hrest⟩⟩
    · obtain ⟨hnodup', hvalue'⟩ := ih ⟨hnodup.2, hrest⟩
      rw [Scales.insert, if_neg hij]
      refine ⟨nodup_cons.mpr ⟨?_, hnodup'⟩, forall_mem_cons.mpr ⟨hd, hvalue'⟩⟩
      rw [mem_keys_insert]
      rintro (h | h)
      · exact hij h
      · exact hnodup.1 h

/-- One step of a merge: a location gets the sum of the scale it has and another one. -/
theorem merge_cons (ha : Valued env a) (he : e.eval env = .ok y) :
    ∃ sum x, a.merge ((j, e) :: s) = (insert j sum a).merge s ∧
      scaleAt env j a = .ok x ∧ sum.eval env = .ok (x + y) := by
  rw [merge]
  cases hlookup : a.lookup j with
  | none =>
    have hzero : (const 0).eval env = .ok (0 : Rat) := by simp [const, eval]
    obtain ⟨sum, hsum, hval⟩ := plus_keeps hzero he
    exact ⟨sum, 0, by simp only [hsum, Outcome.ok_bind], by simp [scaleAt, hlookup], hval⟩
  | some d =>
    obtain ⟨x, hx⟩ := ha.value _ (mem_of_lookup hlookup)
    obtain ⟨sum, hsum, hval⟩ := plus_keeps hx he
    exact ⟨sum, x, by simp only [hsum, Outcome.ok_bind], by simpa [scaleAt, hlookup] using hx, hval⟩

/-- **Merged scales add up** at every location. -/
theorem merge_keeps (ha : Valued env a) (hs : Valued env s) :
    ∃ a', a.merge s = .ok a' ∧ Valued env a' ∧ ∀ k x y, scaleAt env k a = .ok x →
      scaleAt env k s = .ok y → scaleAt env k a' = .ok (x + y) := by
  induction s generalizing a with
  | nil =>
    refine ⟨a, by rw [merge], ha, fun k x y hx hy => ?_⟩
    obtain rfl : 0 = y := by simpa [scaleAt] using hy
    rwa [add_zero]
  | cons p s ih =>
    obtain ⟨j, e⟩ := p
    obtain ⟨hnodup, hvalue⟩ := hs
    rw [map_cons, nodup_cons] at hnodup
    obtain ⟨⟨ye, he⟩, hrest⟩ := forall_mem_cons.mp hvalue
    obtain ⟨sum, xj, hstep, hxj, hval⟩ := merge_cons (s := s) (j := j) ha he
    obtain ⟨a', ha', hvalued, hadds⟩ := ih (ha.insert hval) ⟨hnodup.2, hrest⟩
    refine ⟨a', hstep.trans ha', hvalued, fun k x y hx hy => ?_⟩
    rw [scaleAt_cons] at hy
    by_cases hkj : k = j
    · subst hkj
      rw [if_pos rfl] at hy
      obtain rfl : ye = y := by simpa [he] using hy
      obtain rfl : xj = x := by simpa [hxj] using hx
      have hsum : scaleAt env k (insert k sum a) = .ok (xj + ye) := by
        rwa [scaleAt_insert, if_pos rfl]
      -- The location does not occur again, so the rest of the merge leaves it alone.
      simpa using hadds k (xj + ye) 0 hsum (scaleAt_of_notMem hnodup.1)
    · rw [if_neg hkj] at hy
      exact hadds k x y (by rwa [scaleAt_insert, if_neg hkj]) hy

theorem foldlM_merge_keeps {ss : List (Scales Rat)} (ha : Valued env a)
    (hss : ∀ s ∈ ss, Valued env s) :
    ∃ a', ss.foldlM merge a = .ok a' ∧ Valued env a' ∧ ∀ k x y, scaleAt env k a = .ok x →
      sumOf (scaleAt env k) ss = .ok y → scaleAt env k a' = .ok (x + y) := by
  induction ss generalizing a with
  | nil =>
    refine ⟨a, rfl, ha, fun k x y hx hy => ?_⟩
    rwa [sumOf_nil.mp hy, add_zero]
  | cons s ss ih =>
    obtain ⟨hs, hrest⟩ := forall_mem_cons.mp hss
    obtain ⟨b, hb, hvb, haddb⟩ := merge_keeps ha hs
    obtain ⟨a', ha', hva, hadda⟩ := ih hvb hrest
    refine ⟨a', by rw [foldlM_cons, hb]; exact ha', hva, fun k x y hx hy => ?_⟩
    obtain ⟨p, q, hp, hq, rfl⟩ := sumOf_cons.mp hy
    rw [← add_assoc]
    exact hadda k _ _ (haddb k x p hx hp) hq

theorem scaleAt_of_same (ha : (a.map Prod.fst).Nodup) (h : a.same b)
    (hx : scaleAt env k a = .ok x) : scaleAt env k b = .ok x := by
  simp only [same, Bool.and_eq_true, beq_iff_eq, all_eq_true] at h
  obtain ⟨hlength, hall⟩ := h
  have hfound : ∀ p ∈ a, ∃ d, b.lookup p.1 = some d ∧ p.2.same d := by
    intro p hp
    have := hall p hp
    split at this
    · exact ⟨_, ‹_›, this⟩
    · cases this
  cases hlookup : a.lookup k with
  | some e =>
    obtain ⟨d, hd, hsame⟩ := hfound _ (mem_of_lookup hlookup)
    simp only [scaleAt, hlookup, hd] at hx ⊢
    exact (alike_of_same _ _ hsame x).mp hx
  | none =>
    -- No location of `b` is left over: both have as many, and `b` has all of `a`.
    have hsub : a.map Prod.fst ⊆ b.map Prod.fst := by
      intro j hj
      obtain ⟨p, hp, rfl⟩ := mem_map.mp hj
      obtain ⟨d, hd, -⟩ := hfound p hp
      exact mem_map.mpr ⟨_, mem_of_lookup hd, rfl⟩
    have hperm : (a.map Prod.fst).Perm (b.map Prod.fst) :=
      (subperm_of_subset ha hsub).perm_of_length_le (by simp [hlength])
    have hk : k ∉ b.map Prod.fst := fun hk => lookup_eq_none.mp hlookup (hperm.mem_iff.mpr hk)
    rw [scaleAt_of_notMem hk]
    simpa [scaleAt, hlookup] using hx

end Scales

namespace Modulation

variable {env : Env Rat} {m m' : Modulation Rat} {ms : List (Modulation Rat)} {k : Nat} {c x : Rat}

/-- How strongly a modulation acts on a site. -/
def coefficient (env : Env Rat) (k : Nat) : Modulation Rat → Outcome Rat
  | uniform => .ok 1
  | vector name =>
    match (env.lookup name).bind Param.items? with
    | some xs => do (← item? xs k).number?
    | none => .error (.plain .missingKey)
  | boundVector _ values => item? values k
  | scaled scales => scales.scaleAt env k

/-- The scales of a modulation are as a field keeps them. -/
def Valued (env : Env Rat) (m : Modulation Rat) : Prop := ∀ s, m.scales? = some s → s.Valued env

theorem coefficient_of_same (hm : m.Valued env) (h : m.same m')
    (hx : m.coefficient env k = .ok x) : m'.coefficient env k = .ok x := by
  cases m <;> cases m' <;> simp [same] at h
  case uniform.uniform => exact hx
  case vector.vector =>
    obtain rfl := h
    exact hx
  case boundVector.boundVector =>
    obtain rfl := Waveform.eq_of_sameList (fun x _ y hxy => by simpa using hxy) h.2
    exact hx
  case scaled.scaled s _ => exact Scales.scaleAt_of_same (hm s rfl).nodup h hx

end Modulation

/-! ### Drives -/

/-- What a drive contributes at a site and a time. Coefficients are read with the values `env`,
waveforms with the values `given`. -/
def driveValue (env given : Env Rat) (k : Nat) (t : Rat) (d : Modulation Rat × Waveform Rat) :
    Outcome Rat := do
  return (← d.1.coefficient env k) * (← d.2.eval given t)

def Field.driveAt (env given : Env Rat) (k : Nat) (t : Rat) (f : Field Rat) : Outcome Rat :=
  sumOf (driveValue env given k t) f.drives

theorem driveValue_eq_ok {env given : Env Rat} {k : Nat} {t v : Rat} {m : Modulation Rat}
    {w : Waveform Rat} :
    driveValue env given k t (m, w) = .ok v ↔
      ∃ c x, m.coefficient env k = .ok c ∧ w.eval given t = .ok x ∧ v = c * x :=
  Outcome.both_eq_ok

end AtomArray
