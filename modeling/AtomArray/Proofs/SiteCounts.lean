import AtomArray.Proofs.Targets

/-!
What a register says about its sites.

A register is a list of sites or a lattice, and is changed step by step (`Register.Built`). Its
counts are never wrong, but some are missing: a lattice that was scaled has no number of sites or
atoms, and an empty list no number of vacant sites. All other registers count their sites as
`Register.sites` lists them (`Register.Built.counts_sites_iff`).
-/

namespace AtomArray

open List Outcome

variable {N : Type} [Arith N]

namespace Lattice

theorem cast_prod_toNat {ns : List Int} (h : ∀ n ∈ ns, 0 < n) :
    ((ns.map Int.toNat).prod : Int) = ns.prod := by
  induction ns with
  | nil => rfl
  | cons n ns ih =>
    obtain ⟨hn, hns⟩ := forall_mem_cons.mp h
    rw [map_cons, prod_cons, prod_cons, Nat.cast_mul, ih hns, Int.toNat_of_nonneg hn.le]

theorem count_eq {N : Type} (l : Lattice N) (h : ∀ n ∈ l.extent, 0 < n) :
    l.count = (l.cells.length * l.basis.length : Nat) := by
  rw [count, ← prod_eq_foldl, length_cells, Nat.cast_mul, cast_prod_toNat h, mul_comm]

end Lattice

namespace Register

variable {r r' : Register N} {ss : List (Site N)} {l : Lattice N} {spacing : Scalar N}

theorem filled_latticeSites (h : latticeSites l spacing = .ok ss) : ∀ s ∈ ss, s.filled := by
  simp only [latticeSites, bind_eq_ok, return_eq_ok] at h
  obtain ⟨cells, hcells, rfl⟩ := h
  intro s hs
  obtain ⟨cell, hcell, hs⟩ := mem_flatten.mp hs
  obtain ⟨index, -, hindex⟩ := exists_of_mem_forall₂ (mapM_eq_ok_iff.mp hcells).flip hcell
  obtain ⟨positions, -, hsites⟩ := bind_eq_ok.mp hindex
  obtain ⟨p, -, hp⟩ := exists_of_mem_forall₂ (mapM_eq_ok_iff.mp hsites).flip hs
  obtain ⟨x, y, -, -, rfl⟩ := both_eq_ok.mp hp
  rfl

/-- One change of a register. -/
inductive Change (r : Register N) : Register N → Prop where
  | scale {r' : Register N} (factor : Scalar N) : r.scale factor = .ok r' → Change r r'
  | addSites {r' : Register N} (extra : List (Site N)) : r.addSites extra = .ok r' → Change r r'
  | defectCount {r' : Register N} (n : Int) (draw : List Nat → Int → Outcome Nat)
      (draws : List Int) : r.defectCount n draw draws = .ok r' → Change r r'
  | defectDensity {r' : Register N} (p : Float) (draws : List Float) :
      r.defectDensity p draws = .ok r' → Change r r'
  | removeVacant {r' : Register N} : r.removeVacant = .ok r' → Change r r'

/-- The registers that are laid out as a list or as a lattice of positive extents, and changed any
number of times. -/
inductive Built : Register N → Prop where
  | list (ss : List (Site N)) : Built (.list ss)
  | lattice (l : Lattice N) (spacing : Scalar N) : (∀ n ∈ l.extent, 0 < n) →
      Built (ofLattice l spacing)
  | change {r r' : Register N} : Built r → Change r r' → Built r'

/-- The extents of a lattice are positive; a list has none. -/
def IsPositive : Register N → Prop
  | list _ => True
  | lattice l _ _ => ∀ n ∈ l.extent, 0 < n

theorem Change.isPositive (h : Change r r') (hr : r.IsPositive) : r'.IsPositive := by
  cases h with
  | scale factor h =>
    cases r with
    | list ss =>
      obtain ⟨_, -, hlist⟩ := bind_eq_ok.mp h
      cases hlist
      trivial
    | lattice l spacing scaled =>
      obtain ⟨_, -, hlattice⟩ := bind_eq_ok.mp h
      cases hlattice
      exact hr
  | addSites _ h | removeVacant h =>
    obtain ⟨_, -, hlist⟩ := bind_eq_ok.mp h
    cases hlist
    trivial
  | defectDensity _ _ h =>
    obtain ⟨_, -, h⟩ := bind_eq_ok.mp h
    obtain ⟨_, -, hlist⟩ := bind_eq_ok.mp h
    cases hlist
    trivial
  | defectCount n draw draws h =>
    obtain ⟨_, -, h⟩ := bind_eq_ok.mp h
    obtain ⟨_, -, hlist⟩ := bind_eq_ok.mp (refuse_eq_ok.mp h).2
    cases hlist
    trivial

theorem Built.isPositive (h : Built r) : r.IsPositive := by
  induction h with
  | list ss => trivial
  | lattice l spacing hpos => exact hpos
  | change _ hchange ih => exact hchange.isPositive ih

/-- **Counts are truthful where there are any.** Each count of a register is that of its sites, and
all of them exist unless the register is an empty list or a scaled lattice. -/
theorem Built.counts_sites_iff (h : Built r) (hsites : r.sites = .ok ss) :
    (∀ n, r.siteCount = .ok n → n = ss.length) ∧
    (∀ n, r.atomCount = .ok n → n = ss.countP (·.filled)) ∧
    (∀ n, r.vacantCount = .ok n → n = ss.length - ss.countP (·.filled)) ∧
    ((∃ m n k, r.siteCount = .ok m ∧ r.atomCount = .ok n ∧ r.vacantCount = .ok k) ↔
      r ≠ .list [] ∧ ∀ l spacing, r ≠ .lattice l spacing true) := by
  have hpos := h.isPositive
  cases r with
  | list ss' =>
    cases hsites
    have hvacant : ss.length = ss.countP (·.filled) + ss.countP fun s => !s.filled := by
      simpa using length_eq_countP_add_countP (fun s : Site N => s.filled)
    cases ss with
    | nil => simp [siteCount, atomCount, vacantCount]
    | cons s ss =>
      rw [length_cons] at hvacant
      simp [siteCount, atomCount, vacantCount]
      omega
  | lattice l spacing scaled =>
    have hcount : l.count = ss.length := by rw [l.count_eq hpos, length_latticeSites hsites]
    have hall : ss.countP (·.filled) = ss.length :=
      countP_eq_length.mpr (filled_latticeSites hsites)
    cases scaled <;> simp [siteCount, atomCount, vacantCount, hcount, hall]

/-- A chain of two sites, twice as wide as it was laid out. -/
def wideChain : Register Rat := .lattice (.chain 2 false) (.lit 2) true

theorem built_wideChain : Built wideChain := by
  have hchain : Built (ofLattice (.chain 2 false) (.lit (1 : Rat))) := .lattice _ _ (by decide)
  exact hchain.change (.scale (.lit 2) (by with_unfolding_all rfl))

def besideChain : List (Site Rat) :=
  [⟨.lit 0, .lit 0, true⟩, ⟨.lit 2, .lit 0, true⟩, ⟨.var "x", .lit 1, false⟩]

theorem besideChain_counts : (Register.list besideChain).siteCount = .ok 3 ∧
    (Register.list besideChain).atomCount = .ok 2 ∧
    (Register.list besideChain).vacantCount = .ok 1 := by
  have hbeside : Change wideChain (.list besideChain) :=
    .addSites [⟨.var "x", .lit 1, false⟩] (by with_unfolding_all rfl)
  obtain ⟨hsites, hatoms, hvacant, hall⟩ :=
    (built_wideChain.change hbeside).counts_sites_iff rfl
  obtain ⟨m, n, k, hm, hn, hk⟩ := hall.mpr ⟨by simp [besideChain], by simp⟩
  rw [hm, hn, hk, hsites m hm, hatoms n hn, hvacant k hk]
  exact ⟨rfl, rfl, rfl⟩

theorem missing_counts :
    (Built wideChain ∧ wideChain.siteCount = .error .part ∧ wideChain.atomCount = .error .part) ∧
      Built (.list ([] : List (Site Rat))) ∧
        (Register.list ([] : List (Site Rat))).vacantCount = .error .part :=
  ⟨⟨built_wideChain, rfl, rfl⟩, .list [], rfl⟩

end Register

end AtomArray
