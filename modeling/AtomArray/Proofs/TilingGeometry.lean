import AtomArray.Proofs.CopySearch
import AtomArray.Proofs.RegisterSubstitution
import AtomArray.Proofs.Lasting
import Mathlib.Data.Set.Card
import Mathlib.Data.Int.Interval

/-!
Where the copies of a register lie, in exact arithmetic.

A `Grid` says how copies are laid out: the sites are moved so that the least coordinates are zero,
and a copy is moved on by multiples of the two shifts. With positive shifts the copies that fit into
an area form a rectangle of indices with a corner at the origin (`Grid.fits_iff`), and where the
shifts are the extents of the register plus a gap, sites of different copies keep that gap
(`Grid.apart`).
-/

namespace AtomArray

open List Outcome Exact Scalar

/-! ### Extents -/

/-- The least and the greatest of some numbers. -/
structure Extent (xs : List Rat) (least most : Rat) : Prop where
  min_eq : xs.min? = some least
  max_eq : xs.max? = some most

namespace Extent

variable {xs : List Rat} {least most s bound gap x y : Rat}

variable (h : Extent xs least most)

include h

theorem least_mem : least ∈ xs := (min?_eq_some_iff.mp h.min_eq).1

theorem least_le (hx : x ∈ xs) : least ≤ x :=
  (min?_eq_some_iff.mp h.min_eq).2 x hx

theorem most_mem : most ∈ xs := (max?_eq_some_iff.mp h.max_eq).1

theorem le_most (hx : x ∈ xs) : x ≤ most :=
  (max?_eq_some_iff.mp h.max_eq).2 x hx

/-- Numbers that begin at zero and are moved on stay in bounds if the first and the last do. -/
theorem moved_within :
    (∀ x ∈ xs, 0 ≤ x - least + s ∧ x - least + s ≤ bound) ↔ 0 ≤ s ∧ most - least + s ≤ bound := by
  constructor
  · intro hall
    have hfirst := (hall least h.least_mem).1
    have hlast := (hall most h.most_mem).2
    exact ⟨by linarith, hlast⟩
  · rintro ⟨hs, hbound⟩ x hx
    have hleast := h.least_le hx
    have hmost := h.le_most hx
    exact ⟨by linarith, by linarith⟩

/-- Numbers moved on by different multiples of the extent and a gap keep the gap. -/
theorem gap_le (hs : s = most - least + gap) (hpos : 0 < s)
    (hx : x ∈ xs) (hy : y ∈ xs) {i j : Int} (hij : i ≠ j) :
    gap ≤ |x - least + i * s - (y - least + j * s)| := by
  have hx₀ := h.least_le hx
  have hx₁ := h.le_most hx
  have hy₀ := h.least_le hy
  have hy₁ := h.le_most hy
  rcases lt_or_gt_of_ne hij with hlt | hlt
  · have hstep : (1 : Rat) ≤ j - i := by exact_mod_cast Int.sub_pos_of_lt hlt
    have hmoved : s ≤ (j - i) * s := le_mul_of_one_le_left hpos.le hstep
    refine le_trans ?_ (neg_le_abs _)
    linarith
  · have hstep : (1 : Rat) ≤ i - j := by exact_mod_cast Int.sub_pos_of_lt hlt
    have hmoved : s ≤ (i - j) * s := le_mul_of_one_le_left hpos.le hstep
    refine le_trans ?_ (le_abs_self _)
    linarith

end Extent

/-! ### Copies -/

/-- An area with a corner at the origin. -/
structure Area where
  width : Rat
  height : Rat

def Area.Contains (a : Area) (p : Point Rat) : Prop :=
  (0 ≤ p.1 ∧ p.1 ≤ a.width) ∧ 0 ≤ p.2 ∧ p.2 ≤ a.height

instance (a : Area) (p : Point Rat) : Decidable (a.Contains p) :=
  inferInstanceAs (Decidable ((_ ∧ _) ∧ _ ∧ _))

/-- How copies are laid out: where the least coordinates are, and by how much copies are shifted. -/
structure Grid where
  left : Rat
  bottom : Rat
  shiftX : Rat
  shiftY : Rat

namespace Grid

variable {g : Grid} {area : Area} {points : List (Point Rat)} {right top gap : Rat}
  {c d : ClusterIndex}

def siteIn (g : Grid) (c : ClusterIndex) (p : Point Rat) : Point Rat :=
  (p.1 - g.left + c.1 * g.shiftX, p.2 - g.bottom + c.2 * g.shiftY)

/-- All sites of a copy lie within the area. -/
def Fits (g : Grid) (area : Area) (points : List (Point Rat)) (c : ClusterIndex) : Prop :=
  ∀ p ∈ points, area.Contains (g.siteIn c p)

instance (g : Grid) (area : Area) (points : List (Point Rat)) :
    DecidablePred (g.Fits area points) :=
  fun c => inferInstanceAs (Decidable (∀ p ∈ points, area.Contains (g.siteIn c p)))

/-- The sites reach from the corner of the grid to `right` and `top`, and copies are shifted by that
and a gap. -/
structure Spans (g : Grid) (points : List (Point Rat)) (right top gap : Rat) : Prop where
  extentX : Extent (points.map Prod.fst) g.left right
  extentY : Extent (points.map Prod.snd) g.bottom top
  shiftX_eq : g.shiftX = right - g.left + gap
  shiftY_eq : g.shiftY = top - g.bottom + gap
  shiftX_pos : 0 < g.shiftX
  shiftY_pos : 0 < g.shiftY

variable (h : g.Spans points right top gap)

include h

/-- The copies that fit form a rectangle with a corner at the origin. -/
theorem fits_iff : g.Fits area points c ↔ (0 ≤ c.1 ∧ right - g.left + c.1 * g.shiftX ≤ area.width) ∧
      0 ≤ c.2 ∧ top - g.bottom + c.2 * g.shiftY ≤ area.height := by
  have hsplit : g.Fits area points c ↔ (∀ x ∈ points.map Prod.fst, 0 ≤ x - g.left + c.1 * g.shiftX ∧
        x - g.left + c.1 * g.shiftX ≤ area.width) ∧
      ∀ y ∈ points.map Prod.snd, 0 ≤ y - g.bottom + c.2 * g.shiftY ∧
        y - g.bottom + c.2 * g.shiftY ≤ area.height := by
    simp only [Fits, Area.Contains, siteIn, forall_mem_map]
    exact forall₂_and
  rw [hsplit, h.extentX.moved_within, h.extentY.moved_within,
    mul_nonneg_iff_of_pos_right h.shiftX_pos, mul_nonneg_iff_of_pos_right h.shiftY_pos,
    Int.cast_nonneg_iff, Int.cast_nonneg_iff]

theorem Fits.mono (hc : g.Fits area points c) (h₁ : 0 ≤ d.1)
    (h₂ : 0 ≤ d.2) (hdc₁ : d.1 ≤ c.1) (hdc₂ : d.2 ≤ c.2) : g.Fits area points d := by
  obtain ⟨⟨-, hwidth⟩, -, hheight⟩ := (fits_iff h).mp hc
  have hx : (d.1 : Rat) * g.shiftX ≤ c.1 * g.shiftX :=
    mul_le_mul_of_nonneg_right (by exact_mod_cast hdc₁) h.shiftX_pos.le
  have hy : (d.2 : Rat) * g.shiftY ≤ c.2 * g.shiftY :=
    mul_le_mul_of_nonneg_right (by exact_mod_cast hdc₂) h.shiftY_pos.le
  exact (fits_iff h).mpr ⟨⟨h₁, by linarith⟩, h₂, by linarith⟩

/-- Sites of different copies are apart by the gap in one direction at least. -/
theorem apart (hcd : c ≠ d) {p q : Point Rat} (hp : p ∈ points) (hq : q ∈ points) :
    gap ≤ |(g.siteIn c p).1 - (g.siteIn d q).1| ∨ gap ≤ |(g.siteIn c p).2 - (g.siteIn d q).2| := by
  by_cases hx : c.1 = d.1
  · have hy : c.2 ≠ d.2 := fun hy => hcd (Prod.ext hx hy)
    exact .inr (h.extentY.gap_le h.shiftY_eq h.shiftY_pos (mem_map_of_mem hp)
      (mem_map_of_mem hq) hy)
  · exact .inl (h.extentX.gap_le h.shiftX_eq h.shiftX_pos (mem_map_of_mem hp)
      (mem_map_of_mem hq) hx)

end Grid

/-! ### Extents of expressions -/

variable {env : Env Rat}

variable {rest : List (Scalar Rat)} {vs : List Rat} {first : Scalar Rat}

def Spot.point (s : Spot) : Point Rat := (s.x, s.y)

/-- A tiling lays out the given points on the given grid. -/
structure Tiling.Follows (env : Env Rat) (t : Tiling Rat) (points : List (Point Rat)) (g : Grid) :
    Prop where
  locations : t.locations.mapM (evalPoint env) = .ok points
  shiftX : t.shiftX.eval env = .ok g.shiftX
  shiftY : t.shiftY.eval env = .ok g.shiftY

/-- The area of a device, in the units of positions. -/
def Capabilities.area (c : Capabilities Rat) : Area :=
  ⟨c.lattice.width * 1000000, c.lattice.height * 1000000⟩

namespace Tiling

variable {env : Env Rat} {t : Tiling Rat} {points : List (Point Rat)} {g : Grid}
  {right top gap : Rat}

end Tiling

end AtomArray
