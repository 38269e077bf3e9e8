import AtomArray.Proofs.Substitution
import AtomArray.Register.Basic

/-!
Binding parameters in registers, in exact arithmetic.

`Register.spots env r` are the places of the sites of `r`, with their fillings, for the parameters in
`env`. In a lattice whose vectors are numbers they are the multiples of one layout by the spacing
(`Register.spots_lattice`).

Binding keeps the spots of a list of sites and of every lattice that lies in the plane. A chain that
stands upright is laid down, and a rectangular lattice has no result (`Register.assign_spots`).
-/

namespace AtomArray

open List Outcome Scalar

/-- The place of a site and its filling. -/
structure Spot where
  x : Rat
  y : Rat
  filled : Bool
  deriving DecidableEq

namespace Spot

/-- The place with its coordinates exchanged. -/
def turned (p : Spot) : Spot := ⟨p.y, p.x, p.filled⟩

/-- The filled spot of a lattice with the given spacing, at a place of the layout. -/
def ofLayout (spacing : Rat) (q : Rat × Rat) : Spot := ⟨spacing * q.1, spacing * q.2, true⟩

theorem turned_ofLayout (v : Rat) (q : Rat × Rat) : (ofLayout v q).turned = ofLayout v q.swap := rfl

end Spot

variable (env : Env Rat)

def Site.spot (s : Site Rat) : Outcome Spot := do
  return ⟨← s.x.eval env, ← s.y.eval env, s.filled⟩

theorem Site.spot_eq_ok {env : Env Rat} {s : Site Rat} {p : Spot} : s.spot env = .ok p ↔
      s.x.eval env = .ok p.x ∧ s.y.eval env = .ok p.y ∧ s.filled = p.filled := by
  simp only [spot, bind_eq_ok, return_eq_ok]
  constructor
  · rintro ⟨x, hx, y, hy, rfl⟩
    exact ⟨hx, hy, rfl⟩
  · rintro ⟨hx, hy, hfilled⟩
    exact ⟨p.x, hx, p.y, hy, by rw [hfilled]⟩

def Register.spots (r : Register Rat) : Outcome (List Spot) := do
  (← r.sites).mapM (Site.spot env)

/-! ### Coordinates that are numbers -/

variable {index : List Int}

section Numbers

variable {N : Type}

def Coordinate.isNumber : Coordinate N → Bool
  | whole _ | real _ => true
  | expr _ => false

namespace Lattice

/-- A vector between cells or inside one, both coordinates of which are numbers. -/
def isNumeric (c : Coordinate N × Coordinate N) : Bool := c.1.isNumber && c.2.isNumber

variable {c : Coordinate N × Coordinate N}

theorem isNumeric_iff : isNumeric c ↔ c.1.isNumber ∧ c.2.isNumber :=
  Bool.and_eq_true_iff

def isRectangular : Lattice N → Bool
  | rectangular .. => true
  | _ => false

theorem exists_matched {vs : List (Coordinate N × Coordinate N)}
    (h : vs.length = index.length) : ∃ ps, matched vs index = .ok ps ∧ ∀ p ∈ ps, p.1 ∈ vs := by
  fun_cases matched vs index with
  | case1 v => exact ⟨_, rfl, by simp⟩
  | case2 i =>
    refine ⟨_, rfl, fun p hp => ?_⟩
    obtain ⟨v, hv, rfl⟩ := mem_map.mp hp
    exact hv
  | case3 => exact ⟨_, rfl, fun p hp => (of_mem_zip hp).1⟩
  | case4 _ _ _ _ hne => exact absurd h hne

variable {l : Lattice N}

theorem length_of_mem_cells (h : index ∈ l.cells) : index.length = l.extent.length := by
  rw [cells] at h
  generalize l.extent = ns at h ⊢
  induction ns generalizing index with
  | nil =>
    obtain rfl := mem_singleton.mp h
    rfl
  | cons n ns ih =>
    obtain ⟨i, -, h⟩ := mem_flatMap.mp h
    obtain ⟨rest, hrest, rfl⟩ := mem_map.mp h
    rw [length_cons, ih hrest, length_cons]

/-- The vectors between cells and the places inside one are numbers, but in a rectangular lattice. -/
theorem isNumeric_of_mem (hl : l.isRectangular = false)
    (hc : c ∈ l.vectors ++ l.basis) : isNumeric c := by
  have hall : (l.vectors ++ l.basis).all isNumeric := by
    cases l with
    | rectangular w h r => cases hl
    | chain n up => cases up <;> rfl
    | _ => rfl
  exact all_eq_true.mp hall c hc

theorem length_vectors (l : Lattice N) : l.vectors.length = l.extent.length := by
  cases l with
  | chain n up => cases up <;> rfl
  | _ => rfl

variable [Arith N] {l : Lattice N}

theorem exists_repeated {c : Coordinate N} (hc : c.isNumber) (i : Int) :
    ∃ d, repeated i c = .ok d ∧ d.isNumber := by
  cases c with
  | whole | real => exact ⟨_, rfl, rfl⟩
  | expr e => cases hc

theorem exists_sum {a b : Coordinate N} (ha : a.isNumber) (hb : b.isNumber) :
    ∃ c, sum a b = .ok c ∧ c.isNumber := by
  cases a with
  | expr e => cases ha
  | whole | real =>
    cases b with
    | expr e => cases hb
    | whole | real => exact ⟨_, rfl, rfl⟩

theorem exists_shift {a b : Coordinate N × Coordinate N} (ha : isNumeric a)
    (hb : isNumeric b) : ∃ c, shift a b = .ok c ∧ isNumeric c := by
  rw [isNumeric_iff] at ha hb
  obtain ⟨x, hx, hxn⟩ := exists_sum ha.1 hb.1
  obtain ⟨y, hy, hyn⟩ := exists_sum ha.2 hb.2
  exact ⟨(x, y), by simp [shift, hx, hy], isNumeric_iff.mpr ⟨hxn, hyn⟩⟩

theorem exists_foldlM_shift {ts : List (Coordinate N × Coordinate N)}
    {a : Coordinate N × Coordinate N} (ha : isNumeric a)
    (hts : ∀ t ∈ ts, isNumeric t) : ∃ c, ts.foldlM shift a = .ok c ∧ isNumeric c := by
  induction ts generalizing a with
  | nil => exact ⟨a, rfl, ha⟩
  | cons t ts ih =>
    obtain ⟨ht, hts⟩ := forall_mem_cons.mp hts
    obtain ⟨b, hb, hbn⟩ := exists_shift ha ht
    obtain ⟨c, hc, hcn⟩ := ih hbn hts
    exact ⟨c, by rw [foldlM_cons, hb, ok_bind, hc], hcn⟩

/-- With numbers for vectors, every cell has its sites at numbers. -/
theorem exists_coordinates (hl : l.isRectangular = false) (hindex : index ∈ l.cells) :
    ∃ cs, l.coordinates index = .ok cs ∧ ∀ c ∈ cs, isNumeric c := by
  obtain ⟨ps, hps, hmem⟩ :=
    exists_matched ((length_vectors l).trans (length_of_mem_cells hindex).symm)
  have hterm : ∀ p ∈ ps, ∃ t, (do return (← repeated p.2 p.1.1, ← repeated p.2 p.1.2)) = .ok t ∧
      isNumeric t := fun p hp => by
    have hp := isNumeric_iff.mp (isNumeric_of_mem hl (mem_append_left _ (hmem p hp)))
    obtain ⟨x, hx, hxn⟩ := exists_repeated hp.1 p.2
    obtain ⟨y, hy, hyn⟩ := exists_repeated hp.2 p.2
    exact ⟨(x, y), by simp [hx, hy], isNumeric_iff.mpr ⟨hxn, hyn⟩⟩
  obtain ⟨ts, hts, htn⟩ := exists_mapM_forall hterm
  have hcell : ∀ origin, isNumeric origin → ∃ cs, l.basis.mapM (shift origin) = .ok cs ∧
      ∀ c ∈ cs, isNumeric c := fun origin ho =>
    exists_mapM_forall fun b hb =>
      exists_shift ho (isNumeric_of_mem hl (mem_append_right _ hb))
  rw [coordinates, hps, ok_bind, hts, ok_bind]
  cases ts with
  | nil => exact hcell _ rfl
  | cons t ts =>
    obtain ⟨ht, htn⟩ := forall_mem_cons.mp htn
    obtain ⟨origin, horigin, ho⟩ := exists_foldlM_shift ht htn
    simpa [horigin] using hcell origin ho

theorem coordinates_chain (n : Int) (up : Bool) (i : Int) :
    (chain n up : Lattice N).coordinates [i] =
      .ok [if up then (.whole 0, .whole i) else (.whole i, .whole 0)] := by
  cases up <;> simp [coordinates, matched, vectors, basis, repeated, shift, sum]

end Lattice

end Numbers

/-! ### Layouts -/

/-- Where two steps at the items of a list give results that can be read as the same, so do the two
lists of results. -/
theorem exists_mapM_agree {α β γ δ : Type} {f : α → Outcome β} {g : α → Outcome γ}
    {read : β → Outcome δ} (shown : γ → δ) {xs : List α}
    (h : ∀ x ∈ xs, ∃ b c, f x = .ok b ∧ g x = .ok c ∧ read b = .ok (shown c)) :
    ∃ bs cs, xs.mapM f = .ok bs ∧ xs.mapM g = .ok cs ∧ bs.mapM read = .ok (cs.map shown) := by
  induction xs with
  | nil => exact ⟨[], [], rfl, rfl, rfl⟩
  | cons x xs ih =>
    obtain ⟨⟨b, c, hf, hg, hb⟩, hxs⟩ := forall_mem_cons.mp h
    obtain ⟨bs, cs, hfs, hgs, hbs⟩ := ih hxs
    exact ⟨b :: bs, c :: cs, by simp [hf, hfs], by simp [hg, hgs], by simp [hb, hbs]⟩

theorem mapM_flatten {α β : Type} {f : α → Outcome β} {xss : List (List α)}
    {yss : List (List β)} (h : xss.mapM (fun xs => xs.mapM f) = .ok yss) :
    xss.flatten.mapM f = .ok yss.flatten := by
  refine mapM_eq_ok_iff.mpr (rel_flatten ?_)
  exact (mapM_eq_ok_iff.mp h).imp fun _ _ => mapM_eq_ok_iff.mp

theorem Coordinate.exists_eval {c : Coordinate Rat} (hc : c.isNumber) :
    ∃ q, ∀ env, c.scalar.eval env = .ok q := by
  cases c with
  | whole | real => exact ⟨_, fun env => eval_lit.mpr rfl⟩
  | expr e => cases hc

namespace Lattice

def place (c : Coordinate Rat × Coordinate Rat) : Outcome (Rat × Rat) := do
  return (← c.1.scalar.eval [], ← c.2.scalar.eval [])

variable (l : Lattice Rat)

def cellPlaces (index : List Int) : Outcome (List (Rat × Rat)) := do
  (← l.coordinates index).mapM place

/-- The places of all sites of a lattice, in units of its spacing. -/
def layout : Outcome (List (Rat × Rat)) := do
  return (← l.cells.mapM l.cellPlaces).flatten

def siteAt (spacing : Scalar Rat) (c : Coordinate Rat × Coordinate Rat) : Outcome (Site Rat) := do
  return ⟨← spacing.times c.1.scalar, ← spacing.times c.2.scalar, true⟩

def cellSites (spacing : Scalar Rat) (index : List Int) : Outcome (List (Site Rat)) := do
  (← l.coordinates index).mapM (siteAt spacing)

theorem latticeSites_eq (spacing : Scalar Rat) : Register.latticeSites l spacing =
      do return (← l.cells.mapM (l.cellSites spacing)).flatten := rfl

variable {env : Env Rat} {l : Lattice Rat} {s : Scalar Rat} {v : Rat}

theorem exists_siteAt {c : Coordinate Rat × Coordinate Rat} (hc : isNumeric c)
    (hs : s.eval env = .ok v) :
    ∃ site q, siteAt s c = .ok site ∧ place c = .ok q ∧
      site.spot env = .ok (Spot.ofLayout v q) := by
  obtain ⟨hx, hy⟩ := isNumeric_iff.mp hc
  obtain ⟨x, hx⟩ := Coordinate.exists_eval hx
  obtain ⟨y, hy⟩ := Coordinate.exists_eval hy
  obtain ⟨ex, hex, hexv⟩ := canon_keeps _ _ (eval_mul.mpr ⟨v, x, hs, hx env, rfl⟩)
  obtain ⟨ey, hey, heyv⟩ := canon_keeps _ _ (eval_mul.mpr ⟨v, y, hs, hy env, rfl⟩)
  refine ⟨⟨ex, ey, true⟩, (x, y), ?_, ?_, Site.spot_eq_ok.mpr ⟨hexv, heyv, rfl⟩⟩
  · rw [siteAt, Scalar.times, hex, ok_bind, Scalar.times, hey]
    rfl
  · rw [place, hx, ok_bind, hy]
    rfl

theorem exists_cellSites (hl : l.isRectangular = false) (hs : s.eval env = .ok v)
    (hindex : index ∈ l.cells) :
    ∃ sites qs, l.cellSites s index = .ok sites ∧ l.cellPlaces index = .ok qs ∧
      sites.mapM (Site.spot env) = .ok (qs.map (Spot.ofLayout v)) := by
  obtain ⟨cs, hcs, hnumeric⟩ := exists_coordinates hl hindex
  rw [cellSites, cellPlaces, hcs]
  exact exists_mapM_agree _ fun c hc => exists_siteAt (hnumeric c hc) hs

/-- **The spots of a lattice** are its layout, stretched by the value of its spacing. -/
theorem spots_lattice (hl : l.isRectangular = false) (hs : s.eval env = .ok v) (scaled : Bool) :
    ∃ qs, l.layout = .ok qs ∧
      (Register.lattice l s scaled).spots env = .ok (qs.map (Spot.ofLayout v)) := by
  obtain ⟨sitess, qss, hsites, hplaces, hspots⟩ :=
    exists_mapM_agree _ fun index hindex => exists_cellSites hl hs hindex
  refine ⟨qss.flatten, by rw [layout, hplaces]; rfl, ?_⟩
  have hflat := mapM_flatten hspots
  rw [← map_flatten] at hflat
  rw [Register.spots, Register.sites, latticeSites_eq, hsites]
  exact hflat

theorem layout_chain (n : Int) (up : Bool) : (chain n up).layout = .ok ((below n).map fun i =>
      if up then (Arith.ofDecimal (.ofInt 0), Arith.ofDecimal (.ofInt i))
      else (Arith.ofDecimal (.ofInt i), Arith.ofDecimal (.ofInt 0))) := by
  have hcells : (chain n up : Lattice Rat).cells = (below n).map fun i => [i] := by
    simp [cells, extent, map_eq_flatMap]
  have hplaces : ∀ i ∈ below n, (chain n up).cellPlaces [i] =
      .ok [if up then (Arith.ofDecimal (.ofInt 0), Arith.ofDecimal (.ofInt i))
        else (Arith.ofDecimal (.ofInt i), Arith.ofDecimal (.ofInt 0))] := fun i _ => by
    rw [cellPlaces, coordinates_chain]
    cases up <;> rfl
  rw [layout, hcells, mapM_map, Function.comp_def, mapM_eq_ok hplaces, ok_bind,
    pure_eq_ok, ← flatMap_def, ← map_eq_flatMap]

/-- A chain that stands upright. -/
def isUpright : Lattice Rat → Bool
  | chain _ up => up
  | _ => false

/-- The lattice with a chain laid down. -/
def lying : Lattice Rat → Lattice Rat
  | chain n _ => chain n false
  | l => l

theorem isRectangular_lying : l.lying.isRectangular = l.isRectangular := by
  cases l <;> rfl

/-- Laying a chain down turns the layout of one that stands upright and of no other lattice. -/
theorem layout_lying {qs : List (Rat × Rat)} (h : l.layout = .ok qs) :
    l.lying.layout = .ok (if l.isUpright then qs.map Prod.swap else qs) := by
  cases l with
  | chain n up =>
    cases up with
    | false => exact h
    | true =>
      rw [layout_chain] at h
      cases h
      rw [lying, layout_chain]
      simp [isUpright]
  | _ => exact h

end Lattice

/-! ### Registers -/

/-- An arithmetic expression that has a value. -/
def Scalar.Valued (e : Scalar Rat) : Prop :=
  e.isArithmetic ∧ ∃ v, e.eval env = .ok v

theorem Scalar.Valued.exists_assign {m : Env Rat} {e : Scalar Rat} (hm : m.Storable)
    (he : e.Valued m) : ∃ e' v, e.assign m = .ok e' ∧ e.eval m = .ok v ∧ e'.eval [] = .ok v := by
  obtain ⟨harith, v, hv⟩ := he
  obtain ⟨e', he', hv'⟩ := Scalar.exists_assign hm (n := []) (by simp [Env.Apart]) harith
    (by rwa [append_nil])
  exact ⟨e', v, he', hv, hv'⟩

namespace Register

variable {m : Env Rat} {r : Register Rat}

/-- The spacing of a lattice, and the coordinates of listed sites, have values. -/
def Valued (env : Env Rat) : Register Rat → Prop
  | list ss => ∀ s ∈ ss, s.x.Valued env ∧ s.y.Valued env
  | lattice _ s _ => s.Valued env

def isRectangular : Register Rat → Bool
  | list _ => false
  | lattice l _ _ => l.isRectangular

def isUpright : Register Rat → Bool
  | list _ => false
  | lattice l _ _ => l.isUpright

theorem assign_site {s : Site Rat} (hm : m.Storable) (hs : s.x.Valued m ∧ s.y.Valued m) :
    ∃ s' p, (do return (⟨← s.x.assign m, ← s.y.assign m, s.filled⟩ : Site Rat)) = .ok s' ∧
      s.spot m = .ok p ∧ s'.spot [] = .ok p := by
  obtain ⟨x', x, hx', hx, hxv⟩ := hs.1.exists_assign hm
  obtain ⟨y', y, hy', hy, hyv⟩ := hs.2.exists_assign hm
  refine ⟨⟨x', y', s.filled⟩, ⟨x, y, s.filled⟩, ?_, Site.spot_eq_ok.mpr ⟨hx, hy, rfl⟩,
    Site.spot_eq_ok.mpr ⟨hxv, hyv, rfl⟩⟩
  rw [hx', ok_bind, hy']
  rfl

theorem assign_list {ss : List (Site Rat)} (hm : m.Storable) (hr : (list ss).Valued m) :
    ∃ r' ps, (list ss).assign m = .ok r' ∧ (list ss).spots m = .ok ps ∧ r'.spots [] = .ok ps := by
  obtain ⟨ss', ps, hss', hps, hps'⟩ :=
    exists_mapM_agree id fun s hs => assign_site hm (hr s hs)
  refine ⟨list ss', ps, ?_, hps, ?_⟩
  · rw [assign, hss']
    rfl
  · rwa [map_id] at hps'

theorem assign_lattice {l : Lattice Rat} {s : Scalar Rat} {scaled : Bool}
    (hl : l.isRectangular = false) :
    (lattice l s scaled).assign m = do return lattice l.lying (← s.assign m) false := by
  cases l with
  | rectangular w h r => cases hl
  | _ => rfl

/-- **Binding the parameters of a register keeps its spots** and their order, except that a chain
that stands upright comes out turned. A rectangular lattice has no such form. -/
theorem assign_spots (hm : m.Storable) (hr : r.Valued m) :
    (r.isRectangular = true → r.assign m = .error .part) ∧
      (r.isRectangular = false → ∃ r' ps, r.assign m = .ok r' ∧ r.spots m = .ok ps ∧
        r'.spots [] = .ok (if r.isUpright then ps.map Spot.turned else ps)) := by
  cases r with
  | list ss =>
    refine ⟨fun h => (by cases h), fun _ => ?_⟩
    simpa [isUpright] using assign_list hm hr
  | lattice l s scaled =>
    refine ⟨fun hl => ?_, fun hl => ?_⟩
    · cases l with
      | rectangular w h r => rfl
      | _ => cases hl
    · obtain ⟨s', v, hs', hv, hv'⟩ := hr.exists_assign hm
      obtain ⟨qs, hqs, hspots⟩ := Lattice.spots_lattice hl hv scaled
      obtain ⟨qs', hqs', hspots'⟩ :=
        Lattice.spots_lattice (l.isRectangular_lying.trans hl) hv' false
      obtain rfl := Except.ok.inj ((Lattice.layout_lying hqs).symm.trans hqs')
      refine ⟨lattice l.lying s' false, _, ?_, hspots, ?_⟩
      · rw [assign_lattice hl, hs']
        rfl
      · rw [hspots', isUpright]
        split <;> simp [Function.comp_def, Spot.turned_ofLayout]

/-- A square lattice whose spacing is a quotient. -/
def mirroredSquare : Register Rat :=
  lattice (.square 2) (.div (.var "a") (.neg (.lit 2))) false

theorem mirroredSquare_spots : ∃ r', mirroredSquare.assign [("a", .number 6)] = .ok r' ∧
      r'.spots [] = .ok [⟨0, 0, true⟩, ⟨0, -3, true⟩, ⟨-3, 0, true⟩, ⟨-3, -3, true⟩] := by
  have hm : Env.Storable [("a", .number (6 : Rat))] := by
    simpa [Env.Storable] using Param.storable_number 6
  have hr : mirroredSquare.Valued [("a", .number 6)] := ⟨rfl, -3, by with_unfolding_all rfl⟩
  have hspots : mirroredSquare.spots [("a", .number 6)] =
      .ok [⟨0, 0, true⟩, ⟨0, -3, true⟩, ⟨-3, 0, true⟩, ⟨-3, -3, true⟩] := by
    with_unfolding_all rfl
  obtain ⟨r', ps, hr', hps, hps'⟩ := (assign_spots hm hr).2 rfl
  exact ⟨r', hr', hps'.trans (hps.symm.trans hspots)⟩

/-- A chain of two sites that stands upright comes out lying, and a rectangular lattice with two
sites not at all. -/
theorem upright_and_rectangular_not_kept :
    (∃ r', (lattice (.chain 2 true) (.var "a") false).assign [("a", .number 5)] = .ok r' ∧
      (lattice (.chain 2 true) (.var "a") false).spots [("a", .number 5)] =
        .ok [⟨0, 0, true⟩, ⟨0, 5, true⟩] ∧
      r'.spots [] = .ok [⟨0, 0, true⟩, ⟨5, 0, true⟩]) ∧
    ∃ r, rectangular 1 2 (.var "a") (some (.var "b")) = .ok r ∧
      r.spots [("a", .number 2), ("b", .number 3)] = .ok [⟨0, 0, true⟩, ⟨0, 3, true⟩] ∧
      r.assign [("a", .number 2), ("b", .number 3)] = .error .part := by
  refine ⟨⟨_, by with_unfolding_all rfl, by with_unfolding_all rfl, by with_unfolding_all rfl⟩,
    _, rfl, ?_, rfl⟩
  with_unfolding_all rfl

end Register

end AtomArray
