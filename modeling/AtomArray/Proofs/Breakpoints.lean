import AtomArray.Number.Bisect
import AtomArray.Proofs.Exact
import Mathlib.Tactic.FieldSimp
import Mathlib.Tactic.Ring

/-!
Functions of time and their breakpoints.

`Traces kind f s e points` says that the points describe `f` from time `s` to time `e`, by the lines
that join neighbouring points or by the steps that begin at each; it is built up one piece at a time,
from the last point backwards. The operations of piecewise series are statements about this
relation: points are scaled, moved in time, joined (`Traces.join`) and cut (`Traces.cut`).
-/

namespace AtomArray

open List SeriesKind

/-! ### Positions in a divided list -/

section Positions

variable {α β : Type}

/-- Bisection finds the end of the first part of a list, if the test tells the parts apart. -/
theorem bisectBy_append {N : Type} {before : N → Bool} {pre post : List N}
    (hpre : ∀ x ∈ pre, before x) (hpost : ∀ x ∈ post, before x = false) (lo hi : Nat)
    (hlo : lo ≤ pre.length) (hhi : pre.length ≤ hi) (hbound : hi ≤ (pre ++ post).length) :
    bisectBy (fun m => .ok (before m)) (pre ++ post) lo hi = .ok pre.length := by
  induction hmeasure : hi - lo using Nat.strong_induction_on generalizing lo hi with
  | h d ih =>
    rw [bisectBy]
    by_cases hlt : lo < hi
    · have hmid : (lo + hi) / 2 < (pre ++ post).length := by omega
      rw [dif_pos hlt, getElem?_eq_getElem hmid]
      simp only [Outcome.ok_bind]
      by_cases hside : (lo + hi) / 2 < pre.length
      · rw [getElem_append_left hside, hpre _ (getElem_mem _), if_pos rfl]
        exact ih _ (by omega) _ _ (by omega) hhi hbound rfl
      · rw [getElem_append_right (by omega), hpost _ (getElem_mem _),
          if_neg (by decide)]
        exact ih _ (by omega) _ _ hlo (by omega) (by omega) rfl
    · rw [dif_neg hlt]
      exact congrArg _ (by omega)

theorem item?_of_getElem? {xs : List α} {i : Nat} {x : α} (h : xs[i]? = some x) :
    item? xs i = .ok x := by
  simp only [item?]
  rw [if_neg (by omega), if_neg (by omega), Int.toNat_natCast, h]

variable (g : α → β)

theorem item?_append (pre post : List α) (x : α) :
    item? ((pre ++ x :: post).map g) pre.length = .ok (g x) :=
  item?_of_getElem? (by simp)

theorem item?_append_succ (pre post : List α) (x y : α) :
    item? ((pre ++ x :: y :: post).map g) (pre.length + 1 : Nat) = .ok (g y) :=
  item?_of_getElem? (by simp)

theorem item?_append_append (pre mid post : List α) (x : α) :
    item? ((pre ++ (mid ++ x :: post)).map g) (pre.length + mid.length : Nat) = .ok (g x) :=
  item?_of_getElem? (by simp)

theorem between_append (pre mid post : List α) :
    between ((pre ++ (mid ++ post)).map g) pre.length (pre.length + mid.length) = mid.map g := by
  simp [between]

theorem between_append_succ (pre mid post : List α) (x : α) :
    between ((pre ++ (mid ++ x :: post)).map g) pre.length (pre.length + mid.length + 1) =
      (mid ++ [x]).map g := by
  rw [append_cons mid x post, add_assoc]
  simpa using between_append g pre (mid ++ [x]) post

@[simp] theorem lastItem?_append (xs : List α) (x : α) : lastItem? (xs ++ [x]) = .ok x := by
  simp [lastItem?]

@[simp] theorem firstItem?_cons (x : α) (xs : List α) : firstItem? (x :: xs) = .ok x := rfl

end Positions

/-- A time and the value there. -/
abbrev Breakpoint := Rat × Rat

variable {pre post : List Breakpoint} {t : Rat}

theorem bisectLeft_points (hpre : ∀ p ∈ pre, p.1 < t)
    (hpost : ∀ p ∈ post, t ≤ p.1) : bisectLeft ((pre ++ post).map Prod.fst) t = .ok pre.length := by
  have := @bisectBy_append Rat (fun m => decide (m < t)) (pre.map Prod.fst) (post.map Prod.fst)
    (forall_mem_map.mpr (by simpa using hpre)) (forall_mem_map.mpr (by simpa using hpost))
    0 _ (by simp) (by simp) le_rfl
  simpa [bisectLeft] using this

theorem bisectLeft_twice {mid : List Breakpoint} {a b : Rat} (hab : a ≤ b)
    (hpre : ∀ p ∈ pre, p.1 < a) (hmid : ∀ p ∈ mid, a ≤ p.1 ∧ p.1 < b)
    (hpost : ∀ p ∈ post, b ≤ p.1) :
    bisectLeft ((pre ++ (mid ++ post)).map Prod.fst) a = .ok pre.length ∧
      bisectLeft ((pre ++ (mid ++ post)).map Prod.fst) b = .ok (pre.length + mid.length) := by
  constructor
  · exact bisectLeft_points hpre (forall_mem_append.mpr
      ⟨fun p hp => (hmid p hp).1, fun p hp => hab.trans (hpost p hp)⟩)
  · rw [← append_assoc, ← length_append]
    exact bisectLeft_points (forall_mem_append.mpr
      ⟨fun p hp => (hpre p hp).trans_le hab, fun p hp => (hmid p hp).2⟩) hpost

theorem bisectRight_points (hpre : ∀ p ∈ pre, p.1 ≤ t) (hpost : ∀ p ∈ post, t < p.1) :
    bisectRight ((pre ++ post).map Prod.fst) t = .ok pre.length := by
  have := @bisectBy_append Rat (fun m => !decide (t < m)) (pre.map Prod.fst) (post.map Prod.fst)
    (forall_mem_map.mpr (by simpa using hpre)) (forall_mem_map.mpr (by simpa using hpost))
    0 _ (by simp) (by simp) le_rfl
  simpa [bisectRight] using this

/-! ### Points in order -/

section Order

variable {points : List Breakpoint} {before : Rat → Prop}

/-- A test that holds up to some time divides points that are in order. -/
theorem exists_divided (h : points.Pairwise (·.1 ≤ ·.1))
    (hmono : ∀ x y, x ≤ y → before y → before x) :
    ∃ pre post, points = pre ++ post ∧ (∀ p ∈ pre, before p.1) ∧ ∀ p ∈ post, ¬before p.1 := by
  induction points with
  | nil => exact ⟨[], [], rfl, by simp, by simp⟩
  | cons p points ih =>
    obtain ⟨hp, h⟩ := pairwise_cons.mp h
    by_cases hbefore : before p.1
    · obtain ⟨pre, post, rfl, hpre, hpost⟩ := ih h
      exact ⟨p :: pre, post, rfl, forall_mem_cons.mpr ⟨hbefore, hpre⟩, hpost⟩
    · refine ⟨[], p :: points, rfl, by simp, forall_mem_cons.mpr ⟨hbefore, fun q hq hq' => ?_⟩⟩
      exact hbefore (hmono _ _ (hp q hq) hq')

/-- The points are in order, and there is one at the time `e`. -/
def InOrder (e : Rat) (points : List Breakpoint) : Prop :=
  points.Pairwise (·.1 ≤ ·.1) ∧ ∃ v, (e, v) ∈ points

variable {b e : Rat} (h : InOrder e points)

include h

theorem InOrder.divide (hmono : ∀ x y, x ≤ y → before y → before x) (hend : ¬before e) :
    ∃ pre q post, points = pre ++ q :: post ∧ (∀ p ∈ pre, before p.1) ∧
      ∀ p ∈ q :: post, ¬before p.1 := by
  obtain ⟨hsorted, v, hv⟩ := h
  obtain ⟨pre, post, rfl, hpre, hpost⟩ := exists_divided hsorted hmono
  cases post with
  | nil => exact absurd (hpre _ (by simpa using hv)) hend
  | cons q post => exact ⟨pre, q, post, rfl, hpre, hpost⟩

/-- Two times divide the points into three parts, the last of which is not empty. -/
theorem InOrder.divide_twice (a : Rat) (hbe : b ≤ e) :
    ∃ pre mid q post, points = pre ++ (mid ++ q :: post) ∧ (∀ p ∈ pre, p.1 < a) ∧
      (∀ p ∈ mid, a ≤ p.1 ∧ p.1 < b) ∧ ∀ p ∈ q :: post, b ≤ p.1 := by
  obtain ⟨front, q, post, rfl, hfront, hpost⟩ :=
    h.divide (fun _ _ hxy hy => lt_of_le_of_lt hxy hy) hbe.not_gt
  obtain ⟨pre, mid, rfl, hpre, hmid⟩ := exists_divided (pairwise_append.mp h.1).1
    fun x y hxy hy => lt_of_le_of_lt hxy (b := y) (c := a) hy
  refine ⟨pre, mid, q, post, append_assoc .., hpre, fun p hp => ?_, by simpa using hpost⟩
  exact ⟨not_lt.mp (hmid p hp), hfront p (mem_append_right _ hp)⟩

end Order

/-! ### Pieces -/

namespace SeriesKind

/-- The times of a piece: a line holds up to its ends, a step only between them. -/
def Within : SeriesKind → Rat → Rat → Rat → Prop
  | linear, a, b, t => a ≤ t ∧ t ≤ b
  | constant, a, b, t => a < t ∧ t < b

def value : SeriesKind → Breakpoint → Breakpoint → Rat → Rat
  | linear, p, q, t => (q.2 - p.2) / (q.1 - p.1) * (t - p.1) + p.2
  | constant, p, _, _ => p.2

variable {k : SeriesKind}

theorem Within.mono {a b a' b' t : Rat} (ha : a' ≤ a) (hb : b ≤ b') (h : k.Within a b t) :
    k.Within a' b' t := by
  cases k with
  | linear => exact ⟨ha.trans h.1, h.2.trans hb⟩
  | constant => exact ⟨ha.trans_lt h.1, h.2.trans_le hb⟩

theorem Within.le {a b t : Rat} (h : k.Within a b t) : a ≤ t ∧ t ≤ b := by
  cases k with
  | linear => exact h
  | constant => exact ⟨h.1.le, h.2.le⟩

theorem within_add {a b t x : Rat} : k.Within (a + x) (b + x) (t + x) ↔ k.Within a b t := by
  cases k <;> simp [Within]

theorem value_add (p q : Breakpoint) (t x : Rat) :
    k.value (p.1 + x, p.2) (q.1 + x, q.2) (t + x) = k.value p q t := by
  cases k with
  | linear => simp [value]
  | constant => rfl

theorem value_mul (p q : Breakpoint) (c t : Rat) :
    k.value (p.1, c * p.2) (q.1, c * q.2) t = c * k.value p q t := by
  cases k with
  | linear =>
    simp only [value]
    ring
  | constant => rfl

theorem value_left {p q : Breakpoint} {a : Rat} (hpq : p.1 < q.1) (ha : a < q.1) (t : Rat) :
    k.value (a, k.value p q a) q t = k.value p q t := by
  cases k with
  | linear =>
    have hpq' : q.1 - p.1 ≠ 0 := by linarith
    have ha' : q.1 - a ≠ 0 := by linarith
    simp only [value]
    field_simp
    ring
  | constant => rfl

theorem value_right {p q : Breakpoint} {b : Rat} (hpq : p.1 < q.1) (hb : p.1 < b) (t : Rat) :
    k.value p (b, k.value p q b) t = k.value p q t := by
  cases k with
  | linear =>
    have hpq' : q.1 - p.1 ≠ 0 := by linarith
    have hb' : b - p.1 ≠ 0 := by linarith
    simp only [value]
    field_simp
    ring
  | constant => rfl

end SeriesKind

/-- Between two points, `f` is the piece that joins them. -/
def Piece (k : SeriesKind) (f : Rat → Rat) (p q : Breakpoint) : Prop :=
  p.1 < q.1 ∧ ∀ t, k.Within p.1 q.1 t → f t = k.value p q t

namespace Piece

variable {k : SeriesKind} {f g : Rat → Rat} {p q : Breakpoint}

theorem congr (h : Piece k f p q) (hfg : ∀ t, k.Within p.1 q.1 t → f t = g t) : Piece k g p q :=
  ⟨h.1, fun t ht => (hfg t ht).symm.trans (h.2 t ht)⟩

theorem scale (c : Rat) (h : Piece k f p q) :
    Piece k (fun t => c * f t) (p.1, c * p.2) (q.1, c * q.2) :=
  ⟨h.1, fun t ht => by rw [value_mul, ← h.2 t ht]⟩

theorem shift (x : Rat) (h : Piece k f p q) :
    Piece k (fun t => f (t - x)) (p.1 + x, p.2) (q.1 + x, q.2) := by
  refine ⟨by simpa using h.1, fun t ht => ?_⟩
  obtain ⟨u, rfl⟩ : ∃ u, t = u + x := ⟨t - x, by ring⟩
  rw [value_add, ← h.2 u (within_add.mp ht)]
  exact congrArg f (add_sub_cancel_right u x)

theorem trimStart {a : Rat} (h : Piece k f p q) (hpa : p.1 ≤ a) (haq : a < q.1) :
    Piece k f (a, k.value p q a) q :=
  ⟨haq, fun t ht => by rw [value_left h.1 haq, h.2 t (ht.mono hpa le_rfl)]⟩

theorem trimEnd {b : Rat} (h : Piece k f p q) (hpb : p.1 < b) (hbq : b ≤ q.1) :
    Piece k f p (b, k.value p q b) :=
  ⟨hpb, fun t ht => by rw [value_right h.1 hpb, h.2 t (ht.mono le_rfl hbq)]⟩

theorem line_ends (h : Piece .linear f p q) : f p.1 = p.2 ∧ f q.1 = q.2 := by
  have hne : q.1 - p.1 ≠ 0 := by linarith [h.1]
  constructor
  · rw [h.2 p.1 ⟨le_rfl, h.1.le⟩]
    simp [value]
  · rw [h.2 q.1 ⟨h.1.le, le_rfl⟩]
    simp only [value]
    field_simp
    ring

theorem retarget {m v w : Rat} (h : Piece k f p (m, v)) (hvw : k = .linear → v = w) :
    Piece k f p (m, w) := by
  cases k with
  | linear => exact hvw rfl ▸ h
  | constant => exact h

end Piece

/-! ### Functions described by points -/

/-- The function `f` up to the time `m`, and from there on `g` as from zero. -/
def followedBy (f : Rat → Rat) (m : Rat) (g : Rat → Rat) (t : Rat) : Rat :=
  if t ≤ m then f t else g (t - m)

theorem followedBy_of_le {f g : Rat → Rat} {m : Rat} (h : t ≤ m) : followedBy f m g t = f t :=
  if_pos h

theorem followedBy_of_lt {f g : Rat → Rat} {m : Rat} (h : m < t) : followedBy f m g t = g (t - m) :=
  if_neg h.not_ge

/-- The points describe `f` from time `s` to time `e`. -/
inductive Traces (k : SeriesKind) (f : Rat → Rat) : Rat → Rat → List Breakpoint → Prop where
  | last (e v : Rat) : Traces k f e e [(e, v)]
  | cons {s v e : Rat} {q : Breakpoint} {rest : List Breakpoint} :
      Piece k f (s, v) q → Traces k f q.1 e (q :: rest) → Traces k f s e ((s, v) :: q :: rest)

namespace Traces

variable {k : SeriesKind} {f g : Rat → Rat} {s e : Rat} {points : List Breakpoint}

section

variable (h : Traces k f s e points)

include h

theorem begins : ∃ v rest, points = (s, v) :: rest := by
  cases h with
  | last e v => exact ⟨v, [], rfl⟩
  | cons piece rest => exact ⟨_, _, rfl⟩

theorem ends : ∃ v init, points = init ++ [(e, v)] := by
  induction h with
  | last e v => exact ⟨v, [], rfl⟩
  | @cons s v e q rest piece _ ih =>
    obtain ⟨w, init, hinit⟩ := ih
    exact ⟨w, (s, v) :: init, by rw [hinit, cons_append]⟩

theorem firstItem?_times : firstItem? (points.map Prod.fst) = .ok s := by
  obtain ⟨v, rest, rfl⟩ := h.begins
  simp

theorem lastItem?_times : lastItem? (points.map Prod.fst) = .ok e := by
  obtain ⟨v, init, rfl⟩ := h.ends
  simp

theorem bounds : ∀ p ∈ points, s ≤ p.1 ∧ p.1 ≤ e := by
  induction h with
  | last e v => simp
  | @cons s v e q rest piece _ ih =>
    have hsq : s ≤ q.1 := piece.1.le
    have hqe : q.1 ≤ e := (ih q mem_cons_self).2
    exact forall_mem_cons.mpr ⟨⟨le_rfl, hsq.trans hqe⟩,
      fun p hp => ⟨hsq.trans (ih p hp).1, (ih p hp).2⟩⟩

theorem le : s ≤ e := by
  obtain ⟨v, init, rfl⟩ := h.ends
  exact (h.bounds (e, v) (by simp)).1

theorem sorted : (points.map Prod.fst).Pairwise (· < ·) := by
  induction h with
  | last e v => simp
  | @cons s v e q rest piece tail ih =>
    rw [map_cons]
    refine pairwise_cons.mpr ⟨?_, ih⟩
    intro t ht
    obtain ⟨p, hp, rfl⟩ := mem_map.mp ht
    exact lt_of_lt_of_le piece.1 (tail.bounds p hp).1

theorem inOrder : InOrder e points := by
  obtain ⟨v, init, hend⟩ := h.ends
  exact ⟨(pairwise_map.mp h.sorted).imp le_of_lt, v, by simp [hend]⟩

theorem congr (hfg : ∀ t, k.Within s e t → f t = g t) : Traces k g s e points := by
  induction h with
  | last e v => exact .last e v
  | @cons s v e q rest piece tail ih =>
    exact .cons (piece.congr fun t ht => hfg t (ht.mono le_rfl tail.le))
      (ih fun t ht => hfg t (ht.mono piece.1.le le_rfl))

theorem scale (c : Rat) : Traces k (fun t => c * f t) s e (points.map fun p => (p.1, c * p.2)) := by
  induction h with
  | last e v => exact .last e (c * v)
  | cons piece _ ih => exact .cons (piece.scale c) ih

theorem shift (x : Rat) :
    Traces k (fun t => f (t - x)) (s + x) (e + x) (points.map fun p => (p.1 + x, p.2)) := by
  induction h with
  | last e v => exact .last (e + x) v
  | cons piece _ ih => exact .cons (piece.shift x) ih

theorem rebase : Traces k (fun t => f (t + s)) 0 (e - s) (points.map fun p => (p.1 - s, p.2)) := by
  simpa [sub_eq_add_neg] using h.shift (-s)

end

variable {pre post : List Breakpoint} {b a : Rat}

theorem drop {q : Breakpoint} (h : Traces k f s e (pre ++ q :: post)) :
    Traces k f q.1 e (q :: post) := by
  induction pre generalizing s with
  | nil =>
    obtain ⟨v, rest, heq⟩ := h.begins
    cases heq
    exact h
  | cons p pre ih =>
    cases pre with
    | nil =>
      cases h with
      | cons _ tail => exact tail
    | cons p' pre =>
      cases h with
      | cons _ tail => exact ih tail

theorem piece_at (h : Traces k f s e points) {i : Nat} {p q : Breakpoint} (hp : points[i]? = some p)
    (hq : points[i + 1]? = some q) : Piece k f p q := by
  induction h generalizing i with
  | last e v => simp at hq
  | @cons s v e q' rest piece _ ih =>
    cases i with
    | zero =>
      obtain rfl : (s, v) = p := by simpa using hp
      obtain rfl : q' = q := by simpa using hq
      exact piece
    | succ i => exact ih (by simpa using hp) (by simpa using hq)

theorem piece {p q : Breakpoint} (h : Traces k f s e (pre ++ p :: q :: post)) : Piece k f p q :=
  @piece_at _ _ _ _ _ h pre.length p q (by simp) (by simp)

theorem glue {ps qs : List Breakpoint} {m v w : Rat} (h : Traces k f s m (ps ++ [(m, v)]))
    (h' : Traces k f m e ((m, w) :: qs)) (hvw : k = .linear → v = w) :
    Traces k f s e (ps ++ (m, w) :: qs) := by
  induction ps generalizing s with
  | nil =>
    obtain ⟨v', rest, heq⟩ := h.begins
    obtain ⟨heq, -⟩ := cons.inj heq
    obtain ⟨rfl, -⟩ := Prod.mk.inj heq
    exact h'
  | cons p ps ih =>
    cases ps with
    | nil =>
      cases h with
      | cons piece _ => exact .cons (piece.retarget hvw) h'
    | cons p' ps =>
      cases h with
      | cons piece tail => exact .cons piece (ih tail)

theorem trimEnd {p q : Breakpoint}
    (h : Traces k f s e (pre ++ p :: q :: post)) (hpb : p.1 < b) (hbq : b ≤ q.1) :
    Traces k f s b (pre ++ [p, (b, k.value p q b)]) := by
  induction pre generalizing s with
  | nil =>
    cases h with
    | cons piece _ => exact .cons (piece.trimEnd hpb hbq) (.last b _)
  | cons p' pre ih =>
    cases pre <;>
    · cases h with
      | cons piece tail => exact .cons piece (ih tail)

theorem trimStart {p q : Breakpoint}
    (h : Traces k f s e (pre ++ p :: q :: post)) (hpa : p.1 ≤ a) (haq : a < q.1) :
    Traces k f a e ((a, k.value p q a) :: q :: post) := by
  have hdrop : Traces k f s e ((pre ++ [p]) ++ q :: post) := by simpa using h
  exact .cons (h.piece.trimStart hpa haq) hdrop.drop

/-- Lines go through their points. -/
theorem line_through (h : Traces .linear f s e points) (hlt : s < e) :
    ∀ p ∈ points, f p.1 = p.2 := by
  induction h with
  | last e v => exact absurd hlt (lt_irrefl e)
  | @cons _ _ _ q _ piece tail ih =>
    refine forall_mem_cons.mpr ⟨piece.line_ends.1, ?_⟩
    obtain ⟨m, w⟩ := q
    cases (tail : Traces .linear f m _ _) with
    | last e w => simpa using piece.line_ends.2
    | cons piece' tail' => exact ih (piece'.1.trans_le tail'.le)

theorem exists_of_sorted (k : SeriesKind) {p : Breakpoint} {rest : List Breakpoint}
    (h : (p :: rest).Pairwise (·.1 < ·.1)) :
    ∃ f e, Traces k f p.1 e (p :: rest) ∧ f p.1 = p.2 := by
  induction rest generalizing p with
  | nil => exact ⟨fun _ => p.2, p.1, .last .., rfl⟩
  | cons q rest ih =>
    obtain ⟨hp, htail⟩ := pairwise_cons.mp h
    have hpq := hp q mem_cons_self
    obtain ⟨f, e, hf, hq⟩ := ih htail
    have hpiece : Piece k (k.value p q) p q := ⟨hpq, fun _ _ => rfl⟩
    refine ⟨fun t => if t < q.1 then k.value p q t else f t, e, .cons ⟨hpq, fun t ht => ?_⟩
      (hf.congr fun t ht => (if_neg ht.le.1.not_gt).symm), ?_⟩
    · rcases ht.le.2.lt_or_eq with hlt | rfl
      · exact if_pos hlt
      · cases k with
        | linear => exact (if_neg (lt_irrefl _)).trans (hq.trans hpiece.line_ends.2.symm)
        | constant => exact absurd ht.2 (lt_irrefl _)
    · refine (if_pos hpq).trans ?_
      cases k with
      | linear => exact hpiece.line_ends.1
      | constant => rfl

theorem exists_before {q : Breakpoint}
    (h : Traces k f s e (pre ++ q :: post)) (hs : s < q.1) : ∃ init p, pre = init ++ [p] := by
  rcases eq_nil_or_concat pre with rfl | ⟨init, p, rfl⟩
  · obtain ⟨v, rest, heq⟩ := h.begins
    cases heq
    exact absurd hs (lt_irrefl s)
  · exact ⟨init, p, concat_eq_append⟩

theorem dropTo {r : Breakpoint}
    (h : Traces k f s e (pre ++ r :: post)) (hsa : s ≤ a) (hpre : ∀ p ∈ pre, p.1 < a)
    (har : a ≤ r.1) :
    (a = r.1 ∧ Traces k f a e (r :: post)) ∨ a ≠ r.1 ∧ ∃ init p, pre = init ++ [p] ∧
        Traces k f a e ((a, k.value p r a) :: r :: post) := by
  rcases har.lt_or_eq with har | har
  · obtain ⟨init, p, rfl⟩ := h.exists_before (hsa.trans_lt har)
    rw [append_assoc] at h
    exact .inr ⟨har.ne, init, p, rfl, h.trimStart (hpre p (by simp)).le har⟩
  · exact .inl ⟨har, har ▸ h.drop⟩

theorem takeTo {q : Breakpoint}
    (h : Traces k f s e (pre ++ q :: post)) (hsb : s < b) (hpre : ∀ p ∈ pre, p.1 < b)
    (hbq : b ≤ q.1) :
    ∃ init p, pre = init ++ [p] ∧ Traces k f s b (pre ++ [(b, k.value p q b)]) := by
  obtain ⟨init, p, rfl⟩ := h.exists_before (hsb.trans_le hbq)
  rw [append_assoc] at h
  refine ⟨init, p, rfl, ?_⟩
  simpa using h.trimEnd (hpre p (by simp)) hbq

/-- The part between two times: the points between them, with an end added at the later time and,
unless there is a point already, at the earlier one. -/
theorem cut {mid rest : List Breakpoint} {q r : Breakpoint}
    (h : Traces k f s e (pre ++ (mid ++ q :: post))) (hr : mid ++ q :: post = r :: rest)
    (hsa : s ≤ a) (hab : a < b) (hpre : ∀ p ∈ pre, p.1 < a) (hmid : ∀ p ∈ mid, a ≤ p.1 ∧ p.1 < b)
    (hbq : b ≤ q.1) :
    ∃ head x, Traces k f a b (head ++ mid ++ [(b, x)]) ∧
      (∃ init p, head ++ mid = init ++ [p] ∧ x = k.value p q b) ∧
      ((a = r.1 ∧ head = []) ∨
        a ≠ r.1 ∧ ∃ init p, pre = init ++ [p] ∧ head = [(a, k.value p r a)]) := by
  have har : a ≤ r.1 := by
    cases mid with
    | nil => exact (cons.inj hr).1 ▸ hab.le.trans hbq
    | cons m mid => exact (cons.inj hr).1 ▸ (hmid m mem_cons_self).1
  have hmid' : ∀ p ∈ mid, p.1 < b := fun p hp => (hmid p hp).2
  rw [hr] at h
  rcases h.dropTo hsa hpre har with ⟨ha, hfrom⟩ | ⟨ha, init, p, hpre', hfrom⟩
  · rw [← hr] at hfrom
    obtain ⟨init, p, hinit, hcut⟩ := hfrom.takeTo hab hmid' hbq
    exact ⟨[], _, hcut, ⟨init, p, hinit, rfl⟩, .inl ⟨ha, rfl⟩⟩
  · rw [← hr, ← cons_append] at hfrom
    obtain ⟨init', p', hinit', hcut⟩ :=
      hfrom.takeTo hab (forall_mem_cons.mpr ⟨hab, hmid'⟩) hbq
    exact ⟨[(a, k.value p r a)], _, hcut, ⟨init', p', hinit', rfl⟩, .inr ⟨ha, init, p, hpre', rfl⟩⟩

theorem join {ps qs : List Breakpoint} {m v w d : Rat} (h : Traces k f s m (ps ++ [(m, v)]))
    (h' : Traces k g 0 d ((0, w) :: qs)) (hsm : s < m) (hd : 0 < d) (hvw : k = .linear → v = w) :
    Traces k (followedBy f m g) s (m + d) (ps ++ ((0, w) :: qs).map fun p => (p.1 + m, p.2)) := by
  have hfirst : Traces k (followedBy f m g) s m (ps ++ [(m, v)]) :=
    h.congr fun t ht => (followedBy_of_le ht.le.2).symm
  have hsecond : Traces k (followedBy f m g) m (m + d)
      (((0, w) :: qs).map fun p => (p.1 + m, p.2)) := by
    have hshift := h'.shift m
    rw [zero_add, add_comm d m] at hshift
    refine hshift.congr fun t ht => ?_
    rcases le_or_gt t m with htm | hmt
    · -- Only lines meet: there both have the value of the common point.
      cases k with
      | constant => exact absurd htm (not_le_of_gt ht.1)
      | linear =>
        obtain rfl : t = m := le_antisymm htm ht.1
        have hv : f t = v := h.line_through hsm (t, v) (by simp)
        have hw : g 0 = w := h'.line_through hd (0, w) mem_cons_self
        rw [followedBy_of_le le_rfl, sub_self, hv, hw, hvw rfl]
    · rw [followedBy_of_lt hmt]
  rw [map_cons, zero_add] at hsecond ⊢
  exact hfirst.glue hsecond hvw

end Traces

end AtomArray
