import AtomArray.Saved.Loaded
import AtomArray.Proofs.DecimalText
import AtomArray.Proofs.Outcome

/-!
Reading saved scalar expressions back.

A saved object is an object under a single key, whose members are its parts. The parts are read
first (`ofJson_one`, `ofJson_two`, `ofJson_three`); then the object is made of them (`Loaded.build`).

Numbers are saved as texts, and a text is accepted only if it writes a finite number. So an
expression that is built as the operations build them (`Scalar.isFormed`) is read back as it was if
its numbers are finite, and refused otherwise (`Scalar.ofJson_saved`).
-/

namespace AtomArray

open List Outcome Loaded Scalar Bool

/-! ### Objects and their parts -/

namespace Loaded

section Parts

variable {N : Type}

def ofBound : Option (Scalar N) → Loaded N
  | none => .null
  | some e => .scalar e

theorem asBound_eq_ok {x : Loaded N} {b : Option (Scalar N)} :
    asBound x = .ok b ↔ x = ofBound b := by
  cases x <;> cases b <;> simp [asBound, asScalar, ofBound, Except.map]

@[simp]
theorem asBound_ofBound (b : Option (Scalar N)) : asBound (ofBound b) = .ok b :=
  asBound_eq_ok.mpr rfl

theorem asList_eq_ok {α : Type} {item : Loaded N → Outcome α} {wrap : α → Loaded N}
    (hitem : ∀ {y a}, item y = .ok a ↔ y = wrap a) {x : Loaded N} {as : List α} :
    asList item x = .ok as ↔ x = .list (as.map wrap) := by
  cases x with
  | list ys =>
    simp only [asList, mapM_eq_ok_iff, hitem, list.injEq]
    induction ys generalizing as with
    | nil => cases as <;> simp
    | cons y ys ih => cases as <;> simp [ih]
  | _ => simp [asList]

theorem asList_map {α : Type} {item : Loaded N → Outcome α} (wrap : α → Loaded N)
    (hitem : ∀ a, item (wrap a) = .ok a) (as : List α) :
    asList item (list (as.map wrap)) = .ok as := by
  rw [asList, mapM_eq_ok_iff, forall₂_map_left_iff, forall₂_same]
  exact fun a _ => hitem a

@[simp]
theorem asList_map_scalar (ts : List (Scalar N)) :
    asList asScalar (list (ts.map scalar)) = .ok ts :=
  asList_map scalar (fun _ => rfl) ts

end Parts

variable {N : Type} [Arith N]

-- The readers are unfolded in every equation of this part.
attribute [local simp] ofJson ofMembers build firstOf buildScalar checkParts part

theorem ofJson_one (head : String) {key : String} (hkey : heads.contains key = false) (x : Json) :
    (ofJson (.obj [(head, .obj [(key, x)])]) : Outcome (Loaded N)) =
      ofJson x >>= fun a => build [(head, dict [(key, a)])] := by
  simp only [ofJson, ofMembers, bind_assoc, pure_eq_ok, ok_bind, build, hkey]
  rfl

theorem ofJson_two (head k l : String) (x y : Json) :
    (ofJson (.obj [(head, .obj [(k, x), (l, y)])]) : Outcome (Loaded N)) =
      ofJson x >>= fun a => ofJson y >>= fun b => build [(head, dict [(k, a), (l, b)])] := by
  simp only [ofJson, ofMembers, bind_assoc, pure_eq_ok, ok_bind, build]

theorem ofJson_three (head k l m : String) (x y z : Json) :
    (ofJson (.obj [(head, .obj [(k, x), (l, y), (m, z)])]) : Outcome (Loaded N)) =
      ofJson x >>= fun a => ofJson y >>= fun b => ofJson z >>= fun c =>
        build [(head, dict [(k, a), (l, b), (m, c)])] := by
  simp only [ofJson, ofMembers, bind_assoc, pure_eq_ok, ok_bind, build]

theorem ofJson_str (s : String) : (ofJson (.str s) : Outcome (Loaded N)) = .ok (text s) := by
  rw [ofJson]

theorem ofJson_arr (xs : List Json) :
    (ofJson (.arr xs) : Outcome (Loaded N)) = ofItems xs >>= fun items => .ok (list items) := by
  rw [ofJson]
  rfl

end Loaded

/-! ### Numbers, names and term sets -/

/-- A value that is refused unless it is accepted. -/
def orRefused {α : Type} (accepted : Bool) (x : α) : Outcome α :=
  if accepted then .ok x else .error .refused

@[simp]
theorem orRefused_false {α : Type} (x : α) : orRefused false x = .error .refused := rfl

@[simp]
theorem orRefused_true {α : Type} (x : α) : orRefused true x = .ok x := rfl

namespace Quantity

/-- A decimal that a text can write; other numbers are no part of an expression. -/
def isWritable : Quantity → Bool
  | decimal d => d.inRange
  | binary _ => false

def isFinite : Quantity → Bool
  | decimal d => d.isFinite
  | binary _ => false

theorem asNumber_text {v : Quantity} (h : v.isWritable) :
    Loaded.asNumber (.text (Arith.text v)) = orRefused v.isFinite v := by
  cases v with
  | binary x => cases h
  | decimal d =>
    have hread : Decimal.ofText? (Arith.text (decimal d)) = some d := Decimal.ofText?_text h
    simp only [Loaded.asNumber, Loaded.plain, Json.asDecimal, Json.finiteText, hread]
    cases hd : d.isFinite <;> simp [orRefused, isFinite, hd, Except.map, Arith.ofDecimal]

end Quantity

theorem eq_of_checkName {name s : String} (h : checkName name = .ok s) : s = name := by
  unfold checkName at h
  split at h
  · cases h
  · split at h
    · cases h
    split at h
    · cases h
    split at h
    · cases h
    · exact (Except.ok.inj h).symm

theorem checkName_of_isOk {name : String} (h : (checkName name).isOk) :
    checkName name = .ok name := by
  cases hs : checkName name with
  | error fault =>
    rw [hs] at h
    cases h
  | ok s => rw [eq_of_checkName hs]

namespace Scalar

variable {N : Type}

/-- No term equals one that stands before it. -/
def distinct [Arith N] : List (Scalar N) → Bool
  | [] => true
  | t :: ts => (ts.all fun u => !same t u) && distinct ts

theorem foldl_insertTerm [Arith N] {acc ts : List (Scalar N)}
    (hacc : ∀ a ∈ acc, ∀ t ∈ ts, same a t = false) (hts : distinct ts) :
    ts.foldl insertTerm acc = acc ++ ts := by
  induction ts generalizing acc with
  | nil => simp
  | cons t ts ih =>
    simp only [distinct, and_eq_true, all_eq_true, not_eq_true'] at hts
    obtain ⟨ht, hts⟩ := hts
    have hnew : insertTerm acc t = acc ++ [t] := by
      unfold insertTerm
      rw [if_neg]
      simpa using fun a ha => hacc a ha t mem_cons_self
    rw [foldl_cons, hnew, ih ?_ hts, append_assoc, singleton_append]
    exact forall_mem_append.mpr ⟨fun a ha u hu => hacc a ha u (mem_cons_of_mem t hu),
      forall_mem_singleton.mpr ht⟩

theorem termSet_of_distinct [Arith N] {ts : List (Scalar N)}
    (h : distinct ts) : termSet ts = ts := by
  rw [termSet, foldl_insertTerm (by simp) h, nil_append]

/-! ### Expressions -/

mutual

/-- Is the expression as the operations build it? Names are accepted, numbers can be written, and
the terms of a minimum or maximum are kept without repetition. -/
def isFormed : Scalar Quantity → Bool
  | lit v => v.isWritable
  | var name => (checkName name).isOk
  | assigned name v => (checkName name).isOk && v.isWritable
  | neg e => isFormed e
  | add a b => isFormed a && isFormed b
  | mul a b => isFormed a && isFormed b
  | div a b => isFormed a && isFormed b
  | min ts => areFormed ts && distinct ts
  | max ts => areFormed ts && distinct ts
  | slice e start stop => isFormed e && isFormedBound start && isFormedBound stop

def areFormed : List (Scalar Quantity) → Bool
  | [] => true
  | t :: ts => isFormed t && areFormed ts

def isFormedBound : Option (Scalar Quantity) → Bool
  | none => true
  | some e => isFormed e

end

mutual

/-- Are all numbers of the expression finite? -/
def isFinite : Scalar Quantity → Bool
  | lit v => v.isFinite
  | var _ => true
  | assigned _ v => v.isFinite
  | neg e => isFinite e
  | add a b => isFinite a && isFinite b
  | mul a b => isFinite a && isFinite b
  | div a b => isFinite a && isFinite b
  | min ts => areFinite ts
  | max ts => areFinite ts
  | slice e start stop => isFinite e && isFiniteBound start && isFiniteBound stop

def areFinite : List (Scalar Quantity) → Bool
  | [] => true
  | t :: ts => isFinite t && areFinite ts

def isFiniteBound : Option (Scalar Quantity) → Bool
  | none => true
  | some e => isFinite e

end

section Reading

attribute [local simp] build firstOf buildScalar checkParts part heads lookup_cons Loaded.asScalar

mutual

/-- **A saved expression** is read back if its numbers are finite, and refused otherwise. -/
theorem ofJson_saved : ∀ {e : Scalar Quantity}, e.isFormed →
    ofJson e.saved = orRefused e.isFinite (.scalar e)
  | .lit v, h => by
    rw [isFormed] at h
    rw [saved, ofJson_one _ rfl, ofJson_str, ok_bind, isFinite]
    cases hv : v.isFinite <;> simp [Quantity.asNumber_text h, hv]
  | .var name, h => by
    rw [isFormed] at h
    rw [saved, ofJson_one _ rfl, ofJson_str, ok_bind, isFinite]
    simp [Loaded.asText, Loaded.plain, Json.asText, named, checkName_of_isOk h, Except.map]
  | .assigned name v, h => by
    rw [isFormed, and_eq_true] at h
    rw [saved, ofJson_two, ofJson_str, ok_bind, ofJson_str, ok_bind, isFinite]
    cases hv : v.isFinite <;> simp [Loaded.asText, Loaded.plain, Json.asText,
      checkName_of_isOk h.1, Quantity.asNumber_text h.2, hv]
  | .neg e, h => by
    rw [isFormed] at h
    rw [saved, ofJson_one _ rfl, ofJson_saved h, isFinite]
    cases e.isFinite <;> simp
  | .add a b, h | .mul a b, h | .div a b, h => by
    rw [isFormed, and_eq_true] at h
    rw [saved, ofJson_two, ofJson_saved h.1, ofJson_saved h.2, isFinite]
    cases a.isFinite <;> cases b.isFinite <;> simp
  | .min ts, h | .max ts, h => by
    rw [isFormed, and_eq_true] at h
    rw [saved, ofJson_one _ rfl, ofJson_arr, ofItems_savedAll h.1, isFinite]
    cases areFinite ts <;> simp [termSet_of_distinct h.2]
  | .slice e start stop, h => by
    rw [isFormed, and_eq_true, and_eq_true] at h
    rw [saved, ofJson_two, ofJson_two, ofJson_saved h.1.1, ofJson_savedBound h.1.2,
      ofJson_savedBound h.2, isFinite]
    cases e.isFinite <;> cases isFiniteBound start <;> cases isFiniteBound stop <;>
      simp [Loaded.asInterval]

theorem ofItems_savedAll : ∀ {ts : List (Scalar Quantity)}, areFormed ts →
    ofItems (savedAll ts) = orRefused (areFinite ts) (ts.map .scalar)
  | [], _ => rfl
  | t :: ts, h => by
    rw [areFormed, and_eq_true] at h
    rw [savedAll, ofItems, ofJson_saved h.1, ofItems_savedAll h.2, areFinite]
    cases t.isFinite <;> cases areFinite ts <;> rfl

theorem ofJson_savedBound : ∀ {b : Option (Scalar Quantity)}, isFormedBound b →
    ofJson (savedBound b) = orRefused (isFiniteBound b) (Loaded.ofBound b)
  | none, _ => rfl
  | some e, h => by
    rw [isFormedBound] at h
    rw [savedBound, ofJson_saved h]
    rfl

end

end Reading

theorem savedAll_eq_map (ts : List (Scalar Quantity)) : savedAll ts = ts.map saved := by
  induction ts with
  | nil => rfl
  | cons t ts ih => rw [savedAll, ih, map_cons]

theorem ofJson_saved_eq_ok {e : Scalar Quantity} {x : Loaded Quantity} (h : e.isFormed) :
    ofJson e.saved = .ok x ↔ e.isFinite ∧ x = .scalar e := by
  rw [ofJson_saved h]
  cases e.isFinite <;> simp [eq_comm]

end Scalar

namespace Interval

def isFormed (i : Interval Quantity) : Bool :=
  Scalar.isFormedBound i.start && Scalar.isFormedBound i.stop

def isFinite (i : Interval Quantity) : Bool :=
  Scalar.isFiniteBound i.start && Scalar.isFiniteBound i.stop

theorem ofJson_saved {i : Interval Quantity} (h : i.isFormed) :
    Loaded.ofJson i.saved = orRefused i.isFinite (.interval i) := by
  rw [isFormed, and_eq_true] at h
  rw [saved, ofJson_two, ofJson_savedBound h.1, ofJson_savedBound h.2, isFinite]
  cases isFiniteBound i.start <;> cases isFiniteBound i.stop <;>
    simp [build, firstOf, buildScalar, checkParts, part, heads, lookup_cons]

end Interval

end AtomArray
