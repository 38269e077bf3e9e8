import AtomArray.Proofs.Bundles
import AtomArray.Proofs.SavedWaveform
import AtomArray.Proofs.Scalar

/-!
Reading saved registers, drives and circuits back.

The parts of fields, plain pulses and plain sequences are saved under other keys than they are read
from, so none of these is read at all. What is left are joins of joins, and cuts of such joins
(`Pulse.restored_iff`, `Sequence.restored_iff`). Lattices of one length other than the square are
read back, and so is the register without sites (`Arrangement.restored_iff`).
-/

namespace AtomArray

open List Outcome Loaded Scalar
open AtomArray.Bundle (fold foldAll fold_append mapM_foldAll induct)

/-! ### Equality with itself -/

theorem Decimal.sameValue_self {d : Decimal} (h : d.isFinite) : d.sameValue d := by
  cases d with
  | finite s c e =>
    have hmagnitude : compareMagnitude c e c e = .eq := by simp [compareMagnitude]
    by_cases hc : c = 0
    · simp [sameValue, compare?, hc]
    · cases s <;> simp [sameValue, compare?, hc, hmagnitude]
  | infinite s => cases h
  | nan s g n => cases h

theorem Quantity.same_self {v : Quantity} (h : v.isFinite) : Arith.same v v := by
  cases v with
  | decimal d => exact Decimal.sameValue_self h
  | binary x => cases h

variable {N : Type}

namespace Scalar

theorem sameTerms_self [Arith N] {ts : List (Scalar N)} (h : ∀ t ∈ ts, same t t) :
    (ts.length == ts.length && allIn ts ts && ts.all fun t => isIn ts t) := by
  have hall : allIn ts ts := allIn_eq_true.mpr fun t ht => ⟨t, ht, h t ht⟩
  have hin : ∀ t ∈ ts, isIn ts t := fun t ht => isIn_eq_true.mpr ⟨t, ht, h t ht⟩
  simpa [hall] using hin

mutual

theorem same_self : ∀ {e : Scalar Quantity}, e.isFinite → same e e
  | lit v, h | assigned _ v, h => by simpa [same] using Quantity.same_self h
  | var name, _ => by simp [same]
  | neg e, h => by
    rw [same]
    exact same_self h
  | add a b, h | mul a b, h | div a b, h => by
    rw [isFinite, Bool.and_eq_true] at h
    simp [same, same_self h.1, same_self h.2]
  | min ts, h | max ts, h => by
    rw [isFinite] at h
    rw [same]
    exact sameTerms_self (same_self_of_mem h)
  | slice e start stop, h => by
    rw [isFinite, Bool.and_eq_true, Bool.and_eq_true] at h
    simp [same, same_self h.1.1, sameBound_self h.1.2, sameBound_self h.2]

theorem same_self_of_mem : ∀ {ts : List (Scalar Quantity)}, areFinite ts →
    ∀ t ∈ ts, same t t
  | [], _ => by simp
  | t :: ts, h => by
    rw [areFinite, Bool.and_eq_true] at h
    exact forall_mem_cons.mpr ⟨same_self h.1, same_self_of_mem h.2⟩

theorem sameBound_self : ∀ {b : Option (Scalar Quantity)}, isFiniteBound b →
    sameBound b b
  | none, _ => by simp [sameBound]
  | some e, h => by
    rw [sameBound]
    exact same_self h

end

end Scalar

/-! ### Objects of their parts -/

variable {j : Json} {name : String}

namespace Loaded

variable {N : Type} [Arith N]

attribute [local simp] build firstOf buildScalar buildWaveform buildRegister buildDrive
  checkArguments checkParts part

/-- The drives that are saved under another key than the one they are read from. -/
def misnamed : List (String × String) :=
  [("field", "value"), ("pulse", "fields"), ("sequence", "pulses")]

variable {head key : String}

theorem build_misnamed (h : (head, key) ∈ misnamed) (x : Loaded N) :
    build [(head, dict [(key, x)])] = .error .type := by
  simp only [misnamed, mem_cons, Prod.mk.injEq, not_mem_nil, or_false] at h
  rcases h with ⟨rfl, rfl⟩ | ⟨rfl, rfl⟩ | ⟨rfl, rfl⟩ <;>
    simp [heads, lookup_cons]

theorem misnamed_not_head (h : (head, key) ∈ misnamed) : heads.contains key = false := by
  simp only [misnamed, mem_cons, Prod.mk.injEq, not_mem_nil, or_false] at h
  rcases h with ⟨rfl, rfl⟩ | ⟨rfl, rfl⟩ | ⟨rfl, rfl⟩ <;> rfl

/-- What is saved under such a key is not read, whatever its parts are. -/
theorem ofJson_misnamed_ne_ok {β : Type} {parts : Outcome β} {inner : β → Json}
    (h : (head, key) ∈ misnamed)
    (hj : (parts >>= fun b => .ok (.obj [(head, .obj [(key, inner b)])])) = .ok j)
    (y : Loaded N) : ofJson j ≠ .ok y := by
  intro hy
  obtain ⟨b, -, hb⟩ := bind_eq_ok.mp hj
  cases hb
  rw [ofJson_one _ (misnamed_not_head h)] at hy
  obtain ⟨x, -, hx⟩ := bind_eq_ok.mp hy
  rw [build_misnamed h] at hx
  cases hx

variable (x : Loaded N)

theorem build_append_pulse : build [("append_pulse", dict [("pulses", x)])] =
    asList asPulse x >>= fun ps => .ok (pulse (.append ps)) := by
  simp [heads, lookup_cons]

theorem build_append_sequence : build [("append_sequence", dict [("sequences", x)])] =
      asList asSequence x >>= fun ss => .ok (sequence (.append ss)) := by
  simp [heads, lookup_cons]

theorem build_slice_sequence (x y : Loaded N) :
    build [("slice_sequence", dict [("sequence", x), ("interval", y)])] =
      asSequence x >>= fun s => asInterval y >>= fun i => .ok (sequence (.slice s i)) := by
  simp [heads, lookup_cons]

section Lattices

variable (s : Scalar N) (n : Int)

theorem buildLattice_eq (make : Int → Lattice N) :
    buildLattice make [("lattice_spacing", scalar s), ("L", int n)] =
      .ok (register (.plain (.ofLattice (make n) s))) := by
  simp [buildLattice, checkArguments, isWhole, isScalarLike, checkParts, spacing, castScalar, part,
    whole, lookup_cons]

/-- The lattices that are given by their name and one length. -/
def sizedLattices : List (String × (Int → Lattice N)) :=
  [("honeycomb", .honeycomb), ("triangular", .triangular), ("lieb", .lieb), ("kagome", .kagome)]

theorem build_sizedLattice {make : Int → Lattice N} (h : (name, make) ∈ sizedLattices) :
    build [(name, dict [("lattice_spacing", scalar s), ("L", int n)])] =
      .ok (register (.plain (.ofLattice (make n) s))) := by
  simp only [sizedLattices, mem_cons, Prod.mk.injEq, not_mem_nil, or_false] at h
  rcases h with ⟨rfl, rfl⟩ | ⟨rfl, rfl⟩ | ⟨rfl, rfl⟩ | ⟨rfl, rfl⟩ <;>
    simp [heads, buildLattice_eq]

theorem build_chain (vertical : Bool) :
    build [("chain", dict [("lattice_spacing", scalar s), ("L", int n),
      ("vertical_chain", bool vertical)])] =
      .ok (register (.plain (.ofLattice (.chain n vertical) s))) := by
  cases vertical <;>
    simp [heads, isWhole, isScalarLike, isFlag, spacing, castScalar, whole, lookup_cons]

theorem build_list_of_locations (items : List (Loaded N)) :
    build [("list_of_locations", dict [("location_list", list items)])] =
      if items.isEmpty then .ok (register (.plain (.list []))) else .error .argument := by
  cases items <;>
    simp [heads, lookup_cons]

end Lattices

section Parts

omit [Arith N]

theorem asPulse_eq_ok {x : Loaded N} {p : Pulse N} : asPulse x = .ok p ↔ x = .pulse p := by
  cases x <;> simp [asPulse]

theorem asSequence_eq_ok {x : Loaded N} {s : Sequence N} :
    asSequence x = .ok s ↔ x = .sequence s := by
  cases x <;> simp [asSequence]

end Parts

end Loaded

/-! ### Drives -/

theorem Field.ofJson_saved_ne_ok [Arith N] {f : Field N}
    (h : f.saved = .ok j) (x : Loaded N) : ofJson j ≠ .ok x := by
  rw [saved] at h
  exact ofJson_misnamed_ne_ok (by simp [Loaded.misnamed]) h x

namespace Pulse

variable {N : Type} [Arith N]

def Restored (p : Pulse N) : Prop := Restores saved .pulse p

theorem not_restored_fields (fs : List (FieldName × Field N)) : ¬(fields fs).Restored := by
  rintro ⟨j, hj, h⟩
  rw [saved] at hj
  exact ofJson_misnamed_ne_ok (by simp [Loaded.misnamed]) hj _ h

theorem restored_append {ps : List (Pulse N)} : Restored (.append ps) ↔ ∀ p ∈ ps, p.Restored := by
  have hsaved : mapM id (foldAll _ ps) = ps.mapM saved := mapM_foldAll _ ps
  refine restores_list rfl (by rw [← hsaved]; rfl) fun x => ?_
  simp [build_append_pulse, bind_eq_ok, asList_eq_ok asPulse_eq_ok]

/-- Does the pulse consist of joins only? -/
def isJoins : Pulse N → Bool := fold {
  members := fun _ => false
  named := fun _ _ => false
  append := (·.all id)
  slice := fun _ _ => false }

theorem restored_iff {p : Pulse N} : p.Restored ↔ p.isJoins := by
  induction p using induct with
  | members fs => simp [not_restored_fields, isJoins, fold]
  | named _ _ | slice _ _ => simp [Restored, Restores, saved, isJoins, fold]
  | append ps ih => simpa [restored_append, isJoins, fold_append] using forall₂_congr ih

end Pulse

namespace Sequence

section Parts

variable {N : Type} [Arith N]

def Restored (s : Sequence N) : Prop := Restores saved .sequence s

theorem not_restored_pulses (ps : List (Coupling × Pulse N)) : ¬(pulses ps).Restored := by
  rintro ⟨j, hj, h⟩
  rw [saved] at hj
  exact ofJson_misnamed_ne_ok (by simp [Loaded.misnamed]) hj _ h

theorem restored_append {ss : List (Sequence N)} :
    Restored (.append ss) ↔ ∀ s ∈ ss, s.Restored := by
  have hsaved : mapM id (foldAll _ ss) = ss.mapM saved := mapM_foldAll _ ss
  refine restores_list rfl (by rw [← hsaved]; rfl) fun x => ?_
  simp [build_append_sequence, bind_eq_ok, asList_eq_ok asSequence_eq_ok]

end Parts

variable {s : Sequence Quantity}

theorem restored_slice {i : Interval Quantity} (hi : i.isFormed) :
    Restored (.slice s i) ↔ s.Restored ∧ i.isFinite := by
  refine restores_body rfl (fun j => ofJson_two _ _ _ j i.saved)
    fun x => ?_
  rw [Interval.ofJson_saved hi]
  cases i.isFinite <;>
    simp [build_slice_sequence, Loaded.asInterval, bind_eq_ok, asSequence_eq_ok]

/-- Are the times at which the sequence is cut as the operations build them? -/
def isFormed : Sequence Quantity → Bool := fold {
  members := fun _ => true
  append := (·.all id)
  slice := fun s i => s && i.isFormed }

/-- Does the sequence consist of joins, and of cuts at finite times, only? -/
def isJoins : Sequence Quantity → Bool := fold {
  members := fun _ => false
  named := fun _ _ => false
  append := (·.all id)
  slice := fun s i => s && i.isFinite }

theorem restored_iff (h : s.isFormed) : s.Restored ↔ s.isJoins := by
  induction s using induct with
  | members ps => simp [not_restored_pulses, isJoins, fold]
  | named s name => simp [Restored, Restores, saved, isJoins, fold]
  | append ss ih =>
    simp only [isFormed, fold_append, all_map, all_eq_true] at h
    simpa [restored_append, isJoins, fold_append] using forall₂_congr fun s hs => ih s hs (h s hs)
  | slice s i ih =>
    rw [isFormed, fold, Bool.and_eq_true] at h
    rw [restored_slice h.2, ih h.1, isJoins, fold, Bool.and_eq_true]

end Sequence

/-! ### Registers -/

namespace Arrangement

/-- The arrangement is read back from its saved form, as one that the program finds equal. -/
def Restored (a : Arrangement Quantity) : Prop :=
  ∃ j b, a.saved = .ok j ∧ ofJson j = .ok (.register b) ∧ b.same a

/-- Is the spacing of a lattice as the operations build it? -/
def isFormed : Arrangement Quantity → Bool
  | plain (.lattice _ s _) => s.isFormed
  | _ => true

/-- Is it a lattice of one length other than the square, with a finite spacing, or a register
without sites? -/
def isPlainLattice : Arrangement Quantity → Bool
  | plain (.list ss) => ss.isEmpty
  | plain (.lattice (.square _) _ _) => false
  | plain (.lattice (.rectangular ..) _ _) => false
  | plain (.lattice _ s _) => s.isFinite
  | tiled _ => false

theorem restored_list {ss : List (Site Quantity)} : (plain (.list ss)).Restored ↔ ss = [] := by
  constructor
  · rintro ⟨j, b, hj, hb, -⟩
    cases hj
    rw [ofJson_one _ rfl, ofJson_arr, bind_assoc] at hb
    obtain ⟨items, hitems, hb⟩ := bind_eq_ok.mp hb
    rw [ok_bind, build_list_of_locations] at hb
    have hempty : items = [] := by
      cases items with
      | nil => rfl
      | cons => simp at hb
    rw [ofItems_eq_mapM, mapM_eq_ok_iff, hempty] at hitems
    simpa using hitems
  · rintro rfl
    exact ⟨_, plain (.list []), rfl, rfl, rfl⟩

variable {s : Scalar Quantity}

theorem ofJson_savedLattice {make : Int → Lattice Quantity}
    {n : Int} (hs : s.isFormed) (hname : (name, make) ∈ Loaded.sizedLattices) :
    ofJson (Register.savedLattice name n s) =
      orRefused s.isFinite (.register (.plain (.ofLattice (make n) s))) := by
  rw [Register.savedLattice, ofJson_two, ofJson_saved hs]
  cases s.isFinite with
  | false => rfl
  | true => exact build_sizedLattice s n hname

/-- A lattice is laid out again with its spacing; scaling it before makes no difference. -/
theorem restored_lattice {l : Lattice Quantity} {scaled : Bool}
    (hl : l.same l) (hsaved : (plain (.lattice l s scaled)).saved = .ok j)
    (hread : ofJson j = orRefused s.isFinite (.register (.plain (.ofLattice l s)))) :
    (plain (.lattice l s scaled)).Restored ↔ s.isFinite := by
  cases hfinite : s.isFinite with
  | false => simp [Restored, hsaved, hread, hfinite]
  | true =>
    have hsame : (plain (.ofLattice l s)).same (plain (.lattice l s scaled)) := by
      simp [same, Register.same, Register.ofLattice, hl, same_self hfinite]
    exact iff_of_true ⟨j, _, hsaved, by rw [hread, hfinite]; rfl, hsame⟩ rfl

theorem restored_iff {a : Arrangement Quantity} (h : a.isFormed) :
    a.Restored ↔ a.isPlainLattice := by
  cases a with
  | tiled t => simp [Restored, saved, isPlainLattice, bind_eq_ok]
  | plain r =>
    cases r with
    | list ss => rw [restored_list, isPlainLattice, List.isEmpty_iff]
    | lattice l s scaled =>
      have hs : s.isFormed := h
      cases l with
      | chain n vertical =>
        refine restored_lattice (by simp [Lattice.same]) rfl ?_
        rw [ofJson_three, ofJson_saved hs]
        cases s.isFinite with
        | false => rfl
        | true => exact build_chain s n vertical
      | square | rectangular => simp [Restored, saved, Register.saved, isPlainLattice]
      | honeycomb n | triangular n | lieb n | kagome n =>
        exact restored_lattice (by simp [Lattice.same]) rfl
          (ofJson_savedLattice hs (by simp [Loaded.sizedLattices]))

end Arrangement

/-! ### Circuits -/

namespace Circuit

theorem saved_ne_ok [Arith N] (c : Circuit N) (j : Json) : c.saved ≠ .ok j := by
  simp [saved, bind_eq_ok]

/-- **What is read back of a circuit.** Circuits are never saved, and saved fields never read. A
pulse is read back exactly if it consists of joins, a sequence if it consists of joins and cuts, and
a register if it is empty or a lattice of one length other than the square. -/
theorem parts_restored_iff (c : Circuit Quantity) (f : Field Quantity) (p : Pulse Quantity)
    (s : Sequence Quantity) (a : Arrangement Quantity) (hs : s.isFormed = true)
    (ha : a.isFormed = true) :
    (∀ j, c.saved ≠ .ok j) ∧
    (∀ (j : Json) (x : Loaded Quantity), f.saved = .ok j → ofJson j ≠ .ok x) ∧
    ((∃ j, p.saved = .ok j ∧ ofJson j = .ok (.pulse p)) ↔ p.isJoins = true) ∧
    ((∃ j, s.saved = .ok j ∧ ofJson j = .ok (.sequence s)) ↔ s.isJoins = true) ∧
    ((∃ j b, a.saved = .ok j ∧ ofJson j = .ok (.register b) ∧ b.same a = true) ↔
      a.isPlainLattice = true) := by
  refine ⟨c.saved_ne_ok, ?_, ?_, ?_, ?_⟩
  · intro j x hj
    exact Field.ofJson_saved_ne_ok hj x
  · exact Pulse.restored_iff
  · exact Sequence.restored_iff hs
  · exact Arrangement.restored_iff ha

/-- The first unit of time of a join of nothing. -/
def emptyStart : Sequence Quantity := .slice (.append [.append []]) ⟨none, some (.lit 1)⟩

/-- A lattice that was scaled. -/
def scaledKagome : Arrangement Quantity := .plain (.lattice (.kagome 2) (.var "a") true)

theorem emptyStart_and_scaledKagome_restored : (emptyStart.isFormed = true ∧
      ∃ j, emptyStart.saved = .ok j ∧ ofJson j = .ok (.sequence emptyStart)) ∧
    scaledKagome.isFormed = true ∧
      ∃ j b, scaledKagome.saved = .ok j ∧ ofJson j = .ok (.register b) ∧
        b.same scaledKagome = true := by
  have hstart : emptyStart.isFormed = true := by
    have hone : (1 : Decimal).inRange = true := by decide
    simp [emptyStart, Sequence.isFormed, fold, foldAll, Interval.isFormed,
      isFormedBound, isFormed, Quantity.isWritable, hone]
  have hkagome : scaledKagome.isFormed = true := by
    have hname : (checkName "a").isOk = true := by decide
    simp [scaledKagome, Arrangement.isFormed, isFormed, hname]
  obtain ⟨-, -, -, hsequence, hregister⟩ := parts_restored_iff ⟨scaledKagome, emptyStart⟩ ⟨[]⟩
    (.append []) emptyStart scaledKagome hstart hkagome
  exact ⟨⟨hstart, hsequence.mpr rfl⟩, hkagome, hregister.mpr rfl⟩

/-- One atom under a detuning by a vector of coefficients. -/
def detunedAtom : Circuit Quantity where
  register := .plain (.list [⟨.lit 0, .lit 0, true⟩])
  sequence := .pulses [(.rydberg, .fields [(.detuning,
    ⟨[(.vector "v", .constant (.lit 1) (.lit 1))]⟩)])]

/-- The register of the circuit and its sequence are saved, and neither is read; the circuit is not
even saved. -/
theorem detunedAtom_not_restored : (∃ j, detunedAtom.register.saved = .ok j ∧
      (ofJson j : Outcome (Loaded Quantity)) = .error .argument) ∧
    (∃ j, detunedAtom.sequence.saved = .ok j ∧
      (ofJson j : Outcome (Loaded Quantity)) = .error .type) ∧
    detunedAtom.saved = .error .part :=
  ⟨⟨_, rfl, rfl⟩, ⟨_, rfl, rfl⟩, rfl⟩

end Circuit

end AtomArray
