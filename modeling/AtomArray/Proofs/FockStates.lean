import AtomArray.Emulator.Evolve
import AtomArray.Proofs.LevelExchange
import Mathlib.Data.Nat.Digits.Lemmas

/-!
The written configurations of a space.

The levels of the atoms are read off a configuration digit by digit for the written form, and by
division for a sample. Both give the same levels, and reading the letters back gives the
configuration (`AtomRegister.fockAt_spells`).

Reading does not count the letters, so a string can have an index without being the written form of
a configuration (`AtomRegister.indexOf_iff_fockAt_iff`).
-/

namespace AtomArray

open List Outcome

/-! ### Digits -/

section Digits

variable {levels c : Nat}

/-- The levels of the first atoms in a configuration. -/
def levelsTo (levels n c : Nat) : List Nat := (range n).map (levelOf levels · c)

theorem levelsTo_succ (n : Nat) :
    levelsTo levels (n + 1) c = c % levels :: levelsTo levels n (c / levels) := by
  simp [levelsTo, range_succ_eq_map, levelOf_eq, Nat.div_div_eq_div_mul, Nat.pow_succ',
    Function.comp_def]

theorem levelsTo_zero (n : Nat) : levelsTo levels n 0 = replicate n 0 := by
  induction n with
  | zero => rfl
  | succ n ih => rw [levelsTo_succ, Nat.zero_mod, Nat.zero_div, ih, replicate_succ]

theorem ofDigits_levelsTo {n : Nat} (hc : c < levels ^ n) :
    Nat.ofDigits levels (levelsTo levels n c) = c := by
  induction n generalizing c with
  | zero => simp_all [levelsTo]
  | succ n ih =>
    rw [levelsTo_succ, Nat.ofDigits_cons, ih (Nat.div_lt_of_lt_mul (Nat.pow_succ' ▸ hc))]
    exact Nat.mod_add_div c levels

/-- Padding the digits of a number gives the levels of the atoms. -/
theorem digitsOf_padded (hl : 2 ≤ levels) {n : Nat} (hc : c < levels ^ (n + 1)) :
    digitsOf levels c ++ replicate (n + 1 - (digitsOf levels c).length) 0 =
      levelsTo levels (n + 1) c := by
  rw [levelsTo_succ]
  fun_induction digitsOf levels c generalizing n with
  | case1 c h =>
    rw [Nat.div_eq_of_lt (h.resolve_right (by omega)), levelsTo_zero]
    rfl
  | case2 c h ih =>
    obtain _ | n := n
    · rw [Nat.zero_add, Nat.pow_one] at hc
      omega
    · rw [levelsTo_succ, ← ih (Nat.div_lt_of_lt_mul (Nat.pow_succ' ▸ hc))]
      simp

end Digits

namespace AtomKind

variable {k : AtomKind} {text text' : String} {ds ds' : List Nat} {letters : List Char}

/-- The string has the letters of the levels between its bars. -/
def Spells (k : AtomKind) (text : String) (ds : List Nat) : Prop :=
  ∃ letters, text = "|" ++ String.ofList letters ++ ">" ∧
    letters.map some = ds.map (k.letters[·]?)

theorem letter_spec {d : Nat} {l : Char} (h : k.letters[d]? = some l) :
    k.letters.idxOf? l = some d ∧ d < k.levels ∧ (l ≠ '|' && l ≠ '>') := by
  match k, d with
  | twoLevel, 0 | twoLevel, 1 | threeLevel, 0 | threeLevel, 1 | threeLevel, 2 =>
    cases h
    decide
  | twoLevel, d + 2 | threeLevel, d + 3 => simp [AtomKind.letters] at h

theorem letters_spec (h : letters.map some = ds.map (k.letters[·]?)) :
    k.ofLetters (letters.filter fun c => c ≠ '|' && c ≠ '>') = .ok (Nat.ofDigits k.levels ds) ∧
      ∀ d ∈ ds, d < k.levels := by
  induction ds generalizing letters with
  | nil =>
    obtain rfl : letters = [] := by simpa using h
    exact ⟨rfl, by simp⟩
  | cons d ds ih =>
    obtain _ | ⟨l, letters⟩ := letters
    · simp at h
    obtain ⟨hl, hrest⟩ := cons_eq_cons.mp h
    obtain ⟨hd, hlt, hbars⟩ := letter_spec hl.symm
    obtain ⟨hof, hall⟩ := ih hrest
    refine ⟨?_, forall_mem_cons.mpr ⟨hlt, hall⟩⟩
    simp only [filter_cons, hbars, if_true, ofLetters, hd, hof]
    rfl

theorem Spells.ofFock_eq (h : k.Spells text ds) :
    k.ofFock text = .ok (Nat.ofDigits k.levels ds) ∧ ∀ d ∈ ds, d < k.levels := by
  obtain ⟨letters, rfl, h⟩ := h
  have htext : ("|" ++ String.ofList letters ++ ">").toList = '|' :: (letters ++ ['>']) := by simp
  rw [ofFock, htext, filter_cons_of_neg (by decide), filter_append, filter_cons_of_neg (by decide),
    filter_nil, append_nil]
  exact letters_spec h

theorem Spells.eq (h : k.Spells text ds) (h' : k.Spells text' ds) : text = text' := by
  obtain ⟨letters, rfl, h⟩ := h
  obtain ⟨letters', rfl, h'⟩ := h'
  rw [map_injective_iff.mpr (Option.some_injective _) (h.trans h'.symm)]

theorem Spells.levels_eq (h : k.Spells text ds) (h' : k.Spells text ds') : ds = ds' := by
  obtain ⟨hof, hlt⟩ := h.ofFock_eq
  obtain ⟨hof', hlt'⟩ := h'.ofFock_eq
  have hlen : ds.length = ds'.length := by
    obtain ⟨letters, rfl, h⟩ := h
    obtain ⟨letters', heq, h'⟩ := h'
    obtain rfl : letters = letters' := by simpa using congrArg String.toList heq
    simpa using congrArg length (h.symm.trans h')
  refine Nat.ofDigits_inj_of_len_eq k.two_le_levels hlen hlt hlt' ?_
  exact Except.ok.inj (hof.symm.trans hof')

theorem getElem?_letters {d : Nat} (hd : d < k.levels) :
    k.letters[d]? = some (k.letters.getD d 'g') := by
  have : k.letters.length = k.levels := by cases k <;> rfl
  simp [this, hd]

theorem exists_spells (h : ∀ l ∈ letters, l ∈ k.letters) :
    ∃ ds, ds.length = letters.length ∧ k.Spells ("|" ++ String.ofList letters ++ ">") ds := by
  refine ⟨letters.map k.letters.idxOf, length_map .., letters, rfl, ?_⟩
  rw [map_map]
  exact map_congr_left fun l hl => (getElem?_idxOf (h l hl)).symm

/-- The written form of a configuration spells the levels of the atoms. -/
theorem fock_spells {n c : Nat} (hn : 0 < n) (hc : c < k.levels ^ n) :
    k.Spells (k.fock c n) (levelsTo k.levels n c) := by
  obtain ⟨n, rfl⟩ := Nat.exists_eq_add_of_lt hn
  simp only [Nat.zero_add] at *
  refine ⟨(levelsTo k.levels (n + 1) c).map (k.letters.getD · 'g'), ?_, ?_⟩
  · have hground : k.letters.getD 0 'g' = 'g' := by cases k <;> rfl
    have hpad (m : Nat) : ((n + 1 : Nat) - m : Int).toNat = n + 1 - m := by omega
    simp only [fock, if_neg (Int.natCast_nonneg c).not_gt, ← digitsOf_padded k.two_le_levels hc,
      map_append, map_replicate, hground, length_map, hpad, Int.toNat_natCast]
  · rw [map_map]
    refine map_congr_left fun d hd => ?_
    obtain ⟨i, -, rfl⟩ := mem_map.mp hd
    exact (getElem?_letters (levelOf_lt k.levels_pos i c)).symm

end AtomKind

/-! ### The places of written configurations -/

namespace Space

variable {s : Space} {text : String} {ds : List Nat} {i : Nat}

/-- Every configuration is a number of as many digits as there are atoms. -/
def Bounded (s : Space) : Prop := ∀ c ∈ s.configurations, c < s.kind.levels ^ s.atoms

theorem bounded_ofNear (kind : AtomKind) (n : Nat) (near : Nat → Nat → Bool) :
    (ofNear kind n near).Bounded := by
  by_cases hs : Scattered n near
  · simp [Bounded, ofNear_of_scattered hs]
  · cases n with
    | zero => exact absurd (fun i hi => by omega) hs
    | succ m =>
      simp only [Bounded, ofNear_of_not_scattered hs, mem_mergeSort]
      exact fun c hc => (((grown_spec kind.levels_pos m).2 c).mp hc).lt

theorem fockAt_eq_ok : s.fockAt i = .ok text ↔
    ∃ c, s.configurations[i]? = some c ∧ s.kind.fock c s.atoms = text := by
  rw [fockAt, if_neg (Int.natCast_nonneg i).not_gt, Int.toNat_natCast]
  split <;> simp [*]

theorem Bounded.fockAt_iff (hs : s.Bounded) (hn : 0 < s.atoms) (h : s.kind.Spells text ds) :
    s.fockAt i = .ok text ↔
      ds.length = s.atoms ∧ s.configurations[i]? = some (Nat.ofDigits s.kind.levels ds) := by
  rw [fockAt_eq_ok]
  constructor
  · rintro ⟨c, hc, rfl⟩
    have hlt := hs c (mem_of_getElem? hc)
    rw [h.levels_eq (AtomKind.fock_spells hn hlt), ofDigits_levelsTo hlt]
    exact ⟨by simp [levelsTo], hc⟩
  · rintro ⟨hlen, hc⟩
    have hlt := hs _ (mem_of_getElem? hc)
    have hds : ds = levelsTo s.kind.levels s.atoms (Nat.ofDigits s.kind.levels ds) := by
      refine Nat.ofDigits_inj_of_len_eq s.kind.two_le_levels ?_ h.ofFock_eq.2 ?_
        (ofDigits_levelsTo hlt).symm
      · simp [levelsTo, hlen]
      · exact (AtomKind.fock_spells hn hlt).ofFock_eq.2
    have hspells := AtomKind.fock_spells hn hlt
    rw [← hds] at hspells
    exact ⟨_, hc, hspells.eq h⟩

theorem Ordered.indexOf_iff (hs : s.Ordered) (h : s.kind.Spells text ds) :
    s.indexOf text = .ok i ↔ if s.full then Nat.ofDigits s.kind.levels ds = i
      else s.configurations[i]? = some (Nat.ofDigits s.kind.levels ds) := by
  rw [indexOf, h.ofFock_eq.1, ok_bind]
  split
  · simp
  · rw [← hs.regular.position?_eq_some]
    split <;> simp [*]

/-- Reading the written form of the configuration at a place gives the place. -/
theorem Ordered.indexOf_of_fockAt (hs : s.Ordered) (hb : s.Bounded) (hn : 0 < s.atoms)
    (h : s.kind.Spells text ds) (hi : s.fockAt i = .ok text) : s.indexOf text = .ok i := by
  obtain ⟨-, hc⟩ := (hb.fockAt_iff hn h).mp hi
  rw [hs.indexOf_iff h]
  split
  · rename_i hfull
    rw [hs.full hfull] at hc
    obtain ⟨_, hvalue⟩ := List.getElem?_eq_some_iff.mp hc
    simpa using hvalue.symm
  · exact hc

/-- A string of letters is read as it is written exactly if it has a letter for each atom or is
refused. -/
theorem Ordered.index_agrees_iff (hs : s.Ordered) (hb : s.Bounded) (hn : 0 < s.atoms)
    (h : s.kind.Spells text ds) :
    (∀ i : Nat, s.indexOf text = .ok i ↔ s.fockAt i = .ok text) ↔
      ds.length = s.atoms ∨ s.indexOf text = .error .stateOutsideSpace := by
  constructor
  · intro hall
    cases hindex : s.indexOf text with
    | ok i => exact .inl ((hb.fockAt_iff hn h).mp ((hall i).mp hindex)).1
    | error e =>
      right
      rw [indexOf, h.ofFock_eq.1, ok_bind] at hindex
      split at hindex <;> [cases hindex; split at hindex] <;> simp_all
  · rintro (hlen | hrefused) i
    · refine ⟨fun hi => (hb.fockAt_iff hn h).mpr ⟨hlen, ?_⟩, hs.indexOf_of_fockAt hb hn h⟩
      rw [hs.indexOf_iff h] at hi
      split at hi
      · rename_i hfull
        subst hi
        have hlt := Nat.ofDigits_lt_base_pow_length s.kind.two_le_levels h.ofFock_eq.2
        rw [hs.full hfull, getElem?_range (hlen ▸ hlt)]
      · exact hi
    · refine ⟨fun hi => ?_, fun hi => ?_⟩
      · simp [hrefused] at hi
      · simp [hs.indexOf_of_fockAt hb hn h hi] at hrefused

end Space

namespace AtomRegister

variable {N : Type} [Arith N]

theorem space_bounded {r : AtomRegister N} {s : Space} (hs : r.space = .ok s) :
    s.atoms = r.sites.length ∧ s.Bounded := by
  obtain ⟨pairs, -, h⟩ := bind_eq_ok.mp hs
  cases h
  refine ⟨?_, Space.bounded_ofNear _ _ _⟩
  simp only [Space.ofNear]
  split <;> rfl

/-- **Which strings of letters are read well.** If a register has atoms, a string has the index of the
configuration that it is written for, and no other string has one, exactly if the string has a letter
for each atom or is refused. Without atoms this is so for one string only. A full space refuses no
string of letters. -/
theorem indexOf_iff_fockAt_iff (r : AtomRegister N) (s : Space) (hs : r.space = .ok s)
    (letters : List Char) (hletters : ∀ l ∈ letters, l ∈ s.kind.letters) (text : String)
    (htext : text = "|" ++ String.ofList letters ++ ">") :
    (r.sites ≠ [] → ((∀ i : Nat, s.indexOf text = .ok i ↔ s.fockAt i = .ok text) ↔
      letters.length = r.sites.length ∨ s.indexOf text = .error .stateOutsideSpace)) ∧
    (r.sites = [] → ((∀ i : Nat, s.indexOf text = .ok i ↔ s.fockAt i = .ok text) ↔
      letters = ['g'])) ∧
    (s.full = true → ∃ i, s.indexOf text = .ok i) := by
  subst htext
  obtain ⟨hatoms, hb⟩ := space_bounded hs
  have hordered := Space.ordered_of_register hs
  obtain ⟨ds, hlen, hds⟩ := AtomKind.exists_spells hletters
  refine ⟨fun hr => ?_, fun hr => ?_, fun hfull => ⟨Nat.ofDigits s.kind.levels ds, ?_⟩⟩
  · rw [← hlen, ← hatoms]
    exact hordered.index_agrees_iff hb (hatoms ▸ length_pos_iff.mpr hr) hds
  · -- the one configuration of no atoms is written with one letter
    obtain ⟨pairs, -, h⟩ := bind_eq_ok.mp hs
    rw [hr, length_nil, Space.ofNear_of_scattered fun i hi => by omega] at h
    cases h
    have hzero : r.kind.Spells "|g>" [0] := ⟨['g'], rfl, by cases r.kind <;> rfl⟩
    have hfock : r.kind.fock 0 0 = "|g>" := by
      cases r.kind <;> simp [AtomKind.fock, digitsOf, AtomKind.levels, AtomKind.letters]
    have hone (i c : Nat) : (range (r.kind.levels ^ 0))[i]? = some c ↔ i = 0 ∧ c = 0 := by
      cases i <;> simp [eq_comm]
    simp only [hordered.indexOf_iff hds, Space.fockAt_eq_ok, hone, if_true]
    constructor
    · intro hall
      obtain ⟨c, ⟨-, rfl⟩, htext⟩ := (hall _).mp rfl
      refine append_cancel_right (show letters ++ ['>'] = ['g'] ++ ['>'] from ?_)
      simpa using (congrArg String.toList (hfock.symm.trans htext)).symm
    · rintro rfl i
      obtain rfl := hds.levels_eq hzero
      constructor
      · exact fun hi => ⟨0, ⟨by simpa using hi.symm, rfl⟩, hfock⟩
      · rintro ⟨_, ⟨hi, -⟩, -⟩
        simp [hi]
  · rw [hordered.indexOf_iff hds, if_pos hfull]

def loneAtom : AtomRegister Quantity where
  kind := .twoLevel
  sites := [(0, 0)]
  radius := 5

theorem loneAtom_space : loneAtom.space = .ok ⟨.twoLevel, 1, true, [0, 1]⟩ := by rfl

theorem loneAtom_reads_excited : ∃ s, loneAtom.space = .ok s ∧
    ∀ i : Nat, s.indexOf "|r>" = .ok i ↔ s.fockAt i = .ok "|r>" :=
  ⟨_, loneAtom_space, ((indexOf_iff_fockAt_iff loneAtom _ loneAtom_space ['r']
    (by simp [AtomKind.letters]) _ rfl).1 (by decide)).mpr (.inl rfl)⟩

/-- A string of two letters has an index in the space of one atom, where no configuration is. -/
theorem loneAtom_reads_two_letters : ∃ s, loneAtom.space = .ok s ∧ s.indexOf "|rr>" = .ok 3 ∧
    s.fockAt 3 = .error (.indexOutOfSpace 3) :=
  ⟨_, loneAtom_space, rfl, rfl⟩

end AtomRegister

end AtomArray
