import AtomArray.Number.Binary
import AtomArray.Proofs.DecimalText

/-!
Reading the text of a binary number as a decimal.

The shortest text of a finite binary number is a numeral in the sense of `Decimal.Written`: no digit
is a zero in front, and its exponent is small (`Binary.shortest_bounds`). What it writes is
`Binary.textDecimal` (`Binary.exists_written`).
-/

namespace AtomArray.Binary

open List Nat

open AtomArray.Text AtomArray.Decimal

/-! ### Sizes -/

theorem pow_ten_le (n : Nat) : Nat.pow 10 n ≤ Nat.pow 2 (4 * n) := by
  have hten : Nat.pow 10 n ≤ Nat.pow (Nat.pow 2 4) n := Nat.pow_le_pow_left (by decide) n
  rwa [show Nat.pow (Nat.pow 2 4) n = Nat.pow 2 (4 * n) from (pow_mul 2 4 n).symm] at hten

theorem mul_lt_pow {m n a b : Nat} (hm : m < Nat.pow 2 a) (hn : n ≤ Nat.pow 2 b) :
    m * n < Nat.pow 2 (a + b) := by
  rw [show Nat.pow 2 (a + b) = Nat.pow 2 a * Nat.pow 2 b from pow_add 2 a b]
  exact Nat.mul_lt_mul_of_lt_of_le hm hn (Nat.pow_pos (by decide))

theorem mul_le_pow {m n a b : Nat} (hm : m ≤ Nat.pow 2 a) (hn : n ≤ Nat.pow 2 b) :
    m * n ≤ Nat.pow 2 (a + b) := by
  rw [show Nat.pow 2 (a + b) = Nat.pow 2 a * Nat.pow 2 b from pow_add 2 a b]
  exact Nat.mul_le_mul hm hn

theorem digitCount_le {n k : Nat} (h : n < Nat.pow 2 k) : digitCount n ≤ k + 2 := by
  unfold digitCount
  by_cases hsmall : n < 10
  · rw [if_pos hsmall]
    omega
  · have hlog : n.log2 < k := (log2_lt (by omega)).mpr h
    have hscaled : n.log2 * 30103 / 100000 ≤ k := by omega
    rw [if_neg hsmall]
    dsimp only
    split_ifs <;> omega

theorem parts_bounds (x : Float) :
    (parts x).m < Nat.pow 2 53 ∧ -1074 ≤ (parts x).q ∧ (parts x).q ≤ 972 := by
  have hfrac : x.toBits.toNat % Nat.pow 2 52 < Nat.pow 2 52 := mod_lt _ (by decide)
  have hfield : x.toBits.toNat / Nat.pow 2 52 % Nat.pow 2 11 < 2048 := mod_lt _ (by decide)
  have hdouble : Nat.pow 2 53 = Nat.pow 2 52 + Nat.pow 2 52 := by decide
  unfold parts
  dsimp only
  split_ifs with hzero
  · exact ⟨by dsimp only; omega, by dsimp only; omega, by dsimp only; omega⟩
  · exact ⟨by dsimp only; omega, by dsimp only; omega, by dsimp only; omega⟩

/-! ### The digits -/

variable {p : Parts} {d : Nat} {k : Int}

theorem roundsTo_bounds (hm : 0 < p.m)
    (h : roundsTo p k d) : 0 < d ∧ d ≤ (4 * p.m + 2) * quarterNum p k := by
  have hnum : 0 < quarterNum p k := Nat.mul_pos (Nat.pow_pos (by decide)) (Nat.pow_pos (by decide))
  have hden : 0 < quarterDen p k := Nat.mul_pos (Nat.pow_pos (by decide)) (Nat.pow_pos (by decide))
  unfold roundsTo at h
  generalize hbelow : (if p.m = Nat.pow 2 52 ∧ p.q ≠ -1074 then 1 else 2) = below at h
  have hlow : 0 < (4 * p.m - below) * quarterNum p k := by
    have hle : below ≤ 2 := by
      rw [← hbelow]
      split_ifs <;> omega
    exact mul_pos (by omega) hnum
  have hbetween : (4 * p.m - below) * quarterNum p k ≤ d * quarterDen p k ∧
      d * quarterDen p k ≤ (4 * p.m + 2) * quarterNum p k := by
    dsimp only at h
    split_ifs at h
    · simpa using h
    · simp only [Bool.and_eq_true, decide_eq_true_eq] at h
      omega
  constructor
  · exact Nat.pos_of_mul_pos_right (Nat.lt_of_lt_of_le hlow hbetween.1)
  · exact Nat.le_trans (Nat.le_mul_of_pos_right d hden) hbetween.2

theorem roundsTo_of_candidate? (h : candidate? p k = some d) : roundsTo p k d := by
  unfold candidate? at h
  dsimp only at h
  split_ifs at h with _ h₁ h₂ h₃ h₄
  · exact Option.some.inj h ▸ h₁
  · exact Option.some.inj h ▸ h₂
  · exact Option.some.inj h ▸ h₃
  · exact Option.some.inj h ▸ h₄

theorem candidate?_lt (hm : 0 < p.m) (hlarge : p.m < Nat.pow 2 53) (h : candidate? p k = some d) :
    0 < d ∧ d < Nat.pow 2 (56 + (p.q.toNat + 4 * (-k).toNat)) := by
  obtain ⟨hpos, hle⟩ := roundsTo_bounds hm (roundsTo_of_candidate? h)
  have hfour : 4 * p.m + 2 < Nat.pow 2 56 := by
    have hdouble : Nat.pow 2 56 = 8 * Nat.pow 2 53 := by decide
    have hsome : 0 < Nat.pow 2 53 := by decide
    omega
  have htwo : Nat.pow 2 (p.q - 2).toNat ≤ Nat.pow 2 p.q.toNat :=
    Nat.pow_le_pow_right (by decide) (by omega)
  exact ⟨hpos, lt_of_le_of_lt hle (mul_lt_pow hfour (mul_le_pow htwo (pow_ten_le _)))⟩

/-- The search ends with a positive number, of not too many digits, at one of the powers it may
try. -/
theorem searchDigits_bounds (hm : 0 < p.m) (hlarge : p.m < Nat.pow 2 53) (fuel : Nat) (k : Int) :
    0 < (searchDigits fuel p k).1 ∧
      (searchDigits fuel p k).1 < Nat.pow 2 (56 + (p.q.toNat + 4 * (fuel - k).toNat)) ∧
      k - fuel ≤ (searchDigits fuel p k).2 ∧ (searchDigits fuel p k).2 ≤ k := by
  induction fuel generalizing k with
  | zero =>
    unfold searchDigits
    cases hd : candidate? p k with
    | none =>
      refine ⟨by simp, ?_, by simp, by simp⟩
      exact Nat.one_lt_two_pow (by omega)
    | some d =>
      obtain ⟨hpos, hlt⟩ := candidate?_lt hm hlarge hd
      refine ⟨hpos, ?_, by simp, by simp⟩
      simpa using hlt
  | succ fuel ih =>
    unfold searchDigits
    cases hd : candidate? p k with
    | none =>
      obtain ⟨hpos, hlt, hlow, hhigh⟩ := ih (k - 1)
      have hfuel : ((fuel : Int) - (k - 1)).toNat = (((fuel + 1 : Nat) : Int) - k).toNat := by omega
      rw [hfuel] at hlt
      dsimp only
      exact ⟨hpos, hlt, by omega, by omega⟩
    | some d =>
      obtain ⟨hpos, hlt⟩ := candidate?_lt hm hlarge hd
      refine ⟨hpos, lt_of_lt_of_le hlt ?_, by simp; omega, by simp⟩
      exact Nat.pow_le_pow_right (by decide) (by omega)

theorem stripZeros_bounds (fuel : Nat) {c : Nat} (hc : 0 < c) (e limit : Int) :
    0 < (stripZeros fuel c e limit).1 ∧ (stripZeros fuel c e limit).1 ≤ c ∧
      e ≤ (stripZeros fuel c e limit).2 ∧ (stripZeros fuel c e limit).2 ≤ e + fuel := by
  induction fuel generalizing c e with
  | zero => simpa [stripZeros] using hc
  | succ fuel ih =>
    unfold stripZeros
    split_ifs with h
    · obtain ⟨hpos, hle, hlow, hhigh⟩ := ih (c := c / 10) (by omega) (e + 1)
      exact ⟨hpos, by omega, by omega, by omega⟩
    · exact ⟨hc, le_refl c, Int.le_refl e, by omega⟩

theorem leadingExponent_bounds {num den a b : Nat} (hnum : num < Nat.pow 2 a)
    (hden : den < Nat.pow 2 b) :
    -(b + 3 : Int) ≤ leadingExponent num den ∧ leadingExponent num den ≤ a + 2 := by
  have hn := digitCount_le hnum
  have hd := digitCount_le hden
  unfold leadingExponent
  dsimp only
  split_ifs <;> omega

theorem shortest_bounds (hm : 0 < p.m) (hlarge : p.m < Nat.pow 2 53) (hlow : -1074 ≤ p.q)
    (hhigh : p.q ≤ 972) :
    0 < (shortest p).1 ∧ -1200 ≤ (shortest p).2 ∧ (shortest p).2 ≤ 1200 ∧
      ∃ k, (shortest p).1 < Nat.pow 2 k ∧ k ≤ 6000 := by
  have hnum : p.num < Nat.pow 2 (53 + p.q.toNat) := mul_lt_pow hlarge (le_refl _)
  have hden : p.den < Nat.pow 2 ((-p.q).toNat + 1) :=
    Nat.pow_lt_pow_right (by decide) (Nat.lt_succ_self _)
  obtain ⟨hk, hk'⟩ := leadingExponent_bounds hnum hden
  unfold shortest
  generalize leadingExponent p.num p.den = k at hk hk'
  obtain ⟨hpos, hlt, hk₁, hk₂⟩ := searchDigits_bounds hm hlarge 18 (k + 1)
  obtain ⟨hpos', hle, hk₃, hk₄⟩ := stripZeros_bounds 20 hpos (searchDigits 18 p (k + 1)).2
    ((searchDigits 18 p (k + 1)).2 + 20)
  dsimp only
  exact ⟨hpos', by omega, by omega, _, lt_of_le_of_lt hle hlt, by omega⟩

/-! ### The text -/

theorem exponentPart_written (x : Int) : ExponentPart x (exponentPart x).toList := by
  have hdigits := areDigits_toDigits x.natAbs
  have hsign : (if x < 0 then "e-" else "e+").toList = ['e', if x < 0 then '-' else '+'] := by
    split_ifs <;> rfl
  have hrepr : (toString x.natAbs).toList = Nat.toDigits 10 x.natAbs := by
    rw [toString_eq_repr, toList_repr]
  unfold exponentPart
  dsimp only
  rw [String.toList_append, hsign]
  by_cases hshort : (toString x.natAbs).length < 2
  · rw [if_pos hshort, String.toList_append, hrepr]
    refine .marked x (.inr rfl) ((areDigits_replicate 1).append hdigits) (by simp) ?_
    exact (digitsValue_zeros hdigits 1).trans (digitsValue_toDigits _)
  · rw [if_neg hshort, hrepr]
    exact .marked x (.inr rfl) hdigits toDigits_ne_nil (digitsValue_toDigits _)

theorem written_padded (hd : 0 < d) (n : Nat) : Written (d * Nat.pow 10 (n + 1)) (-1)
      (Nat.toDigits 10 d ++ replicate n '0' ++ ['.', '0']) := by
  have hdigits := (areDigits_toDigits d).append (areDigits_replicate n)
  have hwhole : WholePart (Nat.toDigits 10 d ++ replicate n '0') := by
    refine ⟨hdigits, by simp, ?_⟩
    intro hhead
    cases hcons : Nat.toDigits 10 d with
    | nil => exact absurd hcons toDigits_ne_nil
    | cons c cs =>
      rw [hcons] at hhead
      exact absurd (by simpa [hcons] using hhead) (head_toDigits hd)
  have hvalue : digitsValue 0 (Nat.toDigits 10 d ++ replicate n '0' ++ ['0']) =
      d * Nat.pow 10 (n + 1) := by
    have hzeros : replicate n '0' ++ ['0'] = replicate (n + 1) '0' := by
      rw [replicate_succ']
    rw [append_assoc, hzeros, digitsValue_eq ((areDigits_toDigits d).append
      (areDigits_replicate _)), ofDigitChars_append, ofDigitChars_ten_toDigits,
      ofDigitChars_replicate_zero]
    exact mul_comm _ _
  have hwritten := Written.pointed (e := -1) hwhole (areDigits_replicate 1) (by simp) hvalue .absent
    (by simp)
  simpa using hwritten

theorem written_magnitudeText (hshortest : shortest p = (d, k)) (hd : 0 < d) :
    if ((toString d).length : Int) + k ≤ 16 ∧ 0 ≤ k then
      Written (d * Nat.pow 10 (k.toNat + 1)) (-1) (magnitudeText p).toList
    else Written d k (magnitudeText p).toList := by
  have hone : 0 < (Nat.toDigits 10 d).length := length_pos_iff.mpr toDigits_ne_nil
  unfold magnitudeText pointAfter
  rw [hshortest]
  simp only [length_toString]
  generalize hn : (Nat.toDigits 10 d).length = n at hone ⊢
  by_cases hplain : -4 < (n : Int) + k ∧ (n : Int) + k ≤ 16
  · rw [if_pos hplain]
    by_cases hsmall : (n : Int) + k ≤ 0
    · rw [if_pos hsmall, if_neg (by omega)]
      have hwritten := written_small (c := d) (n := (-((n : Int) + k)).toNat) (e := k) (by omega)
      simpa using hwritten
    · rw [if_neg hsmall]
      by_cases hwhole : 0 ≤ k
      · rw [if_pos ⟨hplain.2, hwhole⟩, if_pos (by omega),
          show ((n : Int) + k - n).toNat = k.toNat by omega]
        have hwritten := written_padded hd k.toNat
        simpa using hwritten
      · rw [if_neg (by omega), if_neg (by omega)]
        have hwritten := written_split (c := d) (n := ((n : Int) + k).toNat) (e := k) (by omega)
          (by omega) .absent (by omega)
        simpa using hwritten
  · rw [if_neg hplain, if_neg (by omega)]
    have htail := exponentPart_written ((n : Int) + k - 1)
    by_cases hwhole : n = 1
    · rw [if_pos hwhole, show (n : Int) + k - 1 = k by omega] at *
      simpa using written_digits d htail
    · rw [if_neg hwhole]
      have hwritten := written_split (c := d) (n := 1) (e := k) (by omega) (by omega) htail
        (by omega)
      simpa using hwritten

theorem exists_mark (p : Parts) : ∃ c ∈ (magnitudeText p).toList, c.isDigit = false := by
  have hexponent : ∀ e, 'e' ∈ (exponentPart e).toList := by
    intro e
    unfold exponentPart
    dsimp only
    split_ifs <;> simp
  unfold magnitudeText pointAfter
  dsimp only
  split_ifs
  · exact ⟨'.', by simp, rfl⟩
  · exact ⟨'.', by simp, rfl⟩
  · exact ⟨'.', by simp, rfl⟩
  all_goals
    refine ⟨'e', ?_, rfl⟩
    rw [String.toList_append]
    exact mem_append_right _ (hexponent _)

theorem inRange_of_small {s : Bool} {c k : Nat} {e : Int} (hc : c < Nat.pow 2 k) (hk : k ≤ 12000)
    (hlow : -1200 ≤ e) (hhigh : e ≤ 1200) : inRange (.finite s c e) := by
  have hcount := digitCount_le hc
  have htop : e + digitCount c - 1 ≤ widestExponent := by
    unfold widestExponent
    omega
  have hbottom : -2 * widestExponent + 1 ≤ e := by
    unfold widestExponent
    omega
  rw [inRange, decide_eq_true htop, decide_eq_true hbottom, Bool.and_self]

/-- **The text of a finite binary number** is a numeral with a point or an exponent, and what it
writes is the decimal of the number. -/
theorem exists_written {x : Float} (hnan : x.isNaN = false) (hinf : x.isInf = false) :
    ∃ c e cs, (text x).toList = signChars (isNegative x) ++ cs ∧ Written c e cs ∧
      (∃ d ∈ cs, d.isDigit = false) ∧ textDecimal x = .finite (isNegative x) c e ∧
      inRange (.finite (isNegative x) c e) := by
  have hsign : (if isNegative x then "-" else "").toList = signChars (isNegative x) := by
    cases isNegative x <;> rfl
  have hplain : text x = (if isNegative x then "-" else "") ++
      (if (parts x).m = 0 then "0.0" else magnitudeText (parts x)) := by
    rw [text, hnan, hinf]
    rfl
  by_cases hzero : (parts x).m = 0
  · refine ⟨0, -1, ['0', '.', '0'], ?_, ?_, ⟨'.', by simp, rfl⟩, ?_, rfl⟩
    · rw [hplain, if_pos hzero, String.toList_append, hsign]
      rfl
    · exact Written.pointed (wholePart_toDigits 0) (areDigits_replicate 1) (by simp) rfl .absent
        (by simp)
    · rw [textDecimal, hnan, hinf]
      exact if_pos hzero
  · obtain ⟨hlarge, hlow, hhigh⟩ := parts_bounds x
    have hbounds := shortest_bounds (by omega) hlarge hlow hhigh
    have htext : (text x).toList =
        signChars (isNegative x) ++ (magnitudeText (parts x)).toList := by
      rw [hplain, if_neg hzero, String.toList_append, hsign]
    cases hshortest : shortest (parts x) with
    | mk d k =>
      rw [hshortest] at hbounds
      obtain ⟨hpos, hk, hk', j, hlt, hj⟩ := hbounds
      dsimp only at hpos hk hk' hlt
      have hwritten := written_magnitudeText hshortest hpos
      by_cases hwhole : ((toString d).length : Int) + k ≤ 16 ∧ 0 ≤ k
      · rw [if_pos hwhole] at hwritten
        refine ⟨_, _, _, htext, hwritten, exists_mark _, ?_, ?_⟩
        · simp only [textDecimal, hnan, hinf, hzero, hshortest, Bool.false_eq_true, if_false]
          rw [if_pos hwhole]
        · exact inRange_of_small (mul_lt_pow hlt (pow_ten_le (k.toNat + 1))) (by omega) (by decide)
            (by decide)
      · rw [if_neg hwhole] at hwritten
        refine ⟨_, _, _, htext, hwritten, exists_mark _, ?_, inRange_of_small hlt (by omega) hk hk'⟩
        simp only [textDecimal, hnan, hinf, hzero, hshortest, Bool.false_eq_true, if_false]
        rw [if_neg hwhole]

end AtomArray.Binary
