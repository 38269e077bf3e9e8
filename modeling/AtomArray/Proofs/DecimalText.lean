import AtomArray.Number.Decimal
import Mathlib.Tactic.IntervalCases

/-!
Reading the text of a decimal back.

`Written c e cs` says that the characters are digits with at most one point among them, without
needless zeros in front, perhaps with an exponent, and have the coefficient `c` and the exponent
`e`. What is written is of this form (`written_magnitudeText`), and what is of this form is read as
that number (`Written.readFinite?_eq`) as long as a number may have the exponent. So every such
decimal is read back from its text (`ofText?_text`).
-/

namespace AtomArray.Decimal

open List Nat

open AtomArray.Text

/-! ### Digits -/

def AreDigits (cs : List Char) : Prop := ∀ c ∈ cs, c.isDigit

variable {cs : List Char}
variable {ds : List Char}

theorem AreDigits.append (hcs : AreDigits cs) (hds : AreDigits ds) : AreDigits (cs ++ ds) :=
  forall_mem_append.mpr ⟨hcs, hds⟩

theorem areDigits_toDigits (n : Nat) : AreDigits (Nat.toDigits 10 n) :=
  fun _ hc => isDigit_of_mem_toDigits (by decide) (by decide) hc

theorem areDigits_replicate (n : Nat) : AreDigits (replicate n '0') := by
  intro c hc
  rw [eq_of_mem_replicate hc]
  rfl

theorem toNat_of_isDigit {c : Char} (h : c.isDigit) : 48 ≤ c.toNat ∧ c.toNat ≤ 57 := by
  simpa [Char.isDigit, UInt32.le_iff_toNat_le] using h

theorem toLower_of_isDigit {c : Char} (h : c.isDigit) : c.toLower = c := by
  obtain ⟨-, htop⟩ := toNat_of_isDigit h
  unfold Char.toLower
  rw [dif_neg]
  rintro ⟨hletter, -⟩
  simp only [ge_iff_le, UInt32.le_iff_toNat_le, Char.toNat_val] at hletter
  exact absurd (le_trans hletter htop) (by decide)

theorem isDigitChar_of_isDigit {c : Char} (h : c.isDigit) : isDigitChar c := by
  simp [isDigitChar, digitValue?, h]

theorem digitsValue_eq (h : AreDigits cs) (acc : Nat) :
    digitsValue acc cs = Nat.ofDigitChars 10 cs acc := by
  induction cs generalizing acc with
  | nil => rfl
  | cons c cs ih =>
    obtain ⟨hc, hcs⟩ := forall_mem_cons.mp h
    rw [digitsValue, ih hcs, ofDigitChars_cons]
    simp [digitValue?, hc]

@[simp]
theorem digitsValue_toDigits (n : Nat) : digitsValue 0 (Nat.toDigits 10 n) = n := by
  rw [digitsValue_eq (areDigits_toDigits n), ofDigitChars_ten_toDigits]

theorem digitsValue_zeros (h : AreDigits cs) (n : Nat) :
    digitsValue 0 (replicate n '0' ++ cs) = digitsValue 0 cs := by
  rw [digitsValue_eq ((areDigits_replicate n).append h), digitsValue_eq h,
    ofDigitChars_append, ofDigitChars_replicate_zero, mul_zero]

@[simp]
theorem toList_times_zero (n : Nat) : (times n "0").toList = replicate n '0' := by
  rw [times, String.toList_join]
  induction n with
  | zero => rfl
  | succ n ih => rw [replicate_succ, flatMap_cons, ih]; rfl

/-- The digits before a point: at least one, and no zero before others. -/
structure WholePart (ds : List Char) : Prop where
  digits : AreDigits ds
  nonempty : ds ≠ []
  leading : ds.head? = some '0' → ds = ['0']

variable {n : Nat}

theorem head_toDigits (hn : 0 < n) : (Nat.toDigits 10 n).head? ≠ some '0' := by
  induction n using Nat.strongRecOn with
  | ind n ih =>
    by_cases hsmall : n < 10
    · rw [toDigits_of_lt_base hsmall]
      revert hn
      interval_cases n <;> simp [Nat.digitChar]
    · have hrest := ih (n / 10) (by omega) (by omega)
      rw [toDigits_of_base_le (by decide) (by omega)]
      cases hdigits : Nat.toDigits 10 (n / 10) with
      | nil => exact absurd hdigits toDigits_ne_nil
      | cons d ds => simpa [hdigits] using hrest

theorem wholePart_toDigits (n : Nat) : WholePart (Nat.toDigits 10 n) where
  digits := areDigits_toDigits n
  nonempty := toDigits_ne_nil
  leading hhead := by
    rcases Nat.eq_zero_or_pos n with rfl | hn
    · rfl
    · exact absurd hhead (head_toDigits hn)

/-! ### Exponents -/

/-- The end of a number: nothing, or a written exponent. -/
inductive ExponentPart : Int → List Char → Prop where
  | absent : ExponentPart 0 []
  | marked {m : Char} {ds : List Char} (x : Int) : m = 'E' ∨ m = 'e' → AreDigits ds → ds ≠ [] →
      digitsValue 0 ds = x.natAbs → ExponentPart x (m :: (if x < 0 then '-' else '+') :: ds)

theorem toList_exponentText (x : Int) :
    (exponentText x).toList = (if x < 0 then '-' else '+') :: Nat.toDigits 10 x.natAbs := by
  unfold exponentText
  split <;> simp [toString]

theorem exponentPart_exponentText (x : Int) : ExponentPart x ('E' :: (exponentText x).toList) := by
  rw [toList_exponentText]
  exact .marked x (.inl rfl) (areDigits_toDigits _) toDigits_ne_nil (digitsValue_toDigits _)

variable {x : Int}

theorem ExponentPart.readExponent?_eq (h : ExponentPart x cs) : readExponent? cs = some x := by
  cases h with
  | absent => rfl
  | @marked m ds x hm hds hne hvalue =>
    have hdigits : ds.all isDigitChar :=
      all_eq_true.mpr fun c hc => isDigitChar_of_isDigit (hds c hc)
    have hmark : m = 'e' ∨ m = 'E' := hm.symm
    -- The sign and the absolute value give the exponent back.
    have hneg : x < 0 → -(x.natAbs : Int) = x := by omega
    have hpos : ¬x < 0 → (x.natAbs : Int) = x := by omega
    by_cases hx : x < 0
    · simpa [readExponent?, readSign, hx, hdigits, hne, hmark, hvalue] using hneg hx
    · simpa [readExponent?, readSign, hx, hdigits, hne, hmark, hvalue] using hpos hx

/-! ### Written numbers -/

/-- The characters write the coefficient `c` with the exponent `e`. -/
inductive Written (c : Nat) (e : Int) : List Char → Prop where
  | whole {ds tail : List Char} {x : Int} : WholePart ds → digitsValue 0 ds = c →
      ExponentPart x tail → x = e → Written c e (ds ++ tail)
  | pointed {ds fs tail : List Char} {x : Int} : WholePart ds → AreDigits fs → fs ≠ [] →
      digitsValue 0 (ds ++ fs) = c → ExponentPart x tail → x - fs.length = e →
      Written c e (ds ++ '.' :: (fs ++ tail))

/-- The exponent is one that a written number may have. -/
def inRange : Decimal → Bool
  | finite _ c e =>
    decide (e + digitCount c - 1 ≤ widestExponent) && decide (-2 * widestExponent + 1 ≤ e)
  | _ => true

variable {rest : List Char}

theorem span_of_all {p : Char → Bool} (hds : ∀ c ∈ ds, p c)
    (hrest : ∀ c ∈ rest.head?, p c = false) :
    (ds ++ rest).takeWhile p = ds ∧ (ds ++ rest).dropWhile p = rest := by
  rw [takeWhile_append_of_pos hds, dropWhile_append_of_pos hds]
  cases rest with
  | nil => simp
  | cons c rest =>
    have hc : p c = false := hrest c rfl
    simp [hc]

theorem span_digits (hds : AreDigits ds) (hrest : ∀ c ∈ rest.head?, isDigitChar c = false) :
    (ds ++ rest).takeWhile isDigitChar = ds ∧ (ds ++ rest).dropWhile isDigitChar = rest :=
  span_of_all (fun c hc => isDigitChar_of_isDigit (hds c hc)) hrest

theorem ExponentPart.head_not_digit (h : ExponentPart x cs) :
    ∀ c ∈ cs.head?, isDigitChar c = false := by
  cases h with
  | absent => simp
  | @marked m ds x hm =>
    intro c hc
    obtain rfl : m = c := by simpa using hc
    rcases hm with rfl | rfl <;> decide

variable {e : Int} {c : Nat}

theorem Written.readFinite?_eq (h : Written c e cs) (s : Bool)
    (hrange : inRange (finite s c e)) : readFinite? s cs = some (finite s c e) := by
  obtain ⟨htop, hbottom⟩ : e + digitCount c - 1 ≤ widestExponent ∧ -2 * widestExponent + 1 ≤ e := by
    simpa [inRange] using hrange
  cases h with
  | @whole ds tail x hds hvalue htail hx =>
    obtain ⟨htake, hdrop⟩ := span_digits hds.digits htail.head_not_digit
    have hread := htail.readExponent?_eq
    have hne := hds.nonempty
    obtain rfl := hx
    rw [readFinite?, htake, hdrop]
    cases htail with
    | absent => simp_all
    | marked x hm => rcases hm with rfl | rfl <;> simp_all
  | @pointed ds fs tail x hds hfs _ hvalue htail hx =>
    have hne := hds.nonempty
    have hpoint : ∀ c ∈ ('.' :: (fs ++ tail)).head?, isDigitChar c = false := by
      rintro _ ⟨⟩
      rfl
    obtain ⟨htake, hdrop⟩ := span_digits hds.digits hpoint
    obtain ⟨htake', hdrop'⟩ := span_digits hfs htail.head_not_digit
    obtain rfl := hx
    rw [readFinite?, htake, hdrop]
    simp [htake', hdrop', htail.readExponent?_eq, hne, hvalue, htop]
    omega

/-! ### The text of a magnitude -/

theorem length_toString (c : Nat) : (toString c).length = (Nat.toDigits 10 c).length := by
  rw [← String.length_toList, toString_eq_repr, toList_repr]

theorem written_digits (c : Nat) {tail : List Char} (htail : ExponentPart x tail) :
    Written c x (Nat.toDigits 10 c ++ tail) :=
  .whole (wholePart_toDigits c) (digitsValue_toDigits c) htail rfl

theorem written_split {tail : List Char} (hn : 0 < n)
    (hlength : n < (Nat.toDigits 10 c).length) (htail : ExponentPart x tail)
    (he : x - ((Nat.toDigits 10 c).length - n) = e) :
    Written c e ((Nat.toDigits 10 c).take n ++ '.' :: ((Nat.toDigits 10 c).drop n ++ tail)) := by
  have hdigits := areDigits_toDigits c
  have hwhole : WholePart ((Nat.toDigits 10 c).take n) := by
    refine ⟨fun d hd => hdigits d (mem_of_mem_take hd), ?_, ?_⟩
    · have hlength : ((Nat.toDigits 10 c).take n).length = n := by simp; omega
      exact ne_nil_of_length_pos (by omega)
    · intro hhead
      rw [head?_take, if_neg (by omega)] at hhead
      rw [(wholePart_toDigits c).leading hhead] at hlength
      exact absurd hlength (by simp; omega)
  refine .pointed hwhole (fun d hd => hdigits d (mem_of_mem_drop hd)) ?_ ?_ htail ?_
  · exact ne_nil_of_length_pos (by rw [length_drop]; omega)
  · rw [take_append_drop, digitsValue_toDigits]
  · rw [length_drop]
    omega

theorem written_small (he : -(n + (Nat.toDigits 10 c).length : Int) = e) :
    Written c e ('0' :: '.' :: (replicate n '0' ++ Nat.toDigits 10 c)) := by
  have hdigits := areDigits_toDigits c
  have hzeros := (areDigits_replicate n).append hdigits
  have hvalue : digitsValue 0 (['0'] ++ (replicate n '0' ++ Nat.toDigits 10 c)) = c := by
    rw [← replicate_one, digitsValue_zeros hzeros, digitsValue_zeros hdigits, digitsValue_toDigits]
  have hzero : WholePart ['0'] := wholePart_toDigits 0
  have hwritten := Written.pointed (e := e) hzero hzeros (by simp) hvalue
    .absent (by rw [length_append, length_replicate]; omega)
  simpa using hwritten

theorem written_magnitudeText (c : Nat) (e : Int) : Written c e (magnitudeText c e).toList := by
  have hone : 0 < (Nat.toDigits 10 c).length := length_pos_iff.mpr toDigits_ne_nil
  unfold magnitudeText
  simp only [length_toString]
  generalize hn : (Nat.toDigits 10 c).length = n at hone ⊢
  by_cases hplain : e ≤ 0 ∧ -6 < e + n
  · rw [if_pos hplain, if_pos rfl]
    by_cases hsmall : e + n ≤ 0
    · rw [if_pos hsmall]
      have hwritten := written_small (c := c) (n := (-(e + n)).toNat) (e := e) (by omega)
      simpa using hwritten
    · rw [if_neg hsmall]
      by_cases hwhole : (n : Int) ≤ e + n
      · obtain rfl : e = 0 := by omega
        rw [if_pos hwhole]
        simpa using written_digits c .absent
      · rw [if_neg hwhole]
        have hwritten := written_split (c := c) (n := (e + n).toNat) (e := e) (by omega) (by omega)
          .absent (by omega)
        simpa using hwritten
  · -- A number of one digit with its point after it would have been written without exponent.
    rw [if_neg hplain, if_neg (by omega), if_neg (by omega)]
    have htail := exponentPart_exponentText (e + n - 1)
    by_cases hwhole : (n : Int) ≤ 1
    · obtain rfl : n = 1 := by omega
      rw [if_pos hwhole]
      simpa using written_digits c htail
    · rw [if_neg hwhole]
      have hwritten := written_split (c := c) (n := 1) (e := e) (by omega) (by omega) htail
        (by omega)
      simpa using hwritten

theorem magnitudeText_zero (c : Nat) : magnitudeText c 0 = toString c := by
  have hone : 0 < (toString c).length := by
    rw [length_toString]
    exact length_pos_iff.mpr toDigits_ne_nil
  unfold magnitudeText
  dsimp only
  generalize hn : (toString c).length = n at hone
  have hplain : (0 : Int) ≤ 0 ∧ (-6 : Int) < 0 + n := by omega
  rw [if_pos hplain, if_pos rfl, if_neg (by omega), if_pos (by omega),
    show (0 + (n : Int) - n).toNat = 0 by omega]
  exact String.append_empty

/-! ### Texts -/

/-- A character that reading does not drop. -/
def Kept (c : Char) : Prop := isBlank c = false ∧ c ≠ '_'

theorem kept_of_isDigit {c : Char} (h : c.isDigit) : Kept c := by
  have hrange := toNat_of_isDigit h
  constructor
  · simp [isBlank]
    omega
  · rintro rfl
    cases h

theorem AreDigits.kept (h : AreDigits cs) : ∀ c ∈ cs, Kept c := fun c hc => kept_of_isDigit (h c hc)

theorem ExponentPart.kept (h : ExponentPart x cs) : ∀ c ∈ cs, Kept c := by
  cases h with
  | absent => simp
  | marked x hm hds =>
    refine forall_mem_cons.mpr ⟨?_, forall_mem_cons.mpr ⟨?_, hds.kept⟩⟩
    · rcases hm with rfl | rfl <;> exact ⟨rfl, by decide⟩
    · split <;> exact ⟨rfl, by decide⟩

theorem Written.kept (h : Written c e cs) : ∀ x ∈ cs, Kept x := by
  cases h with
  | whole hds _ htail _ => exact forall_mem_append.mpr ⟨hds.digits.kept, htail.kept⟩
  | pointed hds hfs _ _ htail _ =>
    exact forall_mem_append.mpr ⟨hds.digits.kept, forall_mem_cons.mpr
      ⟨⟨rfl, by decide⟩, forall_mem_append.mpr ⟨hfs.kept, htail.kept⟩⟩⟩

theorem Written.exists_cons (h : Written c e cs) : ∃ d rest, cs = d :: rest ∧ d.isDigit := by
  cases h with
  | @whole ds tail _ hds =>
    obtain ⟨d, ds, rfl⟩ := exists_cons_of_ne_nil hds.nonempty
    exact ⟨d, ds ++ tail, rfl, hds.digits d mem_cons_self⟩
  | @pointed ds fs tail _ hds =>
    obtain ⟨d, ds, rfl⟩ := exists_cons_of_ne_nil hds.nonempty
    exact ⟨d, ds ++ '.' :: (fs ++ tail), rfl, hds.digits d mem_cons_self⟩

theorem dropWhile_isBlank (h : ∀ c ∈ cs, Kept c) : cs.dropWhile isBlank = cs := by
  cases cs with
  | nil => rfl
  | cons c cs => rw [dropWhile_cons_of_neg (by simp [(h c mem_cons_self).1])]

theorem trim_eq_self (h : ∀ c ∈ cs, Kept c) : trim cs = cs := by
  rw [trim, dropWhile_isBlank h, dropWhile_isBlank fun c hc => h c (mem_reverse.mp hc),
    reverse_reverse]

def signChars (s : Bool) : List Char := if s then ['-'] else []

theorem readSign_trim {s : Bool} {d : Char} (h : ∀ c ∈ d :: cs, Kept c) (hminus : d ≠ '-')
    (hplus : d ≠ '+') :
    readSign ((trim (signChars s ++ d :: cs)).filter (· ≠ '_')) = (s, d :: cs) := by
  have hall : ∀ c ∈ signChars s ++ d :: cs, Kept c := by
    refine forall_mem_append.mpr ⟨?_, h⟩
    cases s with
    | false => simp [signChars]
    | true => exact forall_mem_singleton.mpr ⟨rfl, by decide⟩
  have hfilter : (signChars s ++ d :: cs).filter (· ≠ '_') = signChars s ++ d :: cs :=
    filter_eq_self.mpr fun c hc => by simp [(hall c hc).2]
  rw [trim_eq_self hall, hfilter]
  cases s with
  | true => rfl
  | false => simp [signChars, readSign, hminus, hplus]

theorem Written.ofChars?_eq (h : Written c e cs) (s : Bool)
    (hrange : inRange (finite s c e)) :
    ofChars? (signChars s ++ cs) = some (finite s c e) := by
  have hread := h.readFinite?_eq s hrange
  have hkept := h.kept
  obtain ⟨d, rest, rfl, hd⟩ := h.exists_cons
  have hsign : readSign ((trim (signChars s ++ d :: rest)).filter (· ≠ '_')) = (s, d :: rest) :=
    readSign_trim hkept (by rintro rfl; cases hd) (by rintro rfl; cases hd)
  have hletter : d.toLower ≠ 'i' ∧ d.toLower ≠ 'n' ∧ d.toLower ≠ 's' := by
    rw [toLower_of_isDigit hd]
    refine ⟨?_, ?_, ?_⟩ <;>
      · rintro rfl
        cases hd
  simp only [ofChars?, hsign]
  simpa [hletter, hletter.2.1.symm, hletter.2.2.symm] using hread

theorem toList_text_finite (s : Bool) (c : Nat) (e : Int) :
    (finite s c e).text.toList = signChars s ++ (magnitudeText c e).toList := by
  rw [text, String.toList_append]
  cases s <;> rfl

/-- The word of a result that is no number. -/
def nanChars (g : Bool) : List Char := if g then ['s', 'N', 'a', 'N'] else ['N', 'a', 'N']

/-- The digits of a payload, of which zero has none. -/
def payloadChars (n : Nat) : List Char := if n = 0 then [] else Nat.toDigits 10 n

theorem toList_text_nan (s g : Bool) (n : Nat) :
    (nan s g n).text.toList = signChars s ++ (nanChars g ++ payloadChars n) := by
  rw [text]
  by_cases hn : n = 0 <;> cases s <;> cases g <;> simp [signChars, nanChars, payloadChars, hn]

theorem areDigits_payload (n : Nat) : AreDigits (payloadChars n) := by
  unfold payloadChars
  split
  · simp [AreDigits]
  · exact areDigits_toDigits n

theorem digitsValue_payload (n : Nat) : digitsValue 0 (payloadChars n) = n := by
  unfold payloadChars
  split
  · simp [digitsValue, *]
  · exact digitsValue_toDigits n

theorem ofChars?_nan (s g : Bool) (n : Nat) :
    ofChars? (signChars s ++ (nanChars g ++ payloadChars n)) = some (nan s g n) := by
  have hall : (payloadChars n).all isDigitChar :=
    all_eq_true.mpr fun c hc => isDigitChar_of_isDigit (areDigits_payload n c hc)
  have hkept : ∀ c ∈ nanChars g ++ payloadChars n, Kept c := by
    intro c hc
    rcases mem_append.mp hc with hc | hc
    · have hword : c ∈ ['s', 'N', 'a'] := by
        cases g <;> simp [nanChars] at hc ⊢ <;> grind
      revert hword
      simp only [mem_cons, not_mem_nil, or_false]
      rintro (rfl | rfl | rfl) <;> exact ⟨rfl, by decide⟩
    · exact kept_of_isDigit (areDigits_payload n c hc)
  have hsign : readSign ((trim (signChars s ++ (nanChars g ++ payloadChars n))).filter (· ≠ '_')) =
      (s, nanChars g ++ payloadChars n) := by
    cases g <;> exact readSign_trim hkept (by decide) (by decide)
  simp only [ofChars?, hsign]
  cases g <;> simp [nanChars, hall, digitsValue_payload]

/-- **Every decimal is read back from its text**, unless its exponent is out of range. -/
theorem ofText?_text {d : Decimal} (h : d.inRange) : ofText? d.text = some d := by
  cases d with
  | finite s c e =>
    rw [ofText?, toList_text_finite]
    exact (written_magnitudeText c e).ofChars?_eq s h
  | infinite s => cases s <;> rfl
  | nan s g n => rw [ofText?, toList_text_nan, ofChars?_nan]

end AtomArray.Decimal
