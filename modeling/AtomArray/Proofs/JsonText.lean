import AtomArray.Json.Parser
import AtomArray.Proofs.BinaryText
import Mathlib.Data.List.Basic

/-!
Reading back what was written as JSON.

A binary number becomes the decimal of its digits, a decimal that is written without fraction and
exponent a whole number, and of members with the same key one is left. `Json.reread` is the value
with these changes, and the text of a value without numbers outside the reals is read as that
(`parse?_text`).
-/

namespace AtomArray.Json

open List Nat Text

open AtomArray.Decimal

/-! ### Numerals -/

/-- What follows a value inside others. -/
def Ends (rest : List Char) : Prop := ∀ c ∈ rest.head?, c = ',' ∨ c = ']' ∨ c = '\x7d'

variable {rest : List Char} {p : Json × List Char}

theorem Ends.head_not (h : Ends rest) {P : Char → Prop} (hcomma : P ',')
    (hbracket : P ']') (hbrace : P '\x7d') : ∀ c ∈ rest.head?, P c := by
  intro c hc
  rcases h c hc with rfl | rfl | rfl
  · exact hcomma
  · exact hbracket
  · exact hbrace

theorem readFraction_pointed {fs : List Char} (hfs : AreDigits fs) (hne : fs ≠ [])
    (hrest : ∀ c ∈ rest.head?, c.isDigit = false) :
    readFraction ('.' :: (fs ++ rest)) = ('.' :: fs, rest) := by
  obtain ⟨htake, hdrop⟩ := span_of_all hfs hrest
  simp [readFraction, htake, hdrop, hne]

theorem readFraction_none (hrest : ∀ c ∈ rest.head?, c ≠ '.') : readFraction rest = ([], rest) := by
  unfold readFraction
  split
  · exact absurd rfl (hrest '.' rfl)
  · rfl

theorem readExponent_none (hrest : Ends rest) : readExponent rest = ([], rest) := by
  cases rest with
  | nil => rfl
  | cons c rest =>
    have hc : ¬(c = 'e' ∨ c = 'E') := by
      rcases hrest c rfl with rfl | rfl | rfl <;> decide
    rw [readExponent, if_neg hc]

theorem readExponent_written {x : Int} {tail : List Char} (h : ExponentPart x tail)
    (hrest : Ends rest) : readExponent (tail ++ rest) = (tail, rest) := by
  cases h with
  | absent => exact readExponent_none hrest
  | @marked m ds x hm hds hne =>
    obtain ⟨htake, hdrop⟩ := span_of_all hds (hrest.head_not rfl rfl rfl)
    have hmark : m = 'e' ∨ m = 'E' := hm.symm
    have hsign : readExponentSign ((if x < 0 then '-' else '+') :: (ds ++ rest)) =
        ([if x < 0 then '-' else '+'], ds ++ rest) := by
      split <;> rfl
    rw [cons_append, cons_append, readExponent, if_pos hmark, hsign]
    simp [htake, hdrop, hne]

theorem ExponentPart.head {x : Int} {tail : List Char} (h : ExponentPart x tail)
    (hrest : Ends rest) : ∀ c ∈ (tail ++ rest).head?, c.isDigit = false ∧ c ≠ '.' := by
  cases h with
  | absent => exact hrest.head_not (by decide) (by decide) (by decide)
  | @marked m ds x hm =>
    intro c hc
    obtain rfl : m = c := by simpa using hc
    rcases hm with rfl | rfl <;> decide

theorem readMinus_signChars (s : Bool) {d : Char} {cs : List Char} (hd : d.isDigit) :
    readMinus (signChars s ++ d :: cs) = (signChars s, d :: cs) := by
  cases s with
  | true => rfl
  | false =>
    unfold signChars readMinus
    split
    · rename_i heq
      cases heq
      exact absurd hd (by decide)
    · rfl

variable {ds : List Char}

/-- The sign is taken off a numeral, and the integer part is not empty and has no zero in front. -/
theorem readNumeral?_parts (hds : WholePart ds)
    (hrest : ∀ c ∈ rest.head?, c.isDigit = false) (s : Bool) :
    readNumeral? (signChars s ++ (ds ++ rest)) =
      some (signChars s ++ ds ++ (readFraction rest).1 ++ (readExponent (readFraction rest).2).1,
        !((readFraction rest).1 ++ (readExponent (readFraction rest).2).1).isEmpty,
        (readExponent (readFraction rest).2).2) := by
  obtain ⟨htake, hdrop⟩ := span_of_all hds.digits hrest
  obtain ⟨d, ds', rfl⟩ := exists_cons_of_ne_nil hds.nonempty
  have hsign : readMinus (signChars s ++ (d :: ds' ++ rest)) = (signChars s, d :: ds' ++ rest) :=
    readMinus_signChars s (hds.digits d mem_cons_self)
  unfold readNumeral?
  rw [hsign]
  dsimp only
  rw [htake, hdrop]
  split
  · rename_i heq
    cases heq
  · rename_i heq
    cases heq
    exact absurd (hds.leading rfl) (by simp)
  · rfl

theorem any_not_isDigit (hds : AreDigits ds) : (ds.any fun d => !d.isDigit) = false := by
  rw [any_eq_false]
  intro d hd
  simp [hds d hd]

theorem readNumeral?_written {c : Nat} {e : Int} {cs : List Char} (h : Written c e cs)
    (s : Bool) (hrest : Ends rest) :
    readNumeral? (signChars s ++ (cs ++ rest)) =
      some (signChars s ++ cs, cs.any fun d => !d.isDigit, rest) := by
  cases h with
  | @whole ds tail x hds _ htail _ =>
    have hhead := ExponentPart.head htail hrest
    rw [append_assoc, readNumeral?_parts hds (fun c hc => (hhead c hc).1),
      readFraction_none (fun c hc => (hhead c hc).2), readExponent_written htail hrest,
      any_append, any_not_isDigit hds.digits]
    cases htail with
    | absent => simp
    | marked x hm => rcases hm with rfl | rfl <;> simp
  | @pointed ds fs tail x hds hfs hne _ htail _ =>
    have hhead := ExponentPart.head htail hrest
    rw [append_assoc, cons_append, append_assoc, readNumeral?_parts hds (by simp),
      readFraction_pointed hfs hne (fun c hc => (hhead c hc).1), readExponent_written htail hrest]
    simp

theorem wholeValue_digits (s : Bool) {d : Char} {cs : List Char} (hd : d.isDigit) :
    wholeValue (signChars s ++ d :: cs) =
      if s then -(digitsValue 0 (d :: cs) : Int) else digitsValue 0 (d :: cs) := by
  cases s with
  | true => rfl
  | false =>
    unfold signChars wholeValue
    split
    · rename_i heq
      cases heq
      exact absurd hd (by decide)
    · rfl

/-- A numeral without point and exponent is a whole number, any other the decimal that it writes. -/
theorem readNumber?_written {c : Nat} {e : Int} {cs : List Char} (h : Written c e cs)
    (s : Bool) (hrest : Ends rest) (hrange : (cs.any fun d => !d.isDigit) →
      inRange (.finite s c e)) :
    readNumber? .decimal (signChars s ++ (cs ++ rest)) =
      some (if cs.any fun d => !d.isDigit then decimal (.finite s c e)
        else int (if s then -(c : Int) else c), rest) := by
  unfold readNumber?
  rw [readNumeral?_written h s hrest]
  cases hany : cs.any fun d => !d.isDigit with
  | true => simp [h.ofChars?_eq s (hrange hany)]
  | false =>
    have hvalue : digitsValue 0 cs = c := by
      cases h with
      | @whole ds tail x hds hvalue htail =>
        cases htail with
        | absent => simpa using hvalue
        | marked x hm => rcases hm with rfl | rfl <;> simp at hany
      | pointed => simp at hany
    obtain ⟨d, cs', rfl, hd⟩ := h.exists_cons
    simp [wholeValue_digits s hd, hvalue]

theorem toList_toString_int (i : Int) :
    (toString i).toList = signChars (decide (i < 0)) ++ Nat.toDigits 10 i.natAbs := by
  cases i with
  | ofNat n => simp [signChars, toString, Int.repr]
  | negSucc n => simp [signChars, toString, Int.repr]

theorem readNumber?_int (i : Int) (hrest : Ends rest) :
    readNumber? .decimal ((toString i).toList ++ rest) = some (int i, rest) := by
  have hplain := any_not_isDigit (areDigits_toDigits i.natAbs)
  have hwritten : Written i.natAbs 0 (Nat.toDigits 10 i.natAbs) := by
    simpa using written_digits i.natAbs .absent
  have hvalue : (if decide (i < 0) then -(i.natAbs : Int) else i.natAbs) = i := by
    by_cases hi : i < 0
    · rw [if_pos (decide_eq_true hi)]
      omega
    · rw [if_neg (by simpa using hi)]
      omega
  rw [toList_toString_int, append_assoc,
    readNumber?_written hwritten _ hrest (by simp [hplain]), hplain, hvalue]
  rfl

/-- A whole number is read alike by every rule. -/
theorem readNumber?_of_int {rule : NumberRule} {i : Int} {cs : List Char}
    (h : readNumber? .decimal cs = some (int i, rest)) : readNumber? rule cs = some (int i, rest) := by
  unfold readNumber? at h ⊢
  cases hnumeral : readNumeral? cs with
  | none => simp [hnumeral] at h
  | some n =>
    obtain ⟨lexeme, fractional, rest'⟩ := n
    cases fractional with
    | true =>
      cases hd : Decimal.ofChars? lexeme <;> simp [hnumeral, hd] at h
    | false => simpa [hnumeral] using h

/-- What a decimal is read as from its text: a whole number if it is written as one. -/
def rereadDecimal : Decimal → Json
  | .finite s c e => if e = 0 then int (if s then -(c : Int) else c) else decimal (.finite s c e)
  | d => decimal d

theorem readNumber?_decimal {d : Decimal} (hfinite : d.isFinite) (hrange : d.inRange)
    (hrest : Ends rest) :
    readNumber? .decimal (d.text.toList ++ rest) = some (rereadDecimal d, rest) := by
  cases d with
  | finite s c e =>
    have hwritten := written_magnitudeText c e
    rw [toList_text_finite, append_assoc, readNumber?_written hwritten s hrest fun _ => hrange]
    by_cases he : e = 0
    · subst he
      rw [magnitudeText_zero, toString_eq_repr, toList_repr, any_not_isDigit (areDigits_toDigits c)]
      rfl
    · have hany : ((magnitudeText c e).toList.any fun d => !d.isDigit) := by
        -- Digits alone would have the exponent zero.
        generalize (magnitudeText c e).toList = cs at hwritten
        cases hwritten with
        | whole _ _ htail hx =>
          cases htail with
          | absent => exact absurd hx.symm he
          | marked x hm => rcases hm with rfl | rfl <;> simp
        | pointed => simp
      rw [hany]
      simp [rereadDecimal, he]
  | infinite s => cases hfinite
  | nan s g n => cases hfinite

theorem readNumber?_binary {x : Float} (hnan : x.isNaN = false) (hinf : x.isInf = false)
    (hrest : Ends rest) :
    readNumber? .decimal ((binaryText x).toList ++ rest) =
      some (decimal (Binary.textDecimal x), rest) := by
  obtain ⟨c, e, cs, htext, hwritten, ⟨d, hd, hmark⟩, hdecimal, hrange⟩ :=
    Binary.exists_written hnan hinf
  have hany : (cs.any fun d => !d.isDigit) := any_eq_true.mpr ⟨d, hd, by simp [hmark]⟩
  have hbinary : binaryText x = Binary.text x := by
    rw [binaryText, hnan, hinf]
    rfl
  rw [hbinary, htext, append_assoc, readNumber?_written hwritten _ hrest fun _ => hrange, hany,
    hdecimal]
  rfl

/-! ### Strings -/

theorem hexValue?_digitChar {d : Nat} (hd : d < 16) : hexValue? d.digitChar = some d := by
  interval_cases d <;> rfl

/-- The last of padded digits is that of the remainder. -/
theorem padded_digits (w n : Nat) :
    replicate (w + 2 - (Nat.toDigits 16 n).length) '0' ++ Nat.toDigits 16 n =
      replicate (w + 1 - (Nat.toDigits 16 (n / 16)).length) '0' ++ Nat.toDigits 16 (n / 16) ++
        [(n % 16).digitChar] := by
  by_cases hn : n < 16
  · rw [toDigits_of_lt_base hn, Nat.div_eq_of_lt hn, mod_eq_of_lt hn]
    exact congrArg (· ++ [n.digitChar]) replicate_succ'
  · rw [toDigits_of_base_le (by decide) (not_lt.mp hn)]
    simp

variable {n : Nat}

theorem toList_hex4 (hn : n < 65536) : (hex4 n).toList =
    [(n / 4096).digitChar, (n / 256 % 16).digitChar, (n / 16 % 16).digitChar,
      (n % 16).digitChar] := by
  simp only [hex4, String.toList_ofList]
  rw [padded_digits, padded_digits, padded_digits, toDigits_of_lt_base (by omega)]
  simp [Nat.div_div_eq_div_mul]

theorem readHex4?_hex4 (hn : n < 65536) (rest : List Char) :
    readHex4? ((hex4 n).toList ++ rest) = some (n, rest) := by
  rw [toList_hex4 hn]
  simp only [cons_append, nil_append, readHex4?]
  rw [hexValue?_digitChar (by omega), hexValue?_digitChar (by omega),
    hexValue?_digitChar (by omega), hexValue?_digitChar (by omega)]
  simp only [Option.bind_eq_bind, Option.bind_some]
  congr 2
  omega

theorem readUnits?_one (hn : n < 0x10000) (hplain : ¬(0xd800 ≤ n ∧ n < 0xdc00))
    (rest : List Char) : readUnits? ((hex4 n).toList ++ rest) = some (n, rest) := by
  unfold readUnits?
  rw [readHex4?_hex4 hn, Option.bind_eq_bind, Option.bind_some]
  exact if_neg hplain

theorem readUnits?_two (hi lo : Nat) (hhi : 0xd800 ≤ hi ∧ hi < 0xdc00)
    (hlo : 0xdc00 ≤ lo ∧ lo < 0xe000) (rest : List Char) :
    readUnits? ((hex4 hi).toList ++ '\\' :: 'u' :: ((hex4 lo).toList ++ rest)) =
      some (0x10000 + (hi - 0xd800) * 0x400 + (lo - 0xdc00), rest) := by
  unfold readUnits?
  rw [readHex4?_hex4 (by omega), Option.bind_eq_bind, Option.bind_some]
  dsimp only
  rw [if_pos hhi]
  simp only [readHex4?_hex4 (show lo < 65536 by omega)]
  exact if_pos hlo

/-- A code point is read back from its escape, also if it takes two units. -/
theorem readUnits?_unitEscape (c : Char) (rest : List Char) : ∃ cs,
    (unitEscape c.toNat).toList ++ rest = '\\' :: 'u' :: cs ∧
      readUnits? cs = some (c.toNat, rest) := by
  have hvalid : c.toNat < 0xd800 ∨ 0xdfff < c.toNat ∧ c.toNat < 0x110000 := c.valid
  generalize c.toNat = n at hvalid
  unfold unitEscape
  by_cases hone : n < 0x10000
  · rw [if_pos hone]
    exact ⟨_, by rw [String.toList_append]; rfl, readUnits?_one hone (by omega) rest⟩
  · rw [if_neg hone]
    have hread := readUnits?_two (0xd800 + (n - 0x10000) / 0x400)
      (0xdc00 + (n - 0x10000) % 0x400) (by omega) (by omega) rest
    have hvalue : 0x10000 + (0xd800 + (n - 0x10000) / 0x400 - 0xd800) * 0x400 +
        (0xdc00 + (n - 0x10000) % 0x400 - 0xdc00) = n := by omega
    rw [hvalue] at hread
    refine ⟨_, ?_, hread⟩
    simp only [String.toList_append, append_assoc]
    rfl

theorem readString?_charText (c : Char) (fuel : Nat) (acc rest : List Char) :
    readString? (fuel + 1) acc ((charText c).toList ++ rest) =
      readString? fuel (c :: acc) rest := by
  unfold charText
  by_cases hescaped : c = '"' ∨ c = '\\' ∨ c = '\n' ∨ c = '\r' ∨ c = '\t' ∨ c = '\x08' ∨ c = '\x0c'
  · rcases hescaped with rfl | rfl | rfl | rfl | rfl | rfl | rfl <;> rfl
  simp only [not_or] at hescaped
  obtain ⟨h₁, h₂, h₃, h₄, h₅, h₆, h₇⟩ := hescaped
  rw [if_neg h₁, if_neg h₂, if_neg h₃, if_neg h₄, if_neg h₅, if_neg h₆, if_neg h₇]
  by_cases hplain : c.toNat < 0x20 ∨ 0x7e < c.toNat
  · rw [if_pos hplain]
    obtain ⟨cs, hescape, hread⟩ := readUnits?_unitEscape c rest
    have hchar : readEscape? ('u' :: cs) = some (c, rest) := by
      simp [readEscape?, hread]
    rw [hescape, readString?, if_neg (by decide), if_pos rfl, hchar]
  · rw [if_neg hplain]
    simp only [Char.toString_eq_singleton, String.toList_singleton, cons_append, nil_append]
    rw [readString?, if_neg h₁, if_neg h₂, if_neg (by omega)]

variable (cs : List Char)

theorem readString?_chars {fuel : Nat} (hfuel : cs.length < fuel) (acc rest : List Char) :
    readString? fuel acc (cs.flatMap (fun c => (charText c).toList) ++ '"' :: rest) =
      some (String.ofList (acc.reverse ++ cs), rest) := by
  induction cs generalizing fuel acc with
  | nil =>
    obtain ⟨fuel, rfl⟩ := exists_eq_succ_of_ne_zero (by omega : fuel ≠ 0)
    simp [readString?]
  | cons c cs ih =>
    obtain ⟨fuel, rfl⟩ := exists_eq_succ_of_ne_zero (by omega : fuel ≠ 0)
    rw [flatMap_cons, append_assoc, readString?_charText, ih (by simpa using hfuel)]
    simp

variable {c : Char}

theorem charText_plain (hlow : 0x20 ≤ c.toNat) (hhigh : c.toNat < 0x7f)
    (hquote : c ≠ '"') (hslash : c ≠ '\\') : (charText c).toList = [c] := by
  have hcontrol : ∀ k : Char, k.toNat < 0x20 → c ≠ k := by
    rintro k hk rfl
    omega
  unfold charText
  rw [if_neg hquote, if_neg hslash, if_neg (hcontrol _ (by decide)),
    if_neg (hcontrol _ (by decide)), if_neg (hcontrol _ (by decide)),
    if_neg (hcontrol _ (by decide)), if_neg (hcontrol _ (by decide)), if_neg (by omega)]
  simp

/-- Every string is written character by character, also one without escapes. -/
theorem toList_quoted (s : String) : (quoted s).toList =
    '"' :: (s.toList.flatMap (fun c => (charText c).toList) ++ ['"']) := by
  unfold quoted
  split_ifs with hplain
  · have hchar : ∀ c ∈ s.toList, (charText c).toList = [c] := by
      intro c hc
      rw [String.all_bool_eq, all_eq_true] at hplain
      have := hplain c hc
      simp only [Bool.and_eq_true, decide_eq_true_eq] at this
      exact charText_plain this.1.1.1 this.1.1.2 (by simpa using this.1.2) (by simpa using this.2)
    rw [flatMap_congr hchar]
    simp
  · simp [flatMap_map]

theorem charText_ne_nil (c : Char) : (charText c).toList ≠ [] := by
  intro h
  have hread := readString?_charText c 1 [] ['"']
  simp [h, readString?] at hread

theorem length_le_chars : cs.length ≤ (cs.flatMap fun c => (charText c).toList).length := by
  induction cs with
  | nil => simp
  | cons c cs ih =>
    have hpos := length_pos_iff.mpr (charText_ne_nil c)
    rw [flatMap_cons, length_append, length_cons]
    omega

theorem readString?_quoted (s : String) (rest : List Char) : ∃ cs,
    (quoted s).toList ++ rest = '"' :: cs ∧ readString? (cs.length + 1) [] cs = some (s, rest) := by
  refine ⟨s.toList.flatMap (fun c => (charText c).toList) ++ '"' :: rest, ?_, ?_⟩
  · rw [toList_quoted]
    simp
  · have hlength := length_le_chars s.toList
    rw [readString?_chars _ (by rw [length_append]; omega)]
    simp

/-! ### Values -/

mutual

/-- Every number of a value that is not whole passes one test, and the keys of every object in it
pass another. -/
def every (number : Json → Bool) (keys : List String → Bool) : Json → Bool
  | null | bool _ | int _ | str _ => true
  | binary x => number (binary x)
  | decimal d => number (decimal d)
  | arr items => areAll number keys items
  | obj members => keys (members.map Prod.fst) && haveAll number keys members

def areAll (number : Json → Bool) (keys : List String → Bool) : List Json → Bool
  | [] => true
  | j :: js => j.every number keys && areAll number keys js

def haveAll (number : Json → Bool) (keys : List String → Bool) : Members → Bool
  | [] => true
  | (_, j) :: ms => j.every number keys && haveAll number keys ms

end

/-- Is a number real, and read from its text by this rule as what it was? -/
def isReadableNumber : NumberRule → Json → Bool
  | .decimal, binary x => !(x.isNaN || x.isInf)
  | .decimal, decimal d => d.isFinite && d.inRange
  | _, _ => false

/-- Every number of a value is one that its text gives by this rule. -/
abbrev isReadableBy (rule : NumberRule) : Json → Bool :=
  every (isReadableNumber rule) fun _ => true

abbrev isReadable : Json → Bool := isReadableBy .decimal

abbrev haveReadable : Members → Bool := haveAll (isReadableNumber .decimal) fun _ => true

@[elab_as_elim]
theorem induct {motive : Json → Prop} (null : motive null) (bool : ∀ b, motive (bool b))
    (int : ∀ i, motive (int i)) (binary : ∀ x, motive (binary x))
    (decimal : ∀ d, motive (decimal d)) (str : ∀ s, motive (str s))
    (arr : ∀ js, (∀ j ∈ js, motive j) → motive (.arr js))
    (obj : ∀ ms, (∀ m ∈ ms, motive m.2) → motive (.obj ms)) (j : Json) : motive j :=
  @Json.rec motive (fun js => ∀ j ∈ js, motive j) (fun ms => ∀ m ∈ ms, motive m.2)
    (fun m => motive m.2) null bool int binary decimal str arr obj (by simp)
    (fun _ _ hj hjs => forall_mem_cons.mpr ⟨hj, hjs⟩) (by simp)
    (fun _ _ hm hms => forall_mem_cons.mpr ⟨hm, hms⟩) (fun _ _ h => h) j

section Every

variable {number number' : Json → Bool} {keys keys' : List String → Bool}

theorem areAll_eq (js : List Json) : areAll number keys js = js.all (every number keys) := by
  induction js with
  | nil => rfl
  | cons j js ih => rw [areAll, ih, all_cons]

theorem haveAll_eq (ms : Members) :
    haveAll number keys ms = ms.all fun m => m.2.every number keys := by
  induction ms with
  | nil => rfl
  | cons m ms ih => rw [haveAll, ih, all_cons]

theorem every_mono (hnumber : ∀ j, number j → number' j) (hkeys : ∀ ks, keys ks → keys' ks)
    {j : Json} : j.every number keys → j.every number' keys' := by
  induction j using induct with
  | null | bool | int | str => exact id
  | binary | decimal => exact hnumber _
  | arr js ih =>
    simp only [every, areAll_eq, all_eq_true]
    exact fun h j hj => ih j hj (h j hj)
  | obj ms ih =>
    simp only [every, haveAll_eq, Bool.and_eq_true, all_eq_true]
    exact fun h => ⟨hkeys _ h.1, fun m hm => ih m hm (h.2 m hm)⟩

end Every

mutual

/-- What a value is read as from its text. -/
def reread : Json → Json
  | null => null
  | bool b => bool b
  | int i => int i
  | binary x => decimal (Binary.textDecimal x)
  | decimal d => rereadDecimal d
  | str s => str s
  | arr items => arr (rereadItems items)
  | obj members => obj (merge [] (rereadMembers members))

def rereadItems : List Json → List Json
  | [] => []
  | j :: js => j.reread :: rereadItems js

def rereadMembers : Members → Members
  | [] => []
  | (k, j) :: ms => (k, j.reread) :: rereadMembers ms

end

theorem skipSpace_skipSpace : skipSpace (skipSpace cs) = skipSpace cs := by
  induction cs with
  | nil => rfl
  | cons c cs ih =>
    cases hc : isSpace c with
    | true => simpa [skipSpace, hc] using ih
    | false => simp [skipSpace, hc]

theorem skipSpace_cons (h : isSpace c = false) (cs : List Char) :
    skipSpace (c :: cs) = c :: cs := by
  simp [skipSpace, h]

variable (rule : NumberRule)

theorem readValue?_skipSpace (fuel : Nat) (cs : List Char) :
    readValue? rule fuel (skipSpace cs) = readValue? rule fuel cs := by
  cases fuel with
  | zero => rfl
  | succ fuel => rw [readValue?, readValue?, skipSpace_skipSpace]

theorem readItems?_skipSpace (fuel : Nat) (acc : List Json) (cs : List Char) :
    readItems? rule fuel acc (skipSpace cs) = readItems? rule fuel acc cs := by
  cases fuel with
  | zero => rfl
  | succ fuel => rw [readItems?, readItems?, readValue?_skipSpace]

theorem readMembers?_skipSpace (fuel : Nat) (acc : Members) (cs : List Char) :
    readMembers? rule fuel acc (skipSpace cs) = readMembers? rule fuel acc cs := by
  cases fuel with
  | zero => rfl
  | succ fuel => rw [readMembers?, readMembers?, skipSpace_skipSpace]

/-- What does not see spaces in front of a text does not see a blank. -/
theorem blank_of_skipSpace {α : Type} {f : List Char → α} (h : ∀ cs, f (skipSpace cs) = f cs)
    (cs : List Char) : f (' ' :: cs) = f cs := by
  rw [← h, ← h cs]
  rfl

variable (fuel : Nat)

/-- A number starts with its sign or a digit, and no other value does. -/
theorem readValue?_of_readNumber? {rule : NumberRule} {cs : List Char}
    (h : readNumber? rule cs = some p) : readValue? rule (fuel + 1) cs = some p := by
  cases cs with
  | nil => cases h
  | cons c cs =>
    have hhead : c = '-' ∨ c.isDigit := by
      by_contra hc
      rw [not_or, Bool.not_eq_true] at hc
      have hminus : readMinus (c :: cs) = ([], c :: cs) := by
        unfold readMinus
        split
        · simp_all
        · rfl
      simp [readNumber?, readNumeral?, hminus, hc.2] at h
    have hname : readName? rule (c :: cs) = none := by
      have hletter : 'n' ≠ c ∧ 't' ≠ c ∧ 'f' ≠ c ∧ 'N' ≠ c ∧ 'I' ≠ c := by
        refine ⟨?_, ?_, ?_, ?_, ?_⟩ <;>
          · rintro rfl
            revert hhead
            decide
      -- After a sign there is a digit, and not the name of an infinity.
      have hinfinity : ¬"-Infinity".toList <+: c :: cs := by
        rintro ⟨r, hr⟩
        obtain ⟨rfl, rfl⟩ := cons.inj hr
        cases h
      have hword : ∀ w ∈ ["null", "true", "false", "NaN", "Infinity", "-Infinity"],
          readWord? w (c :: cs) = none := by
        simp only [forall_mem_cons, not_mem_nil, false_imp_iff, implies_true, and_true]
        refine ⟨?_, ?_, ?_, ?_, ?_, if_neg (by simpa using hinfinity)⟩ <;> simp [readWord?, hletter]
      simp only [forall_mem_cons] at hword
      cases rule <;> simp only [readName?, if_true, reduceCtorEq, if_false, cons_append, nil_append,
        findSome?_cons, findSome?_nil, hword, Option.map_none]
    have hmark : isSpace c = false ∧ c ≠ '"' ∧ c ≠ '[' ∧ c ≠ '\x7b' := by
      have hother : ∀ k : Char, k ≠ '-' ∧ k.isDigit = false → c ≠ k := by
        rintro k hk rfl
        rcases hhead with hminus | hd
        · exact hk.1 hminus
        · exact absurd hd (by rw [hk.2]; decide)
      refine ⟨?_, hother _ (by decide), hother _ (by decide), hother _ (by decide)⟩
      simp [isSpace, hother]
    rw [readValue?, skipSpace_cons hmark.1]
    dsimp only
    rw [if_neg hmark.2.1, if_neg hmark.2.2.1, if_neg hmark.2.2.2, hname]
    exact h

theorem readValue?_closed (cs : List Char) : readValue? rule fuel (']' :: cs) = none := by
  cases fuel with
  | zero => rfl
  | succ fuel =>
    rw [readValue?, skipSpace_cons (by decide)]
    cases rule <;> simp [readName?, readWord?, readNumber?, readNumeral?, readMinus]

theorem readValue?_bracket {rule : NumberRule} {fuel : Nat} {cs : List Char}
    (h : readItems? rule fuel [] cs = some p) :
    readValue? rule (fuel + 1) ('[' :: cs) = some p := by
  rw [← readItems?_skipSpace] at h
  rw [readValue?, skipSpace_cons (by decide)]
  dsimp only
  rw [if_neg (by decide), if_pos rfl]
  split
  · rename_i r heq
    rw [heq] at h
    cases fuel with
    | zero => cases h
    | succ fuel => simp [readItems?, readValue?_closed] at h
  · exact h

theorem readValue?_brace {rule : NumberRule} {fuel : Nat} {cs : List Char}
    (h : readMembers? rule fuel [] cs = some p) :
    readValue? rule (fuel + 1) ('\x7b' :: cs) = some p := by
  rw [← readMembers?_skipSpace] at h
  rw [readValue?, skipSpace_cons (by decide)]
  dsimp only
  rw [if_neg (by decide), if_neg (by decide), if_pos rfl]
  split
  · rename_i r heq
    rw [heq] at h
    cases fuel with
    | zero => cases h
    | succ fuel => simp [readMembers?, skipSpace, isSpace] at h
  · exact h

theorem readValue?_str (fuel : Nat) (s : String) (rest : List Char) :
    readValue? rule (fuel + 1) ((str s).text.toList ++ rest) = some (str s, rest) := by
  obtain ⟨cs, hcs, hread⟩ := readString?_quoted s rest
  rw [text, hcs, readValue?, skipSpace_cons (by decide)]
  dsimp only
  rw [if_pos rfl, hread]
  rfl

section Members

variable {rule : NumberRule} {k : String} {j : Json} {cs : List Char} {fuel : Nat}

theorem readMembers?_member (rest : List Char) (acc : Members) :
    (readValue? rule fuel cs = some (j, ',' :: rest) →
      readMembers? rule (fuel + 1) acc ((quoted k).toList ++ ':' :: ' ' :: cs) =
        readMembers? rule fuel ((k, j) :: acc) rest) ∧
    (readValue? rule fuel cs = some (j, '\x7d' :: rest) →
      readMembers? rule (fuel + 1) acc ((quoted k).toList ++ ':' :: ' ' :: cs) =
        some (obj (merge [] ((k, j) :: acc).reverse), rest)) := by
  obtain ⟨ds, hds, hread⟩ := readString?_quoted k (':' :: ' ' :: cs)
  have hkey : skipSpace ('"' :: ds) = '"' :: ds := rfl
  have hcolon : skipSpace (':' :: ' ' :: cs) = ':' :: ' ' :: cs := rfl
  have hblank := blank_of_skipSpace (readValue?_skipSpace rule fuel)
  constructor <;> intro h <;>
    simp only [readMembers?, hds, hkey, hread, hcolon, hblank, h] <;> rfl

end Members

theorem ends_cons (h : c = ',' ∨ c = ']' ∨ c = '\x7d') (rest : List Char) : Ends (c :: rest) := by
  intro d hd
  obtain rfl : c = d := Option.some.inj hd
  exact h

/-- Texts shorter than the fuel are read up to what follows them. -/
def ReadsTexts : Prop :=
  ∀ j : Json, j.isReadableBy rule → j.text.toList.length < fuel → ∀ rest, Ends rest →
    readValue? rule fuel (j.text.toList ++ rest) = some (j.reread, rest)

theorem joined_one (t : String) : joined ", " [t] = t := by
  simp [joined]

theorem toList_joined_cons (t u : String) (ts : List String) :
    (joined ", " (t :: u :: ts)).toList =
      t.toList ++ ',' :: ' ' :: (joined ", " (u :: ts)).toList := by
  simp [joined]

/-- Texts with commas between them are read one by one up to what closes the list. -/
theorem reads_joined {α β : Type} {next : Nat → List β → List Char → Option (Json × List Char)}
    {write : α → String} {g : α → β} {w : List β → Json} {close : Char} {bound : Nat}
    (hblank : ∀ fuel acc cs, next fuel acc (' ' :: cs) = next fuel acc cs) {as : List α}
    (hnext : ∀ a ∈ as, ∀ fuel < bound, (write a).toList.length < fuel → ∀ acc rest,
      next (fuel + 1) acc ((write a).toList ++ ',' :: rest) = next fuel (g a :: acc) rest ∧
      next (fuel + 1) acc ((write a).toList ++ close :: rest) =
        some (w (g a :: acc).reverse, rest))
    (hne : as ≠ []) {fuel : Nat} (hbound : fuel ≤ bound)
    (hfuel : (joined ", " (as.map write)).toList.length + 1 < fuel) (acc : List β)
    (rest : List Char) :
    next fuel acc ((joined ", " (as.map write)).toList ++ close :: rest) =
      some (w (acc.reverse ++ as.map g), rest) := by
  induction as generalizing fuel acc with
  | nil => exact absurd rfl hne
  | cons a as ih =>
    obtain ⟨fuel, rfl⟩ := exists_eq_succ_of_ne_zero (by omega : fuel ≠ 0)
    obtain ⟨ha, has⟩ := forall_mem_cons.mp hnext
    cases as with
    | nil =>
      rw [map_singleton, joined_one] at hfuel ⊢
      rw [(ha fuel hbound (by omega) acc rest).2, reverse_cons, map_singleton]
    | cons b as =>
      rw [map_cons, map_cons, toList_joined_cons, length_append, length_cons, length_cons] at hfuel
      rw [map_cons, map_cons, toList_joined_cons, append_assoc, cons_append, cons_append,
        (ha fuel hbound (by omega) acc _).1, hblank, ← map_cons,
        ih has (by simp) (by omega) (by rw [map_cons]; omega)]
      simp

theorem texts_eq_map (js : List Json) : texts js = js.map text := by
  induction js with
  | nil => rfl
  | cons j js ih => rw [texts, ih, map_cons]

theorem memberTexts_eq_map (ms : Members) :
    memberTexts ms = ms.map fun m => quoted m.1 ++ ": " ++ m.2.text := by
  induction ms with
  | nil => rfl
  | cons m ms ih => rw [memberTexts, ih, map_cons]

theorem rereadItems_eq_map (js : List Json) : rereadItems js = js.map reread := by
  induction js with
  | nil => rfl
  | cons j js ih => rw [rereadItems, ih, map_cons]

theorem rereadMembers_eq_map (ms : Members) :
    rereadMembers ms = ms.map fun m => (m.1, m.2.reread) := by
  induction ms with
  | nil => rfl
  | cons m ms ih => rw [rereadMembers, ih, map_cons]

theorem eq_decimal_of_isReadableNumber {rule : NumberRule} {j : Json}
    (h : isReadableNumber rule j) : rule = .decimal := by
  cases rule with
  | binary => cases h
  | decimal => rfl

/-- The text of a value is read up to what follows it: the nesting that the reader allows is
bounded by the fuel, on which the induction goes. -/
theorem readsTexts : ReadsTexts rule fuel := by
  induction fuel using Nat.strong_induction_on with
  | _ fuel ih =>
    intro j hj hfuel rest hrest
    obtain ⟨fuel, rfl⟩ := exists_eq_succ_of_ne_zero (by omega : fuel ≠ 0)
    cases j with
    | null => rfl
    | bool b => cases b <;> rfl
    | int i => exact readValue?_of_readNumber? fuel (readNumber?_of_int (readNumber?_int i hrest))
    | binary x =>
      obtain rfl := eq_decimal_of_isReadableNumber hj
      rw [isReadableBy, every, isReadableNumber, Bool.not_eq_true', Bool.or_eq_false_iff] at hj
      exact readValue?_of_readNumber? fuel (readNumber?_binary hj.1 hj.2 hrest)
    | decimal d =>
      obtain rfl := eq_decimal_of_isReadableNumber hj
      rw [isReadableBy, every, isReadableNumber, Bool.and_eq_true] at hj
      exact readValue?_of_readNumber? fuel (readNumber?_decimal hj.1 hj.2 hrest)
    | str s => exact readValue?_str rule fuel s rest
    | arr js =>
      by_cases hne : js = []
      · subst hne
        rfl
      have htext : (arr js).text.toList = '[' :: ((joined ", " (js.map text)).toList ++ [']']) := by
        simp [text, texts_eq_map]
      rw [htext, length_cons, length_append, length_singleton] at hfuel
      rw [isReadableBy, every, areAll_eq, all_eq_true] at hj
      rw [htext, cons_append, append_assoc, reread, rereadItems_eq_map]
      refine readValue?_bracket (reads_joined (g := reread)
        (fun fuel acc => blank_of_skipSpace (readItems?_skipSpace rule fuel acc)) ?_ hne le_rfl
        (by omega) [] rest)
      intro j hmem f hf hlt acc rest
      have hread := ih f (by omega) j (hj j hmem) hlt
      rw [readItems?, readItems?, hread _ (ends_cons (.inl rfl) rest),
        hread _ (ends_cons (.inr (.inl rfl)) rest)]
      exact ⟨rfl, rfl⟩
    | obj ms =>
      by_cases hne : ms = []
      · subst hne
        rfl
      have htext : (obj ms).text.toList = '\x7b' ::
          ((joined ", " (ms.map fun m => quoted m.1 ++ ": " ++ m.2.text)).toList ++ ['\x7d']) := by
        simp [text, memberTexts_eq_map]
      rw [htext, length_cons, length_append, length_singleton] at hfuel
      rw [isReadableBy, every, Bool.true_and, haveAll_eq, all_eq_true] at hj
      rw [htext, cons_append, append_assoc, reread, rereadMembers_eq_map]
      refine readValue?_brace (reads_joined (w := fun ms => obj (merge [] ms))
        (fun fuel acc => blank_of_skipSpace (readMembers?_skipSpace rule fuel acc)) ?_ hne le_rfl
        (by omega) [] rest)
      intro m hmem f hf hlt acc rest
      rw [String.toList_append, String.toList_append, length_append, length_append] at hlt
      have hread := ih f (by omega) m.2 (hj m hmem) (by omega)
      simp only [String.toList_append, append_assoc]
      exact ⟨(readMembers?_member ..).1 (hread _ (ends_cons (.inl rfl) rest)),
        (readMembers?_member ..).2 (hread _ (ends_cons (.inr (.inr rfl)) rest))⟩

/-- A value whose numbers are kept is read back from its text. -/
theorem parse?_text {j : Json} (h : j.isReadableBy rule) : parse? rule j.text = some j.reread := by
  have hread := readsTexts rule (2 * j.text.toList.length + 2) j h (by omega) [] (by simp [Ends])
  rw [append_nil] at hread
  simp only [parse?, hread]
  rfl

end AtomArray.Json
