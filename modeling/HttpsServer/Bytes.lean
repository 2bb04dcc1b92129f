import Mathlib.Algebra.Group.Nat.Defs
import HttpsServer.Search

/-!
# HttpsServer.Bytes

Byte strings and the parts of the C++ standard library that work on them:
character classes of the C locale, trimming, decimal numbers in both
directions, and the line end CRLF.

A `std::string` and a `std::string_view` are both a `Bytes`; positions and
sizes are natural numbers.  The searches themselves are those of
`HttpsServer.Search`, taken at bytes.
-/

namespace HttpsServer

/-- The contents of a `std::string` or a `std::string_view`. -/
abbrev Bytes := List UInt8

/-- The bytes of a string literal. -/
def ascii (s : String) : Bytes := s.toList.map fun c => c.toNat.toUInt8

/-! ## Characters -/

/-- `std::tolower` in the C locale. -/
def toLowerByte (b : UInt8) : UInt8 := if 65 ≤ b ∧ b ≤ 90 then b + 32 else b

/-- `std::toupper` in the C locale. -/
def toUpperByte (b : UInt8) : UInt8 := if 97 ≤ b ∧ b ≤ 122 then b - 32 else b

/-- A string with every byte through `std::tolower`. -/
def lowercase (s : Bytes) : Bytes := s.map toLowerByte

theorem toLowerByte_idem (b : UInt8) : toLowerByte (toLowerByte b) = toLowerByte b := by
  unfold toLowerByte
  grind

theorem toLowerByte_toUpperByte (b : UInt8) : toLowerByte (toUpperByte b) = toLowerByte b := by
  unfold toLowerByte toUpperByte
  grind

@[simp] theorem lowercase_lowercase (s : Bytes) : lowercase (lowercase s) = lowercase s := by
  simp [lowercase, toLowerByte_idem]

/-- `std::isspace` in the C locale: blank, `\t`, `\n`, `\v`, `\f`, `\r`. -/
def isSpace (b : UInt8) : Bool := b = 32 || (9 ≤ b && b ≤ 13)

/-- `std::isdigit`. -/
def isDigit (b : UInt8) : Bool := 48 ≤ b && b ≤ 57

/-- The bytes of `" \t\r\n"`, which the trimming functions take off. -/
def isBlank (b : UInt8) : Bool := b = 32 || b = 9 || b = 13 || b = 10

/-- `trim`: the bytes between `find_first_not_of(" \t\r\n")` and
`find_last_not_of(" \t\r\n")`. -/
def trimBlanks (s : Bytes) : Bytes := strip isBlank s

/-! ## Lines -/

/-- Carriage return. -/
abbrev CR : UInt8 := 13

/-- Line feed. -/
abbrev LF : UInt8 := 10

/-- `"\r\n"`. -/
abbrev crlf : Bytes := [CR, LF]

theorem CR_ne_LF : CR ≠ LF := by decide

/-! ## Decimal numbers -/

/-- `std::to_string` of an unsigned number. -/
def toDecimal (n : Nat) : Bytes := ascii n.repr

/-- The number that a run of decimal digits denotes. -/
def decimalValue (ds : Bytes) : Nat := ds.foldl (fun acc b => acc * 10 + (b.toNat - 48)) 0

/-- A non-empty run of decimal digits and nothing else. -/
def IsDecimal (s : Bytes) : Prop := s ≠ [] ∧ ∀ b ∈ s, isDigit b = true

instance (s : Bytes) : Decidable (IsDecimal s) :=
  decidable_of_iff ((!s.isEmpty && s.all isDigit) = true) (by simp [IsDecimal])

/-- The digits in front of `s`, read as a number that must fit in 64 bits. -/
def readDigits (s : Bytes) : Option Nat :=
  let ds := s.takeWhile isDigit
  if ds = [] ∨ 2 ^ 64 ≤ decimalValue ds then none else some (decimalValue ds)

/-- `std::stoull` in base 10: leading white space and one sign are skipped,
the digits after them are read and the rest is ignored.  It throws when
there is no digit (`invalid_argument`) or when the digits denote more than
64 bits hold (`out_of_range`); after a minus sign the number is negated
modulo `2 ^ 64`. -/
def stoull (s : Bytes) : Option Nat :=
  match s.dropWhile isSpace with
  | [] => none
  | b :: s =>
    if b = 45 then (readDigits s).map fun n => (2 ^ 64 - n) % 2 ^ 64
    else if b = 43 then readDigits s
    else readDigits (b :: s)

/-- An optional sign in front of a number: whether it is a minus sign, and what
follows it. -/
def takeSign : Bytes → Bool × Bytes
  | [] => (false, [])
  | b :: s => if b = 45 then (true, s) else if b = 43 then (false, s) else (false, b :: s)

/-- The number that a sign and the value of some digits denote. -/
def signedValue (negative : Bool) (n : Nat) : Int := if negative then -n else n

/-- The range of `int`. -/
def IsInt32 (n : Int) : Prop := -2147483648 ≤ n ∧ n ≤ 2147483647

instance (n : Int) : Decidable (IsInt32 n) := inferInstanceAs (Decidable (_ ∧ _))

/-- `std::stoi` in base 10: leading white space and one sign are skipped, the
digits after them are read and the rest is ignored.  It throws when there is no
digit (`invalid_argument`) or when the number is not an `int`
(`out_of_range`). -/
def stoi (s : Bytes) : Option Int :=
  let (negative, rest) := takeSign (s.dropWhile isSpace)
  let ds := rest.takeWhile isDigit
  if ds = [] then none
  else if IsInt32 (signedValue negative (decimalValue ds)) then
    some (signedValue negative (decimalValue ds))
  else none

/-- On a run of digits `stoull` reads the number they denote, or throws when
it is too large. -/
theorem stoull_of_isDecimal {s : Bytes} (h : IsDecimal s) :
    stoull s = if decimalValue s < 2 ^ 64 then some (decimalValue s) else none := by
  obtain ⟨hne, hds⟩ := h
  cases s with
  | nil => contradiction
  | cons b s =>
      have hb : 48 ≤ b ∧ b ≤ 57 := by simpa [isDigit] using hds b (by simp)
      have hspace : isSpace b = false := by
        simp only [isSpace, Bool.or_eq_false_iff, decide_eq_false_iff_not]
        grind
      have htake : (b :: s).takeWhile isDigit = b :: s :=
        List.takeWhile_eq_self_iff.mpr hds
      have hdrop : (b :: s).dropWhile isSpace = b :: s := by simp [hspace]
      rw [stoull, hdrop]
      simp only [readDigits, htake, reduceCtorEq, false_or]
      grind

/-- A decimal digit character, as a byte. -/
theorem toNat_digit_byte {c : Char} (h : c.isDigit = true) :
    c.toNat.toUInt8.toNat = c.toNat ∧ 48 ≤ c.toNat ∧ c.toNat ≤ 57 := by
  simp only [Char.isDigit, Bool.and_eq_true, decide_eq_true_eq, ge_iff_le, UInt32.le_iff_toNat_le] at h
  have h48 : 48 ≤ c.toNat := h.1
  have h57 : c.toNat ≤ 57 := h.2
  refine ⟨?_, h48, h57⟩
  rw [Nat.toUInt8, UInt8.toNat_ofNat_of_lt' (by simp [UInt8.size]; omega)]

theorem isDecimal_toDecimal (n : Nat) : IsDecimal (toDecimal n) := by
  refine ⟨by simp [toDecimal, ascii, Nat.toList_repr], ?_⟩
  intro b hb
  simp only [toDecimal, ascii, Nat.toList_repr, List.mem_map] at hb
  obtain ⟨c, hc, rfl⟩ := hb
  have hd := toNat_digit_byte (Nat.isDigit_of_mem_toDigits (by decide) (by decide) hc)
  simp only [isDigit, Bool.and_eq_true, decide_eq_true_eq, UInt8.le_iff_toNat_le, hd.1]
  exact ⟨hd.2.1, hd.2.2⟩

/-- Reading a number undoes writing it. -/
theorem decimalValue_toDecimal (n : Nat) : decimalValue (toDecimal n) = n := by
  have hfold : ∀ (cs : List Char), (∀ c ∈ cs, c.isDigit = true) → ∀ acc,
      (cs.map fun c => c.toNat.toUInt8).foldl (fun acc b => acc * 10 + (b.toNat - 48)) acc =
        Nat.ofDigitChars 10 cs acc := by
    intro cs
    induction cs with
    | nil => intro _ acc; simp
    | cons c cs ih =>
        intro hcs acc
        have hc := toNat_digit_byte (hcs c (by simp))
        rw [List.map_cons, List.foldl_cons, ih (fun d hd => hcs d (by simp [hd])),
          Nat.ofDigitChars_cons, hc.1, Nat.mul_comm]
        rfl
  rw [decimalValue, toDecimal, ascii, Nat.toList_repr,
    hfold _ (fun c hc => Nat.isDigit_of_mem_toDigits (by decide) (by decide) hc)]
  exact Nat.ofDigitChars_ten_toDigits

theorem toDecimal_inj {m n : Nat} : toDecimal m = toDecimal n ↔ m = n := by
  constructor
  · intro h
    rw [← decimalValue_toDecimal m, h, decimalValue_toDecimal]
  · exact congrArg _

theorem stoull_toDecimal {n : Nat} (h : n < 2 ^ 64) : stoull (toDecimal n) = some n := by
  rw [stoull_of_isDecimal (isDecimal_toDecimal n), decimalValue_toDecimal, if_pos h]

end HttpsServer
