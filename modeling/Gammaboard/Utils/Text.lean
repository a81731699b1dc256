import Mathlib.Data.List.DropRight
import Mathlib.Tactic.Common

/-!
# Text

The parts of the standard library that read and write text: UTF-8, white space
and decimal numbers.
-/

namespace Gammaboard.Utils

abbrev Bytes := List UInt8

def usizeMax : Nat := UInt64.size - 1

def encodeUtf8 (text : List Char) : Bytes := text.flatMap String.utf8EncodeChar

/-- `String::from_utf8` -/
def fromUtf8 (bytes : Bytes) : Option (List Char) :=
  bytes.toByteArray.utf8Decode?.map Array.toList

/-- The Unicode property `White_Space`. -/
def isWhiteSpace (c : Char) : Bool :=
  (9 ≤ c.toNat && c.toNat ≤ 13) || c.toNat == 0x20 || c.toNat == 0x85 || c.toNat == 0xa0 ||
    c.toNat == 0x1680 || (0x2000 ≤ c.toNat && c.toNat ≤ 0x200a) || c.toNat == 0x2028 ||
    c.toNat == 0x2029 || c.toNat == 0x202f || c.toNat == 0x205f || c.toNat == 0x3000

def trim (text : List Char) : List Char := (text.dropWhile isWhiteSpace).rdropWhile isWhiteSpace

/-- `text.trim().is_empty()` -/
def isBlank (text : String) : Bool := text.toList.all isWhiteSpace

def withoutPlus : List Char → List Char
  | '+' :: rest => rest
  | text => text

/-- `parse::<usize>()`: decimal digits, with or without a plus sign. -/
def parseUsize (text : List Char) : Option Nat :=
  let digits := withoutPlus text
  if digits.isEmpty || !digits.all Char.isDigit then none
  else
    let n := Nat.ofDigitChars 10 digits 0
    if n ≤ usizeMax then some n else none

/-! ## UTF-8 -/

theorem encodeUtf8_append (a b : List Char) : encodeUtf8 (a ++ b) = encodeUtf8 a ++ encodeUtf8 b :=
  List.flatMap_append

theorem fromUtf8_encodeUtf8 (text : List Char) : fromUtf8 (encodeUtf8 text) = some text := by
  have h : (encodeUtf8 text).toByteArray = text.utf8Encode := rfl
  simp [fromUtf8, h]

/-! ## Decimal numbers -/

variable {n : Nat}

theorem isDigit_of_mem_digits {c : Char} (hc : c ∈ Nat.toDigits 10 n) : c.isDigit = true :=
  Nat.isDigit_of_mem_toDigits (by decide) (by decide) hc

theorem withoutPlus_digits : withoutPlus (Nat.toDigits 10 n) = Nat.toDigits 10 n := by
  unfold withoutPlus
  split
  · rename_i rest heq
    have hplus := @isDigit_of_mem_digits n '+' (heq ▸ List.mem_cons_self)
    exact absurd hplus (by decide)
  · rfl

/-- The digits of a number are read back. -/
theorem parseUsize_digits (h : n ≤ usizeMax) : parseUsize (Nat.toDigits 10 n) = some n := by
  unfold parseUsize
  rw [withoutPlus_digits]
  have hall : (Nat.toDigits 10 n).all Char.isDigit = true :=
    List.all_eq_true.2 fun c hc => isDigit_of_mem_digits hc
  have hne : (Nat.toDigits 10 n).isEmpty = false := by
    simp [Nat.toDigits_ne_nil]
  simp [hall, hne, h]

/-! ## Signed numbers -/

/-- The sign and the digits of a decimal number. -/
def signed : List Char → Bool × List Char
  | '-' :: rest => (true, rest)
  | text => (false, withoutPlus text)

/-- A decimal number with or without a sign, however large. -/
def ofDecimal (text : List Char) : Option Int :=
  let (negative, digits) := signed text
  if digits.isEmpty || !digits.all Char.isDigit then none
  else
    let n : Int := Nat.ofDigitChars 10 digits 0
    some (if negative then -n else n)

/-- `parse::<i64>()` -/
def parseI64 (text : List Char) : Option Int :=
  (ofDecimal text).filter fun n => -9223372036854775808 ≤ n && n ≤ 9223372036854775807

theorem toList_toString (n : Int) : (toString n).toList =
    if 0 ≤ n then Nat.toDigits 10 n.toNat else '-' :: Nat.toDigits 10 (-n).toNat := by
  rw [Int.toString_eq_repr, Int.repr_eq_if]
  split
  · rw [Nat.toList_repr]
  · rw [String.toList_append, Nat.toList_repr]
    rfl

/-- The text of a number is read back. -/
theorem ofDecimal_toString (n : Int) : ofDecimal (toString n).toList = some n := by
  have hall : ∀ m : Nat, (Nat.toDigits 10 m).all Char.isDigit = true :=
    fun m => List.all_eq_true.2 fun c hc => isDigit_of_mem_digits hc
  have hne : ∀ m : Nat, (Nat.toDigits 10 m).isEmpty = false := by
    simp [Nat.toDigits_ne_nil]
  rw [toList_toString]
  unfold ofDecimal
  by_cases hn : 0 ≤ n
  · have hsigned : signed (Nat.toDigits 10 n.toNat) = (false, Nat.toDigits 10 n.toNat) := by
      unfold signed
      split
      · rename_i rest heq
        have hminus := @isDigit_of_mem_digits n.toNat '-' (heq ▸ List.mem_cons_self)
        exact absurd hminus (by decide)
      · rw [withoutPlus_digits]
    rw [if_pos hn, hsigned]
    simp [hall, hne, Int.max_eq_left hn]
  · rw [if_neg hn]
    simp only [signed, hall, hne, Nat.ofDigitChars_ten_toDigits]
    simp only [Bool.not_true, Bool.or_self, Bool.false_eq_true, if_false, if_true]
    rw [Int.toNat_of_nonneg (by omega), Int.neg_neg]

theorem comma_notMem_toString (n : Int) : ',' ∉ (toString n).toList := by
  have hdigits : ∀ m : Nat, ',' ∉ Nat.toDigits 10 m := fun m hm =>
    absurd (isDigit_of_mem_digits hm) (by decide)
  rw [toList_toString]
  split
  · exact hdigits _
  · rw [List.mem_cons, not_or]
    exact ⟨by decide, hdigits _⟩

/-! ## Numbers between commas -/

/-- The decimal numbers of a list, with commas between them. -/
def joinInts (l : List Int) : String := ",".intercalate (l.map toString)

/-- The numbers of a list can be told from the text. -/
theorem splitOn_joinInts {l : List Int} (hl : l ≠ []) :
    (joinInts l).toList.splitOn ',' = l.map fun n => (toString n).toList := by
  unfold joinInts
  rw [String.toList_intercalate, List.map_map]
  show List.splitOn ',' ([','].intercalate _) = _
  rw [List.splitOn_intercalate]
  · rfl
  · intro text htext
    obtain ⟨n, -, rfl⟩ := List.mem_map.1 htext
    exact comma_notMem_toString n
  · simpa using hl

theorem joinInts_injective {l l' : List Int} (hl : l ≠ []) (hl' : l' ≠ [])
    (h : joinInts l = joinInts l') : l = l' := by
  have hsplit := splitOn_joinInts hl
  rw [h, splitOn_joinInts hl'] at hsplit
  have hread := congrArg (List.map ofDecimal) hsplit
  simp only [List.map_map, Function.comp_def, ofDecimal_toString] at hread
  exact (List.map_injective_iff.2 (fun _ _ => Option.some.inj) hread).symm

end Gammaboard.Utils
