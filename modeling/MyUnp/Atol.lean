import MyUnp.Unp

namespace MyUnp.Atol

open MyUnp.Unp

/-- `isspace` in the C locale. -/
def isSpace (c : Byte) : Bool := c = 32 || (9 ≤ c && c ≤ 13)

def isDigit (c : Byte) : Bool := 48 ≤ c && c ≤ 57

def digits (s : List Byte) : Nat :=
  (s.takeWhile isDigit).foldl (fun n c => 10 * n + (c.toNat - 48)) 0

/-- The decimal number at the start of a string, with blanks and a sign in
front of it; 0 if there is none. A NUL ends it as any other character does. -/
def decimalValue (s : List Byte) : Int :=
  match s.dropWhile isSpace with
  | [] => 0
  | c :: rest =>
      if c = 45 then -(digits rest : Int)
      else if c = 43 then digits rest
      else digits (c :: rest)

def LONG_MIN : Int := -9223372036854775808

def LONG_MAX : Int := 9223372036854775807

/-- Out of range, `strtol` returns the nearest `long`. -/
def atol (s : List Byte) : Int := max LONG_MIN (min LONG_MAX (decimalValue s))

def toInt (x : Int) : Int := Int.bmod x 4294967296

def IsInt (x : Int) : Prop := -2147483648 ≤ x ∧ x ≤ 2147483647

theorem atol_of_isInt {s : List Byte} (h : IsInt (decimalValue s)) :
    atol s = decimalValue s := by
  obtain ⟨hlo, hhi⟩ := h
  rw [atol, LONG_MIN, LONG_MAX]
  omega

theorem toInt_of_isInt {x : Int} (h : IsInt x) : toInt x = x := by
  obtain ⟨hlo, hhi⟩ := h
  apply Int.bmod_eq_of_le
  · omega
  · omega

theorem toInt_atol {s : List Byte} (h : IsInt (decimalValue s)) :
    toInt (atol s) = decimalValue s := by
  rw [atol_of_isInt h, toInt_of_isInt h]

/-- `"4294967301"` is 5 as an `int`. -/
example : toInt (atol [52, 50, 57, 52, 57, 54, 55, 51, 48, 49]) = 5 := by decide

end MyUnp.Atol
