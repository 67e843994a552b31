import Mathlib.Data.List.TakeWhile

namespace MyUnp.Unp

abbrev Byte := UInt8

def MAXLINE : Nat := 4096

theorem MAXLINE_pos : 0 < MAXLINE := by decide

def newline : Byte := 10

/-- What one `read` into an array of `MAXLINE` bytes stores: between 1 and
`MAXLINE` bytes. -/
structure Segment where
  head : Byte
  tail : List Byte
  bound : tail.length < MAXLINE
  deriving DecidableEq

def Segment.bytes (g : Segment) : List Byte := g.head :: g.tail

/-- The C string at the start of an array: everything before the first NUL.
`strlen` is its length. -/
def cString (s : List Byte) : List Byte := s.takeWhile (· ≠ 0)

theorem cString_prefix_self (s : List Byte) : cString s <+: s := List.takeWhile_prefix _

theorem zero_not_mem_cString (s : List Byte) : (0 : Byte) ∉ cString s := by
  intro h
  have := List.mem_takeWhile_imp h
  simp at this

theorem cString_eq_self {s : List Byte} (h : (0 : Byte) ∉ s) : cString s = s := by
  rw [cString, List.takeWhile_eq_self_iff]
  intro c hc
  have hne : c ≠ 0 := by
    rintro rfl
    exact h hc
  simpa using hne

theorem cString_append_of_not_mem {s : List Byte} (h : (0 : Byte) ∉ s) (t : List Byte) :
    cString (s ++ t) = s ++ cString t := by
  apply List.takeWhile_append_of_pos
  intro c hc
  have hne : c ≠ 0 := by
    rintro rfl
    exact h hc
  simpa using hne

theorem cString_append_nul (s t : List Byte) : cString (s ++ 0 :: t) = cString s := by
  rw [cString, List.takeWhile_append]
  split_ifs with hall
  · rw [List.takeWhile_cons_of_neg (by simp), List.append_nil, cString]
    exact (List.IsPrefix.eq_of_length (List.takeWhile_prefix _) hall).symm
  · rfl

theorem cString_append_of_mem {s : List Byte} (h : (0 : Byte) ∈ s) (t : List Byte) :
    cString (s ++ t) = cString s := by
  obtain ⟨front, back, rfl⟩ := List.append_of_mem h
  rw [List.append_assoc, List.cons_append, cString_append_nul, cString_append_nul]

end MyUnp.Unp
