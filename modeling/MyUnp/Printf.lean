import MyUnp.Unp

namespace MyUnp.Printf

open MyUnp.Unp

def blank : Byte := 32

structure Conversion where
  text : List Byte
  read : Nat
  deriving DecidableEq

def limit (precision : Option Nat) (mem : List Byte) : List Byte :=
  match precision with
  | none => mem
  | some p => mem.take p

/-- `mem` is the memory from the start of the array on. A negative width is one with
the flag `-`. -/
def formatS (width : Int) (precision : Option Nat) (mem : List Byte) : Conversion :=
  let s := cString (limit precision mem)
  let pad := List.replicate (width.natAbs - s.length) blank
  { text := if width < 0 then s ++ pad else pad ++ s
    read := if s.length < (limit precision mem).length then s.length + 1 else s.length }

def snprintf (size : Nat) (text : List Byte) : List Byte := text.take (size - 1)

theorem snprintf_of_length_lt {size : Nat} {text : List Byte} (h : text.length < size) :
    snprintf size text = text := List.take_of_length_le (by omega)

theorem formatS_zero (width : Nat) (mem : List Byte) :
    formatS width (some 0) mem = ⟨List.replicate width blank, 0⟩ := by
  simp [formatS, limit, cString]

theorem formatS_none_text (mem : List Byte) : (formatS 0 none mem).text = cString mem := by
  simp [formatS, limit]

theorem formatS_read_le (width : Int) (mem : List Byte) :
    (formatS width none mem).read ≤ (cString mem).length + 1 := by
  change (if _ then _ else _) ≤ _
  split_ifs
  · exact Nat.le_refl _
  · exact Nat.le_succ _

theorem formatS_length (width : Nat) (precision : Option Nat) (mem : List Byte) :
    (formatS width precision mem).text.length =
      max width (cString (limit precision mem)).length := by
  have hpos : ¬ (width : Int) < 0 := by omega
  simp only [formatS, if_neg hpos, List.length_append, List.length_replicate]
  omega

end MyUnp.Printf
