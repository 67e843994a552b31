import MyUnp.Decimal
import MyUnp.Printf

namespace MyUnp.InetNtop

open MyUnp.Atol MyUnp.Decimal MyUnp.Printf MyUnp.Unp

def AF_INET : Int := 2

def INET_ADDRSTRLEN : Nat := 16

structure InAddr where
  p0 : Byte
  p1 : Byte
  p2 : Byte
  p3 : Byte
  deriving DecidableEq

inductive Errno
  | ENOSPC
  | EAFNOSUPPORT
  deriving DecidableEq

def dot : Byte := 46

def dotted (a : InAddr) : List Byte :=
  decimal a.p0.toNat ++ dot :: (decimal a.p1.toNat ++ dot :: (decimal a.p2.toNat ++
    dot :: decimal a.p3.toNat))

/-- The end of a call: whether it returns `strptr` and not `NULL`, what it has set
`errno` to, and the bytes it has written, the first of them at `strptr`. -/
structure Ntop where
  strptr : Bool
  errno : Option Errno
  written : List Byte
  deriving DecidableEq

def inet_ntop (family : Int) (addr : InAddr) (len : Nat) : Ntop :=
  if family = AF_INET then
    let temp := snprintf INET_ADDRSTRLEN (dotted addr)
    -- equal lengths pass, though `strcpy` has the NUL to write as well
    if temp.length > len then ⟨false, some .ENOSPC, []⟩
    else ⟨true, none, temp ++ [0]⟩
  else ⟨false, some .EAFNOSUPPORT, []⟩

theorem decimal_byte_length (b : Byte) :
    1 ≤ (decimal b.toNat).length ∧ (decimal b.toNat).length ≤ 3 := by
  refine ⟨List.length_pos_iff.mpr (decimal_ne_nil _), ?_⟩
  apply decimalDigits_length_le_of_lt _ (by decide)
  have hb := b.toNat_lt
  omega

theorem dotted_length (a : InAddr) : 7 ≤ (dotted a).length ∧ (dotted a).length ≤ 15 := by
  have h0 := decimal_byte_length a.p0
  have h1 := decimal_byte_length a.p1
  have h2 := decimal_byte_length a.p2
  have h3 := decimal_byte_length a.p3
  simp only [dotted, List.length_append, List.length_cons]
  omega

theorem temp_eq (a : InAddr) : snprintf INET_ADDRSTRLEN (dotted a) = dotted a :=
  snprintf_of_length_lt (Nat.lt_succ_of_le (dotted_length a).2)

theorem dotted_chars (a : InAddr) : ∀ c ∈ dotted a, isDigit c = true ∨ c = dot := by
  have hbyte : ∀ b : Byte, ∀ c ∈ decimal b.toNat, isDigit c = true ∨ c = dot :=
    fun _ c hc => .inl (decimal_isDigit _ c hc)
  simp only [dotted, List.forall_mem_append, List.forall_mem_cons]
  exact ⟨hbyte a.p0, .inr trivial, hbyte a.p1, .inr trivial, hbyte a.p2, .inr trivial,
    hbyte a.p3⟩

theorem zero_not_mem_dotted (a : InAddr) : (0 : Byte) ∉ dotted a := by
  intro hmem
  rcases dotted_chars a 0 hmem with h | h
  · exact absurd h (by decide)
  · exact absurd h (by decide)

theorem inet_ntop_inet (a : InAddr) (len : Nat) :
    inet_ntop AF_INET a len =
      if (dotted a).length > len then ⟨false, some .ENOSPC, []⟩
      else ⟨true, none, dotted a ++ [0]⟩ := by
  rw [inet_ntop, if_pos rfl, temp_eq]

/-- What a caller with a buffer of `len` bytes may expect. -/
def Contract (a : InAddr) (len : Nat) (r : Ntop) : Prop :=
  (r.strptr = false ∧ r.errno = some .ENOSPC ∧ r.written = [] ∨
    r.strptr = true ∧ r.written = dotted a ++ [0] ∧ r.written.length ≤ len) ∧
  (r.strptr = false → len < (dotted a ++ [0]).length)

instance (a : InAddr) (len : Nat) (r : Ntop) : Decidable (Contract a len r) :=
  inferInstanceAs (Decidable ((_ ∨ _) ∧ (_ → _)))

/-- The one length that goes wrong holds the text, but not the NUL behind it. -/
theorem inet_ntop_contract_iff (a : InAddr) (len : Nat) :
    Contract a len (inet_ntop AF_INET a len) ↔ len ≠ (dotted a).length := by
  have hfull : (dotted a ++ [0]).length = (dotted a).length + 1 := List.length_append
  rw [inet_ntop_inet, Contract]
  split_ifs with hlong
  · refine iff_of_true ⟨.inl ⟨rfl, rfl, rfl⟩, fun _ => ?_⟩ ?_
    · omega
    · omega
  · constructor
    · rintro ⟨⟨hnull, _⟩ | ⟨_, _, hfit⟩, _⟩
      · cases hnull
      · rw [hfull] at hfit
        omega
    · intro hne
      refine ⟨.inr ⟨rfl, rfl, ?_⟩, fun hnull => ?_⟩
      · rw [hfull]
        omega
      · cases hnull

/-- `"127.0.0.1"` into nine bytes. -/
theorem inet_ntop_exact_fit :
    ¬ Contract ⟨127, 0, 0, 1⟩ 9 (inet_ntop AF_INET ⟨127, 0, 0, 1⟩ 9) := by
  decide

end MyUnp.InetNtop
