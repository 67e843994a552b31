import Mathlib.Algebra.Ring.Nat
import MyUnp.Atol

namespace MyUnp.Decimal

open MyUnp.Atol MyUnp.Unp

def digit (d : Nat) : Byte := UInt8.ofNat (48 + d)

/-- The digits of a number, of which no more than `fuel` are made. -/
def decimalDigits : Nat → Nat → List Byte
  | 0, _ => []
  | fuel + 1, n =>
      if n < 10 then [digit n] else decimalDigits fuel (n / 10) ++ [digit (n % 10)]

def decimal (n : Nat) : List Byte := decimalDigits (n + 1) n

theorem digit_toNat {d : Nat} (h : d < 10) : (digit d).toNat = 48 + d := by
  rw [digit, UInt8.toNat_ofNat', Nat.mod_eq_of_lt (by omega)]

theorem isDigit_digit {d : Nat} (h : d < 10) : isDigit (digit d) = true := by
  have hval := digit_toNat h
  simp only [isDigit, Bool.and_eq_true, decide_eq_true_eq, UInt8.le_iff_toNat_le, hval]
  refine ⟨?_, ?_⟩
  · change 48 ≤ 48 + d
    omega
  · change 48 + d ≤ 57
    omega

theorem decimalDigits_isDigit (fuel n : Nat) :
    ∀ c ∈ decimalDigits fuel n, isDigit c = true := by
  induction fuel generalizing n with
  | zero => exact List.forall_mem_nil _
  | succ fuel ih =>
      rw [decimalDigits]
      split_ifs with hn
      · exact List.forall_mem_singleton.mpr (isDigit_digit hn)
      · rw [List.forall_mem_append]
        exact ⟨ih (n / 10), List.forall_mem_singleton.mpr
          (isDigit_digit (Nat.mod_lt n (by decide)))⟩

def value (s : List Byte) : Nat := s.foldl (fun n c => 10 * n + (c.toNat - 48)) 0

theorem value_decimalDigits {fuel n : Nat} (h : n < fuel) :
    value (decimalDigits fuel n) = n := by
  induction fuel generalizing n with
  | zero => omega
  | succ fuel ih =>
      rw [decimalDigits]
      split_ifs with hn
      · rw [value, List.foldl_cons, List.foldl_nil, digit_toNat hn]
        omega
      · have hrec := ih (n := n / 10) (by omega)
        rw [value] at hrec
        rw [value, List.foldl_append, hrec, List.foldl_cons, List.foldl_nil,
          digit_toNat (Nat.mod_lt n (by decide))]
        omega

theorem decimalDigits_ne_nil (fuel n : Nat) : decimalDigits (fuel + 1) n ≠ [] := by
  rw [decimalDigits]
  split_ifs
  · exact List.cons_ne_nil _ _
  · exact List.append_ne_nil_of_right_ne_nil _ (List.cons_ne_nil _ _)

theorem decimalDigits_length_le (fuel n : Nat) :
    (decimalDigits fuel n).length ≤ n / 10 + 1 := by
  induction fuel generalizing n with
  | zero => exact Nat.zero_le _
  | succ fuel ih =>
      rw [decimalDigits]
      split_ifs with hn
      · exact Nat.le_add_left 1 _
      · have hrec := ih (n / 10)
        rw [List.length_append, List.length_singleton]
        omega

theorem decimalDigits_length_le_of_lt (fuel : Nat) {k n : Nat} (hk : 0 < k)
    (h : n < 10 ^ k) : (decimalDigits fuel n).length ≤ k := by
  induction k generalizing fuel n with
  | zero => exact absurd hk (Nat.lt_irrefl 0)
  | succ k ih =>
      cases fuel with
      | zero => exact Nat.zero_le _
      | succ fuel =>
          rw [decimalDigits]
          split_ifs with hn
          · exact Nat.le_add_left 1 k
          · have hpos : 0 < k := by
              rcases k with _ | k
              · omega
              · exact Nat.succ_pos k
            have hdiv : n / 10 < 10 ^ k := by
              rw [Nat.pow_succ] at h
              exact Nat.div_lt_of_lt_mul (by omega)
            rw [List.length_append, List.length_singleton]
            exact Nat.succ_le_succ (ih fuel hpos hdiv)

theorem decimal_isDigit (n : Nat) : ∀ c ∈ decimal n, isDigit c = true :=
  decimalDigits_isDigit _ n

theorem decimal_ne_nil (n : Nat) : decimal n ≠ [] := decimalDigits_ne_nil n n

theorem value_decimal (n : Nat) : value (decimal n) = n :=
  value_decimalDigits (Nat.lt_succ_self n)

theorem decimal_injective : Function.Injective decimal :=
  Function.LeftInverse.injective value_decimal

theorem isDigit_newline : isDigit newline = false := by decide

theorem digits_append {s : List Byte} (hs : ∀ c ∈ s, isDigit c = true) {c : Byte}
    (hc : isDigit c = false) (rest : List Byte) : digits (s ++ c :: rest) = value s := by
  have htake : (s ++ c :: rest).takeWhile isDigit = s := by
    rw [List.takeWhile_append_of_pos hs, List.takeWhile_cons_of_neg (by simp [hc]),
      List.append_nil]
  rw [digits, htake, value]

theorem not_isSpace_of_isDigit {c : Byte} (h : isDigit c = true) : isSpace c = false := by
  simp only [isDigit, Bool.and_eq_true, decide_eq_true_eq, UInt8.le_iff_toNat_le] at h
  obtain ⟨hlow, _⟩ := h
  change 48 ≤ c.toNat at hlow
  have hne : c ≠ 32 := by
    rintro rfl
    exact absurd hlow (by decide)
  simp only [isSpace, Bool.or_eq_false_iff, decide_eq_false_iff_not,
    Bool.and_eq_false_iff, UInt8.le_iff_toNat_le]
  refine ⟨hne, Or.inr ?_⟩
  change ¬ c.toNat ≤ 13
  omega

theorem isDigit_ne_sign {c : Byte} (h : isDigit c = true) : c ≠ 45 ∧ c ≠ 43 := by
  constructor
  · rintro rfl
    exact absurd h (by decide)
  · rintro rfl
    exact absurd h (by decide)

/-- `atol` reads a number back off a line that `printf` has made with `%d`. -/
theorem decimalValue_decimal (n : Nat) {c : Byte} (hc : isDigit c = false)
    (rest : List Byte) : decimalValue (decimal n ++ c :: rest) = n := by
  have hdigits := digits_append (decimal_isDigit n) hc rest
  rw [value_decimal] at hdigits
  cases hdec : decimal n with
  | nil => exact absurd hdec (decimal_ne_nil n)
  | cons d ds =>
      have hd : isDigit d = true := decimal_isDigit n d (by rw [hdec]; exact List.mem_cons_self)
      rw [hdec] at hdigits
      rw [decimalValue, List.cons_append, List.dropWhile_cons_of_neg
        (by simp [not_isSpace_of_isDigit hd])]
      obtain ⟨hminus, hplus⟩ := isDigit_ne_sign hd
      dsimp only
      rw [if_neg hminus, if_neg hplus, ← List.cons_append, hdigits]

section Literals

def bytes (s : String) : List Byte := s.toList.map fun c => UInt8.ofNat c.toNat

theorem bytes_append (s t : String) : bytes (s ++ t) = bytes s ++ bytes t := by
  rw [bytes, String.toList_append, List.map_append, bytes, bytes]

theorem digitChar_toNat : ∀ d < 10, UInt8.ofNat (Nat.digitChar d).toNat = digit d := by
  decide

theorem decimalDigits_eq_toDigits {fuel n : Nat} (h : n < fuel) :
    decimalDigits fuel n = (Nat.toDigits 10 n).map fun c => UInt8.ofNat c.toNat := by
  induction fuel generalizing n with
  | zero => exact absurd h (Nat.not_lt_zero n)
  | succ fuel ih =>
      rw [decimalDigits, Nat.toDigits_eq_if (by decide)]
      split_ifs with hn
      · rw [List.map_singleton, digitChar_toNat n hn]
      · rw [List.map_append, List.map_singleton, ih (by omega),
          digitChar_toNat _ (Nat.mod_lt n (by decide))]

theorem bytes_toString (n : Nat) : bytes (toString n) = decimal n := by
  rw [decimal, decimalDigits_eq_toDigits (Nat.lt_succ_self n)]
  change n.repr.toList.map _ = _
  rw [Nat.toList_repr]

end Literals

end MyUnp.Decimal
