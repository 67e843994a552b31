import MyUnp.Atol

namespace MyUnp.Strtol

open MyUnp.Atol MyUnp.Unp

def digitVal (c : Byte) : Nat :=
  if 48 ≤ c ∧ c ≤ 57 then c.toNat - 48
  else if 97 ≤ c ∧ c ≤ 122 then c.toNat - 87
  else if 65 ≤ c ∧ c ≤ 90 then c.toNat - 55
  else 36

def isDigitIn (base : Nat) (c : Byte) : Bool := digitVal c < base

def valueIn (base : Nat) (s : List Byte) : Nat :=
  s.foldl (fun n c => base * n + digitVal c) 0

/-- The base that the beginning of a number tells, and where its digits begin. `0x`
with no digit behind it is the number 0. -/
def prefixBase (s : List Byte) : Nat × List Byte :=
  match s with
  | [] => (10, s)
  | c :: rest =>
      if c = 48 then
        match rest with
        | x :: d :: more =>
            if (x = 120 ∨ x = 88) ∧ isDigitIn 16 d = true then (16, d :: more) else (8, s)
        | _ => (8, s)
      else (10, s)

def magnitude (s : List Byte) : Nat :=
  let p := prefixBase s
  valueIn p.1 (p.2.takeWhile (isDigitIn p.1))

/-- The number at the start of `s`, with blanks and a sign in front of it; 0 if there
is none. -/
def numberValue (s : List Byte) : Int :=
  match s.dropWhile isSpace with
  | [] => 0
  | c :: rest =>
      if c = 45 then -(magnitude rest : Int)
      else if c = 43 then magnitude rest
      else magnitude (c :: rest)

/-- `strtol(s, NULL, 0)`: out of range it returns the nearest `long`. -/
def strtol (s : List Byte) : Int := max LONG_MIN (min LONG_MAX (numberValue s))

inductive Magnitude : List Byte → Nat → Prop
  | decimal {d : Byte} {ds : List Byte} (hd : d ≠ 48)
      (hds : ∀ c ∈ d :: ds, isDigitIn 10 c = true) :
      Magnitude (d :: ds) (valueIn 10 (d :: ds))
  | octal {ds : List Byte} (hds : ∀ c ∈ ds, isDigitIn 8 c = true) :
      Magnitude (48 :: ds) (valueIn 8 ds)
  | hexadecimal {x d : Byte} {ds : List Byte} (hx : x = 120 ∨ x = 88)
      (hds : ∀ c ∈ d :: ds, isDigitIn 16 c = true) :
      Magnitude (48 :: x :: d :: ds) (valueIn 16 (d :: ds))

inductive Numeral : List Byte → Int → Prop
  | unsigned {blanks m : List Byte} {n : Nat} (hblanks : ∀ c ∈ blanks, isSpace c = true)
      (hm : Magnitude m n) : Numeral (blanks ++ m) n
  | plus {blanks m : List Byte} {n : Nat} (hblanks : ∀ c ∈ blanks, isSpace c = true)
      (hm : Magnitude m n) : Numeral (blanks ++ 43 :: m) n
  | minus {blanks m : List Byte} {n : Nat} (hblanks : ∀ c ∈ blanks, isSpace c = true)
      (hm : Magnitude m n) : Numeral (blanks ++ 45 :: m) (-n)

variable {c : Byte} {m : List Byte} {n : Nat}

theorem takeWhile_digits {p : Byte → Bool} {s : List Byte} (hs : ∀ d ∈ s, p d = true)
    (hc : p c = false) (rest : List Byte) : (s ++ c :: rest).takeWhile p = s := by
  rw [List.takeWhile_append_of_pos hs, List.takeWhile_cons_of_neg (by simp [hc]),
    List.append_nil]

theorem not_isDigitIn_of_le {base base' : Nat} (h : isDigitIn base c = false)
    (hle : base' ≤ base) : isDigitIn base' c = false := by
  simp only [isDigitIn, decide_eq_false_iff_not] at h ⊢
  omega

theorem prefixBase_octal {s : List Byte} (hs : ∀ d ∈ s, isDigitIn 8 d = true)
    (hc : c ≠ 120 ∧ c ≠ 88) (rest : List Byte) :
    prefixBase (48 :: (s ++ c :: rest)) = (8, 48 :: (s ++ c :: rest)) := by
  -- what follows the 0 is no x
  have hnext : ∀ x ∈ (s ++ [c]).head?, ¬ (x = 120 ∨ x = 88) := by
    intro x hx hhex
    cases s with
    | nil =>
        obtain rfl : c = x := Option.some_inj.mp hx
        exact hhex.elim hc.1 hc.2
    | cons d s =>
        obtain rfl : d = x := Option.some_inj.mp hx
        have hd := hs d List.mem_cons_self
        rcases hhex with rfl | rfl
        · exact absurd hd (by decide)
        · exact absurd hd (by decide)
  unfold prefixBase
  dsimp only
  rw [if_pos rfl]
  cases s with
  | nil =>
      cases rest with
      | nil => rfl
      | cons d rest => exact if_neg fun h => hnext c rfl h.1
  | cons x s =>
      have hx := hnext x rfl
      cases s with
      | nil => exact if_neg fun h => hx h.1
      | cons d s => exact if_neg fun h => hx h.1

theorem magnitude_append (h : Magnitude m n) (hc : isDigitIn 16 c = false)
    (hx : c ≠ 120 ∧ c ≠ 88) (rest : List Byte) : magnitude (m ++ c :: rest) = n := by
  cases h with
  | @decimal d ds hd hds =>
      have hbase : prefixBase (d :: ds ++ c :: rest) = (10, d :: ds ++ c :: rest) :=
        if_neg hd
      rw [magnitude, hbase]
      dsimp only
      rw [takeWhile_digits hds (not_isDigitIn_of_le hc (by decide))]
  | @octal ds hds =>
      have hall : ∀ d ∈ 48 :: ds, isDigitIn 8 d = true :=
        List.forall_mem_cons.mpr ⟨by decide, hds⟩
      rw [magnitude, List.cons_append, prefixBase_octal hds hx]
      dsimp only
      rw [← List.cons_append, takeWhile_digits hall (not_isDigitIn_of_le hc (by decide))]
      rfl
  | @hexadecimal x d ds hhex hds =>
      have hbase : prefixBase (48 :: x :: d :: ds ++ c :: rest) =
          (16, d :: ds ++ c :: rest) :=
        if_pos ⟨hhex, hds d List.mem_cons_self⟩
      rw [magnitude, hbase]
      dsimp only
      rw [takeWhile_digits hds hc]

theorem not_isSpace_of_isDigitIn {base : Nat} (hbase : base ≤ 36)
    (h : isDigitIn base c = true) : isSpace c = false := by
  cases hspace : isSpace c with
  | false => rfl
  | true =>
      have hval : digitVal c = 36 := by
        simp only [isSpace, Bool.or_eq_true, Bool.and_eq_true, decide_eq_true_eq,
          UInt8.le_iff_toNat_le] at hspace
        have hlow : c.toNat ≤ 32 := by
          rcases hspace with rfl | ⟨_, hle⟩
          · decide
          · exact Nat.le_trans hle (by decide)
        have habove : ∀ d : Byte, 48 ≤ d.toNat → ¬ d ≤ c := by
          intro d hd hle
          rw [UInt8.le_iff_toNat_le] at hle
          omega
        have h48 := habove 48 (by decide)
        have h65 := habove 65 (by decide)
        have h97 := habove 97 (by decide)
        rw [digitVal, if_neg (fun h => h48 h.1), if_neg (fun h => h97 h.1),
          if_neg (fun h => h65 h.1)]
      simp only [isDigitIn, decide_eq_true_eq] at h
      omega

theorem Magnitude.head (h : Magnitude m n) :
    ∃ d ds, m = d :: ds ∧ isSpace d = false ∧ d ≠ 45 ∧ d ≠ 43 := by
  cases h with
  | @decimal d ds _ hds =>
      have hd := hds d List.mem_cons_self
      refine ⟨d, ds, rfl, not_isSpace_of_isDigitIn (by decide) hd, ?_, ?_⟩
      · rintro rfl
        exact absurd hd (by decide)
      · rintro rfl
        exact absurd hd (by decide)
  | octal => exact ⟨48, _, rfl, by decide, by decide, by decide⟩
  | hexadecimal => exact ⟨48, _, rfl, by decide, by decide, by decide⟩

theorem dropWhile_blanks {blanks : List Byte} (hblanks : ∀ c ∈ blanks, isSpace c = true)
    {d : Byte} (hd : isSpace d = false) (rest : List Byte) :
    (blanks ++ d :: rest).dropWhile isSpace = d :: rest := by
  rw [List.dropWhile_append_of_pos hblanks, List.dropWhile_cons_of_neg (by simp [hd])]

theorem numberValue_numeral {s : List Byte} {x : Int} (h : Numeral s x)
    (hc : isDigitIn 16 c = false) (hx : c ≠ 120 ∧ c ≠ 88) (rest : List Byte) :
    numberValue (s ++ c :: rest) = x := by
  cases h with
  | @unsigned blanks m n hblanks hm =>
      have hvalue := magnitude_append hm hc hx rest
      obtain ⟨d, ds, rfl, hspace, hminus, hplus⟩ := hm.head
      rw [numberValue, List.append_assoc, List.cons_append,
        dropWhile_blanks hblanks hspace]
      dsimp only
      rw [if_neg hminus, if_neg hplus, ← List.cons_append, hvalue]
  | @plus blanks m n hblanks hm =>
      rw [numberValue, List.append_assoc, List.cons_append,
        dropWhile_blanks hblanks (by decide)]
      dsimp only
      rw [if_neg (by decide), if_pos rfl, magnitude_append hm hc hx]
  | @minus blanks m n hblanks hm =>
      rw [numberValue, List.append_assoc, List.cons_append,
        dropWhile_blanks hblanks (by decide)]
      dsimp only
      rw [if_pos rfl, magnitude_append hm hc hx]

theorem strtol_numeral {s : List Byte} {x : Int} (h : Numeral s x)
    (hrange : LONG_MIN ≤ x ∧ x ≤ LONG_MAX) (hc : isDigitIn 16 c = false)
    (hx : c ≠ 120 ∧ c ≠ 88) (rest : List Byte) : strtol (s ++ c :: rest) = x := by
  rw [strtol, numberValue_numeral h hc hx]
  omega

/-- `" 0x1F]"` -/
example : strtol [32, 48, 120, 49, 70, 93] = 31 := by decide

end MyUnp.Strtol
