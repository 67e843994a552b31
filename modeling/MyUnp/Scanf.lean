import Mathlib.Data.List.DropRight
import MyUnp.Decimal
import MyUnp.Strtol

namespace MyUnp.Scanf

open MyUnp.Atol MyUnp.Decimal MyUnp.Strtol MyUnp.Unp

def IsLong (x : Int) : Prop := LONG_MIN ≤ x ∧ x ≤ LONG_MAX

instance (x : Int) : Decidable (IsLong x) := inferInstanceAs (Decidable (_ ∧ _))

def formatLd (x : Int) : List Byte :=
  if x < 0 then 45 :: decimal x.natAbs else decimal x.natAbs

/-- Out of range, the nearest `long` is stored. -/
def nearest (x : Int) : Int := max LONG_MIN (min LONG_MAX x)

/-- The digits at the start of `s` behind a sign, and what follows them. -/
def scanDigits (minus : Bool) (s : List Byte) : Option (Int × List Byte) :=
  let n := value (s.takeWhile isDigit)
  if s.takeWhile isDigit = [] then none
  else some (nearest (if minus then -n else n), s.dropWhile isDigit)

def scanLd (s : List Byte) : Option (Int × List Byte) :=
  match s.dropWhile isSpace with
  | [] => none
  | c :: rest =>
      if c = 45 then scanDigits true rest
      else if c = 43 then scanDigits false rest
      else scanDigits false (c :: rest)

/-- `sscanf(s, "%ld %ld", &arg1, &arg2)`, where the result is 2. -/
def scanTwo (s : List Byte) : Option (Int × Int) :=
  match scanLd s with
  | none => none
  | some (arg1, s) =>
      match scanLd (s.dropWhile isSpace) with
      | none => none
      | some (arg2, _) => some (arg1, arg2)

inductive Numeral : List Byte → Int → Prop
  | unsigned {ds : List Byte} (hne : ds ≠ []) (hds : ∀ c ∈ ds, isDigit c = true) :
      Numeral ds (value ds)
  | plus {ds : List Byte} (hne : ds ≠ []) (hds : ∀ c ∈ ds, isDigit c = true) :
      Numeral (43 :: ds) (value ds)
  | minus {ds : List Byte} (hne : ds ≠ []) (hds : ∀ c ∈ ds, isDigit c = true) :
      Numeral (45 :: ds) (-value ds)

theorem nearest_of_isLong {x : Int} (h : IsLong x) : nearest x = x := by
  obtain ⟨hlow, hhigh⟩ := h
  rw [nearest]
  omega

section Writing

theorem formatLd_numeral (x : Int) : Numeral (formatLd x) x := by
  have hvalue := value_decimal x.natAbs
  rw [formatLd]
  split_ifs with hneg
  · have hminus := Numeral.minus (decimal_ne_nil x.natAbs) (decimal_isDigit x.natAbs)
    rw [hvalue] at hminus
    rwa [show -(x.natAbs : Int) = x by omega] at hminus
  · have hplain := Numeral.unsigned (decimal_ne_nil x.natAbs) (decimal_isDigit x.natAbs)
    rw [hvalue] at hplain
    rwa [show (x.natAbs : Int) = x by omega] at hplain

theorem formatLd_length_le {x : Int} (h : IsLong x) : (formatLd x).length ≤ 20 := by
  obtain ⟨hlow, hhigh⟩ := h
  rw [LONG_MIN] at hlow
  rw [LONG_MAX] at hhigh
  have hdigits : (decimal x.natAbs).length ≤ 19 := by
    apply decimalDigits_length_le_of_lt _ (by decide)
    omega
  rw [formatLd]
  split_ifs
  · rw [List.length_cons]
    omega
  · omega

end Writing

section Reading

variable {ds m n rest : List Byte} {x y : Int}

def Stops (rest : List Byte) : Prop := ∀ c ∈ rest.head?, isDigit c = false

theorem scanDigits_append (hne : ds ≠ []) (hds : ∀ c ∈ ds, isDigit c = true)
    (hrest : Stops rest) (minus : Bool) :
    scanDigits minus (ds ++ rest) =
      some (nearest (if minus then -value ds else value ds), rest) := by
  have hboth : (ds ++ rest).takeWhile isDigit = ds ∧ (ds ++ rest).dropWhile isDigit = rest := by
    rw [List.takeWhile_append_of_pos hds, List.dropWhile_append_of_pos hds]
    cases rest with
    | nil => exact ⟨List.append_nil ds, rfl⟩
    | cons c rest =>
        have hc : ¬ isDigit c = true := by
          rw [hrest c rfl]
          decide
        rw [List.takeWhile_cons_of_neg hc, List.dropWhile_cons_of_neg hc]
        exact ⟨List.append_nil ds, rfl⟩
  rw [scanDigits, hboth.1, hboth.2, if_neg hne]

theorem scanLd_numeral {blanks : List Byte} (hblanks : ∀ c ∈ blanks, isSpace c = true)
    (hm : Numeral m x) (hx : IsLong x) (hrest : Stops rest) :
    scanLd (blanks ++ m ++ rest) = some (x, rest) := by
  have hnearest := nearest_of_isLong hx
  cases hm with
  | unsigned hne hds =>
      obtain ⟨c, ds', rfl⟩ := List.exists_cons_of_ne_nil hne
      have hc := hds c List.mem_cons_self
      obtain ⟨hminus, hplus⟩ := isDigit_ne_sign hc
      rw [scanLd, List.append_assoc, List.cons_append,
        dropWhile_blanks hblanks (not_isSpace_of_isDigit hc)]
      dsimp only
      rw [if_neg hminus, if_neg hplus, ← List.cons_append, scanDigits_append hne hds hrest]
      exact congrArg (fun x => some (x, rest)) hnearest
  | plus hne hds =>
      rw [scanLd, List.append_assoc, List.cons_append,
        dropWhile_blanks hblanks (by decide)]
      dsimp only
      rw [if_neg (by decide), if_pos rfl, scanDigits_append hne hds hrest]
      exact congrArg (fun x => some (x, rest)) hnearest
  | minus hne hds =>
      rw [scanLd, List.append_assoc, List.cons_append,
        dropWhile_blanks hblanks (by decide)]
      dsimp only
      rw [if_pos rfl, scanDigits_append hne hds hrest]
      exact congrArg (fun x => some (x, rest)) hnearest

theorem Numeral.chars (hm : Numeral m x) : ∀ c ∈ m, isDigit c = true ∨ c = 43 ∨ c = 45 := by
  cases hm with
  | unsigned _ hds => exact fun c hc => .inl (hds c hc)
  | plus _ hds =>
      intro c hc
      rcases List.mem_cons.mp hc with rfl | hc
      · exact .inr (.inl rfl)
      · exact .inl (hds c hc)
  | minus _ hds =>
      intro c hc
      rcases List.mem_cons.mp hc with rfl | hc
      · exact .inr (.inr rfl)
      · exact .inl (hds c hc)

theorem Numeral.not_mem (hm : Numeral m x) {c : Byte} (hdigit : isDigit c = false)
    (hsign : c ≠ 43 ∧ c ≠ 45) : c ∉ m := by
  intro hmem
  rcases hm.chars c hmem with hc | hc | hc
  · rw [hdigit] at hc
    cases hc
  · exact hsign.1 hc
  · exact hsign.2 hc

theorem zero_not_mem_blanks {blanks : List Byte} (h : ∀ c ∈ blanks, isSpace c = true) :
    0 ∉ blanks := fun hmem => absurd (h 0 hmem) (by decide)

theorem Stops.cString (h : Stops rest) : Stops (cString rest) := by
  intro c hc
  cases rest with
  | nil => cases hc
  | cons d rest =>
      rw [Unp.cString, List.takeWhile_cons] at hc
      split_ifs at hc
      · exact h c hc
      · cases hc

end Reading

/-- Two decimal integers, each with any blanks in front of it. What follows an integer is
not one more digit of it. -/
def TwoNumerals (s : List Byte) (x y : Int) : Prop :=
  ∃ blanks m gap n rest, s = blanks ++ m ++ (gap ++ (n ++ rest)) ∧
    (∀ c ∈ blanks, isSpace c = true) ∧ Numeral m x ∧ Stops (gap ++ (n ++ rest)) ∧
    (∀ c ∈ gap, isSpace c = true) ∧ Numeral n y ∧ Stops rest

section TwoNumerals

variable {s : List Byte} {x y : Int}

theorem TwoNumerals.cString (h : TwoNumerals s x y) : TwoNumerals (cString s) x y := by
  obtain ⟨blanks, m, gap, n, rest, rfl, hblanks, hm, hstops, hgap, hn, hrest⟩ := h
  have hzero : ∀ {t z}, Numeral t z → (0 : Byte) ∉ t := by
    intro t z ht
    exact ht.not_mem (by decide) (by decide)
  have hback : Unp.cString (gap ++ (n ++ rest)) = gap ++ (n ++ Unp.cString rest) := by
    rw [cString_append_of_not_mem (zero_not_mem_blanks hgap),
      cString_append_of_not_mem (hzero hn)]
  refine ⟨blanks, m, gap, n, Unp.cString rest, ?_, hblanks, hm, ?_, hgap, hn, hrest.cString⟩
  · rw [List.append_assoc, cString_append_of_not_mem (zero_not_mem_blanks hblanks),
      cString_append_of_not_mem (hzero hm), hback, List.append_assoc]
  · rw [← hback]
    exact hstops.cString

theorem scanTwo_numerals (h : TwoNumerals s x y) (hx : IsLong x) (hy : IsLong y) :
    scanTwo s = some (x, y) := by
  obtain ⟨blanks, m, gap, n, rest, rfl, hblanks, hm, hstops, hgap, hn, hrest⟩ := h
  have hfirst := scanLd_numeral hblanks hm hx hstops
  -- the blank of the format takes the gap before the second conversion does
  have hdrop : (gap ++ (n ++ rest)).dropWhile isSpace = (n ++ rest).dropWhile isSpace :=
    List.dropWhile_append_of_pos hgap
  have hagain : scanLd ((n ++ rest).dropWhile isSpace) = scanLd ([] ++ n ++ rest) := by
    rw [scanLd, scanLd, List.nil_append, List.dropWhile_idempotent]
  have hsecond := scanLd_numeral (List.forall_mem_nil _) hn hy hrest
  rw [scanTwo, hfirst]
  dsimp only
  rw [hdrop, hagain, hsecond]

end TwoNumerals

end MyUnp.Scanf
