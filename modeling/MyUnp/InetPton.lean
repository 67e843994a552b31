import MyUnp.InetNtop

namespace MyUnp.InetPton

open MyUnp.Atol MyUnp.Decimal MyUnp.InetNtop MyUnp.Unp

def ULONG : Nat := 18446744073709551616

def htonl (addr : Nat) : InAddr :=
  ⟨UInt8.ofNat (addr >>> 24), UInt8.ofNat (addr >>> 16), UInt8.ofNat (addr >>> 8),
    UInt8.ofNat addr⟩

def addDigit (acc : Nat) (cc : Byte) : Nat := (acc * 10 + (cc.toNat - 48)) % ULONG

def endNumber (acc addr : Nat) : Option Nat :=
  if acc > 255 then none else some ((addr <<< 8 ||| acc) % ULONG)

def inet_atonLoop : List Byte → Nat → Nat → Nat → Option (Nat × Nat)
  | [], dots, acc, addr =>
      match endNumber acc addr with
      | none => none
      | some addr => some (dots, addr)
  | cc :: cp, dots, acc, addr =>
      if isDigit cc then inet_atonLoop cp dots (addDigit acc cc) addr
      else if cc = dot then
        -- no digit need have come before the dot
        if dots + 1 > 3 then none
        else
          match endNumber acc addr with
          | none => none
          | some addr => inet_atonLoop cp (dots + 1) 0 addr
      else none

def inet_aton (cp : List Byte) : Option InAddr :=
  match inet_atonLoop (cString cp) 0 0 0 with
  | none => none
  | some (dots, addr) =>
      some (htonl (if dots < 3 then (addr <<< (8 * (3 - dots))) % ULONG else addr))

structure Pton where
  ret : Int
  errno : Option Errno
  addrptr : InAddr
  deriving DecidableEq

/-- `strptr` is the memory from the string on. -/
def inet_pton (family : Int) (strptr : List Byte) (addrptr : InAddr) : Pton :=
  if family = AF_INET then
    match inet_aton strptr with
    | some in_val => ⟨0, none, in_val⟩
    -- there is no return here: the end of the function is that of the other families
    | none => ⟨-1, some .EAFNOSUPPORT, addrptr⟩
  else ⟨-1, some .EAFNOSUPPORT, addrptr⟩

section Digits

theorem foldl_addDigit (s : List Byte) (acc : Nat) :
    s.foldl addDigit (acc % ULONG) =
      s.foldl (fun n c => 10 * n + (c.toNat - 48)) acc % ULONG := by
  induction s generalizing acc with
  | nil => rfl
  | cons c s ih =>
      have hstep : addDigit (acc % ULONG) c = (10 * acc + (c.toNat - 48)) % ULONG := by
        rw [addDigit, ULONG]
        omega
      rw [List.foldl_cons, List.foldl_cons, hstep, ih]

theorem inet_atonLoop_digits {s : List Byte} (hs : ∀ c ∈ s, isDigit c = true)
    (rest : List Byte) (dots acc addr : Nat) :
    inet_atonLoop (s ++ rest) dots acc addr =
      inet_atonLoop rest dots (s.foldl addDigit acc) addr := by
  induction s generalizing acc with
  | nil => rfl
  | cons c s ih =>
      obtain ⟨hc, hs⟩ := List.forall_mem_cons.mp hs
      rw [List.cons_append, inet_atonLoop, if_pos hc, ih hs, List.foldl_cons]

theorem inet_atonLoop_decimal {n : Nat} (hn : n < ULONG) (rest : List Byte)
    (dots addr : Nat) :
    inet_atonLoop (decimal n ++ rest) dots 0 addr = inet_atonLoop rest dots n addr := by
  have hfold := foldl_addDigit (decimal n) 0
  have hvalue := value_decimal n
  rw [value] at hvalue
  rw [hvalue, Nat.zero_mod, Nat.mod_eq_of_lt hn] at hfold
  rw [inet_atonLoop_digits (decimal_isDigit n), hfold]

end Digits

section Addresses

theorem byte_lt_ULONG (b : Byte) : b.toNat < ULONG :=
  Nat.lt_trans b.toNat_lt (by decide)

theorem endNumber_byte (b : Byte) {addr : Nat} (h : addr < 16777216) :
    endNumber b.toNat addr = some (addr * 256 + b.toNat) := by
  have hb := b.toNat_lt
  have hor : addr <<< 8 ||| b.toNat = addr * 256 + b.toNat := by
    rw [← Nat.shiftLeft_add_eq_or_of_lt hb, Nat.shiftLeft_eq]
  rw [endNumber, if_neg (by omega), hor, Nat.mod_eq_of_lt]
  rw [ULONG]
  omega

theorem inet_atonLoop_dot (b : Byte) {dots addr : Nat} (hdots : dots < 3)
    (haddr : addr < 16777216) (rest : List Byte) :
    inet_atonLoop (dot :: rest) dots b.toNat addr =
      inet_atonLoop rest (dots + 1) 0 (addr * 256 + b.toNat) := by
  rw [inet_atonLoop, if_neg (by decide), if_pos rfl, if_neg (by omega),
    endNumber_byte b haddr]

theorem inet_atonLoop_end (b : Byte) {addr : Nat} (haddr : addr < 16777216) (dots : Nat) :
    inet_atonLoop [] dots b.toNat addr = some (dots, addr * 256 + b.toNat) := by
  rw [inet_atonLoop, endNumber_byte b haddr]

theorem ofNat_eq {m : Nat} {b : Byte} (h : m % 256 = b.toNat) : UInt8.ofNat m = b := by
  apply UInt8.toNat_inj.mp
  rw [UInt8.toNat_ofNat']
  exact h

theorem htonl_bytes (a : InAddr) :
    htonl (((a.p0.toNat * 256 + a.p1.toNat) * 256 + a.p2.toNat) * 256 + a.p3.toNat) = a := by
  have h1 := a.p1.toNat_lt
  have h2 := a.p2.toNat_lt
  have h3 := a.p3.toNat_lt
  have h0 := a.p0.toNat_lt
  unfold htonl
  simp only [Nat.shiftRight_eq_div_pow]
  rw [ofNat_eq (b := a.p0) (by omega), ofNat_eq (b := a.p1) (by omega),
    ofNat_eq (b := a.p2) (by omega), ofNat_eq (b := a.p3) (by omega)]

theorem inet_aton_dotted (a : InAddr) {strptr : List Byte} (h : cString strptr = dotted a) :
    inet_aton strptr = some a := by
  have h0 := a.p0.toNat_lt
  have h1 := a.p1.toNat_lt
  have h2 := a.p2.toNat_lt
  have hloop : inet_atonLoop (dotted a) 0 0 0 =
      some (3, ((a.p0.toNat * 256 + a.p1.toNat) * 256 + a.p2.toNat) * 256 + a.p3.toNat) := by
    rw [dotted, inet_atonLoop_decimal (byte_lt_ULONG _), inet_atonLoop_dot _ (by decide)
      (by decide), inet_atonLoop_decimal (byte_lt_ULONG _), inet_atonLoop_dot _ (by decide)
      (by omega), inet_atonLoop_decimal (byte_lt_ULONG _), inet_atonLoop_dot _ (by decide)
      (by omega)]
    rw [← List.append_nil (decimal a.p3.toNat), inet_atonLoop_decimal (byte_lt_ULONG _),
      inet_atonLoop_end _ (by omega)]
    simp only [Nat.zero_mul, Nat.zero_add, Nat.reduceAdd]
  rw [inet_aton, h, hloop]
  dsimp only
  rw [if_neg (by decide), htonl_bytes]

theorem dotted_injective : Function.Injective dotted := by
  intro a b heq
  have ha := inet_aton_dotted a (cString_eq_self (zero_not_mem_dotted a))
  rw [heq, inet_aton_dotted b (cString_eq_self (zero_not_mem_dotted b))] at ha
  exact (Option.some_inj.mp ha).symm

theorem cString_written (a : InAddr) {len : Nat} (h : (dotted a).length ≤ len)
    (behind : List Byte) :
    cString ((inet_ntop AF_INET a len).written ++ behind) = dotted a := by
  rw [inet_ntop_inet, if_neg (by omega), List.append_assoc, List.singleton_append,
    cString_append_nul, cString_eq_self (zero_not_mem_dotted a)]

end Addresses

theorem inet_pton_accepted {strptr : List Byte} {in_val : InAddr}
    (h : inet_aton strptr = some in_val) (addrptr : InAddr) :
    inet_pton AF_INET strptr addrptr = ⟨0, none, in_val⟩ := by
  rw [inet_pton, if_pos rfl, h]

theorem inet_pton_rejected {strptr : List Byte} (h : inet_aton strptr = none)
    (addrptr : InAddr) :
    inet_pton AF_INET strptr addrptr = ⟨-1, some .EAFNOSUPPORT, addrptr⟩ := by
  rw [inet_pton, if_pos rfl, h]

inductive Caller
  | daytimetcpcli
  | Inet_pton
  | sctpcli01
  deriving DecidableEq

def Caller.accepts (n : Int) : Caller → Bool
  | .daytimetcpcli => decide (¬ n ≤ 0)
  | .Inet_pton => decide (¬ n < 0 ∧ ¬ n = 0)
  | .sctpcli01 => decide (¬ n ≠ 1)

theorem Caller.not_accepts {n : Int} (h : n ≤ 0) (c : Caller) : c.accepts n = false := by
  cases c with
  | daytimetcpcli => exact decide_eq_false (by omega)
  | Inet_pton => exact decide_eq_false (by omega)
  | sctpcli01 => exact decide_eq_false (by omega)

/-- The three results as the callers understand them, and what is stored with them. -/
structure Agrees (family : Int) (strptr : List Byte) (addrptr : InAddr) (r : Pton) :
    Prop where
  address : family = AF_INET → ∀ a len behind, (dotted a).length < len →
    strptr = (inet_ntop AF_INET a len).written ++ behind → r.ret = 1 ∧ r.addrptr = a
  rejected : family = AF_INET → inet_aton strptr = none →
    r.ret = 0 ∧ r.addrptr = addrptr
  unsupported : r.ret = -1 → family ≠ AF_INET
  callers : family = AF_INET →
    ∀ c : Caller, c.accepts r.ret = true ↔ (inet_aton strptr).isSome = true

/-- For the one family there is, no call agrees: what is stored is right, but the two
results are each less by one than they should be, and no caller accepts any string. -/
theorem inet_pton_agrees_iff (family : Int) (strptr : List Byte) (addrptr : InAddr) :
    (Agrees family strptr addrptr (inet_pton family strptr addrptr) ↔ family ≠ AF_INET) ∧
      (∀ a len behind, (dotted a).length < len →
        inet_pton AF_INET ((inet_ntop AF_INET a len).written ++ behind) addrptr =
          ⟨0, none, a⟩) ∧
      (inet_aton strptr = none →
        inet_pton AF_INET strptr addrptr = ⟨-1, some .EAFNOSUPPORT, addrptr⟩) ∧
      ∀ c : Caller, c.accepts (inet_pton AF_INET strptr addrptr).ret = false := by
  have hround : ∀ a len behind, (dotted a).length < len →
      inet_pton AF_INET ((inet_ntop AF_INET a len).written ++ behind) addrptr =
        ⟨0, none, a⟩ := by
    intro a len behind hlen
    exact inet_pton_accepted
      (inet_aton_dotted a (cString_written a (Nat.le_of_lt hlen) behind)) addrptr
  have hnone : ∀ c : Caller, c.accepts (inet_pton AF_INET strptr addrptr).ret = false := by
    intro c
    apply c.not_accepts
    cases haton : inet_aton strptr with
    | none =>
        rw [inet_pton_rejected haton]
        exact Int.negSucc_le_zero 0
    | some in_val => exact Int.le_of_eq (congrArg Pton.ret (inet_pton_accepted haton addrptr))
  refine ⟨⟨?_, ?_⟩, hround, fun h => inet_pton_rejected h addrptr, hnone⟩
  · rintro hagrees rfl
    cases haton : inet_aton strptr with
    | none =>
        have hret := (hagrees.rejected rfl haton).1
        rw [inet_pton_rejected haton] at hret
        cases hret
    | some in_val =>
        have haccepts := (hagrees.callers rfl .daytimetcpcli).mpr (by rw [haton]; rfl)
        rw [hnone] at haccepts
        cases haccepts
  · intro hfamily
    exact
      { address := fun h => absurd h hfamily
        rejected := fun h => absurd h hfamily
        unsupported := fun _ => hfamily
        callers := fun h => absurd h hfamily }

/-- `"127.0.0.1"` -/
theorem inet_pton_loopback :
    ¬ Agrees AF_INET [49, 50, 55, 46, 48, 46, 48, 46, 49, 0] ⟨0, 0, 0, 0⟩
      (inet_pton AF_INET [49, 50, 55, 46, 48, 46, 48, 46, 49, 0] ⟨0, 0, 0, 0⟩) := by
  intro hagrees
  have hret := (hagrees.address rfl ⟨127, 0, 0, 1⟩ 16 [] (by decide) (by decide)).1
  exact absurd hret (by decide)

end MyUnp.InetPton
