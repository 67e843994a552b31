import Mathlib.Data.List.Basic

namespace MyUnp.Readn

def SIZE : Nat := 18446744073709551616

def SSIZE_MAX : Nat := 9223372036854775807

theorem SSIZE_MAX_lt : SSIZE_MAX < SIZE := by decide

/-- The `ssize_t` that a function declared so returns for a `size_t`. -/
def toSsize (x : Nat) : Int := if x ≤ SSIZE_MAX then x else (x : Int) - SIZE

/-- `x - y` in `size_t`, where `y` may be an `ssize_t`. -/
def subSize (x : Nat) (y : Int) : Nat := (((x : Int) - y) % SIZE).toNat

theorem toSsize_of_le {x : Nat} (h : x ≤ SSIZE_MAX) : toSsize x = x := if_pos h

theorem toSsize_neg {x : Nat} (h : SSIZE_MAX < x) (hx : x < SIZE) : toSsize x < 0 := by
  unfold toSsize
  rw [if_neg (by omega)]
  omega

theorem subSize_of_le {x k : Nat} (hk : k ≤ x) (hx : x < SIZE) :
    subSize x (k : Int) = x - k := by
  unfold subSize
  rw [Int.emod_eq_of_lt (by omega) (by omega)]
  omega

/-- The local variables of either loop: the size it was called with, what is
left of it, and the distance of `ptr` from the start of the buffer. -/
structure Frame where
  n : Nat
  nleft : Nat
  ptr : Nat
  deriving DecidableEq

namespace Frame

def start (n : Nat) : Frame := ⟨n, n, 0⟩

def advance (f : Frame) (k : Int) : Frame :=
  ⟨f.n, subSize f.nleft k, (f.ptr + k).toNat⟩

def result (f : Frame) : Int := toSsize (subSize f.n f.nleft)

structure Inside (f : Frame) : Prop where
  sum_eq : f.ptr + f.nleft = f.n
  lt_size : f.n < SIZE

theorem Inside.start {n : Nat} (h : n < SIZE) : (start n).Inside :=
  ⟨Nat.zero_add n, h⟩

@[simp] theorem start_n (n : Nat) : (start n).n = n := rfl

@[simp] theorem start_ptr (n : Nat) : (start n).ptr = 0 := rfl

@[simp] theorem start_nleft (n : Nat) : (start n).nleft = n := rfl

@[simp] theorem advance_n (f : Frame) (k : Int) : (f.advance k).n = f.n := rfl

theorem advance_ptr (f : Frame) (k : Nat) : (f.advance k).ptr = f.ptr + k := by
  change ((f.ptr : Int) + k).toNat = f.ptr + k
  omega

theorem advance_nleft {f : Frame} {k : Nat} (h : f.Inside) (hk : k ≤ f.nleft) :
    (f.advance k).nleft = f.nleft - k := by
  have hle := h.sum_eq
  have hlt := h.lt_size
  exact subSize_of_le hk (by omega)

theorem Inside.advance {f : Frame} {k : Nat} (h : f.Inside) (hk : k ≤ f.nleft) :
    (f.advance k).Inside := by
  refine ⟨?_, h.lt_size⟩
  have hle := h.sum_eq
  rw [advance_ptr, advance_nleft h hk, advance_n]
  omega

theorem Inside.result_eq {f : Frame} (h : f.Inside) : f.result = toSsize f.ptr := by
  have hle := h.sum_eq
  unfold result
  rw [subSize_of_le (by omega) h.lt_size]
  congr 1
  omega

end Frame

inductive Pass
  | call (f : Frame)
  | done (ret : Int)

def loopHead (f : Frame) : Pass := if 0 < f.nleft then .call f else .done f.result

/-- The body of `read_n` after `read` has returned `nread`; `eintr` tells whether
`errno` is then `EINTR`. -/
def read_n (f : Frame) (nread : Int) (eintr : Bool) : Pass :=
  if nread < 0 then
    if eintr then loopHead (f.advance 0) else .done (-1)
  else if nread = 0 then .done f.result
  else loopHead (f.advance nread)

/-- The body of `writen` after `write` has returned `nwritten`. -/
def writen (f : Frame) (nwritten : Int) (eintr : Bool) : Pass :=
  if nwritten ≤ 0 then
    if nwritten < 0 ∧ eintr = true then loopHead (f.advance 0) else .done (-1)
  else loopHead (f.advance nwritten)

section Bodies

variable {f : Frame}

@[simp] theorem read_n_data {k : Nat} (h : 0 < k) :
    read_n f k false = loopHead (f.advance k) := by
  rw [read_n, if_neg (by omega), if_neg (by omega)]

@[simp] theorem read_n_eintr : read_n f (-1) true = loopHead (f.advance 0) := rfl

@[simp] theorem writen_data {k : Nat} (h : 0 < k) :
    writen f k false = loopHead (f.advance k) := by
  rw [writen, if_neg (by omega)]

@[simp] theorem writen_eintr : writen f (-1) true = loopHead (f.advance 0) := rfl

theorem loopHead_call {g : Frame} (h : loopHead f = .call g) : f = g ∧ 0 < g.nleft := by
  unfold loopHead at h
  split_ifs at h with hpos
  obtain rfl := Pass.call.inj h
  exact ⟨rfl, hpos⟩

theorem loopHead_done {ret : Int} (hf : f.Inside) (h : loopHead f = .done ret) :
    f.nleft = 0 ∧ f.ptr = f.n ∧ ret = toSsize f.n := by
  have hsum := hf.sum_eq
  unfold loopHead at h
  split_ifs at h with hpos
  have hptr : f.ptr = f.n := by omega
  obtain rfl := Pass.done.inj h
  rw [hf.result_eq, hptr]
  exact ⟨by omega, rfl, rfl⟩

/-- After a transfer of any size, and after an interrupted call, `read_n` goes
on; it breaks off at the end of the stream and returns -1 on an error. -/
theorem read_n_cases {nread : Int} (h : -1 ≤ nread) (eintr : Bool) :
    (read_n f nread eintr = loopHead (f.advance nread.toNat) ∧
      (0 < nread ∨ nread = -1 ∧ eintr = true)) ∨
    (read_n f nread eintr = .done f.result ∧ nread = 0) ∨
    (read_n f nread eintr = .done (-1) ∧ nread = -1 ∧ eintr = false) := by
  unfold read_n
  rcases Int.lt_trichotomy nread 0 with hneg | rfl | hpos
  · obtain rfl : nread = -1 := by omega
    rw [if_pos hneg]
    cases eintr with
    | true => exact .inl ⟨rfl, .inr ⟨rfl, rfl⟩⟩
    | false => exact .inr (.inr ⟨rfl, rfl, rfl⟩)
  · exact .inr (.inl ⟨rfl, rfl⟩)
  · rw [if_neg (by omega), if_neg (by omega), Int.toNat_of_nonneg (by omega)]
    exact .inl ⟨rfl, .inl hpos⟩

theorem writen_cases {nwritten : Int} (h : -1 ≤ nwritten) (eintr : Bool) :
    (writen f nwritten eintr = loopHead (f.advance nwritten.toNat) ∧
      (0 < nwritten ∨ nwritten = -1 ∧ eintr = true)) ∨
    (writen f nwritten eintr = .done (-1) ∧ nwritten ≤ 0 ∧
      (nwritten = 0 ∨ eintr = false)) := by
  unfold writen
  rcases Int.lt_trichotomy nwritten 0 with hneg | rfl | hpos
  · obtain rfl : nwritten = -1 := by omega
    rw [if_pos (by omega)]
    cases eintr with
    | true => exact .inl ⟨rfl, .inr ⟨rfl, rfl⟩⟩
    | false => exact .inr ⟨rfl, by omega, .inr rfl⟩
  · exact .inr ⟨rfl, by omega, .inl rfl⟩
  · rw [if_neg (by omega), Int.toNat_of_nonneg (by omega)]
    exact .inl ⟨rfl, .inl hpos⟩

end Bodies

end MyUnp.Readn
