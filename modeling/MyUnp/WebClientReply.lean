import Mathlib.Algebra.Ring.Nat
import MyUnp.AccessSpan
import MyUnp.Atol
import MyUnp.Readn
import MyUnp.Unp

namespace MyUnp.WebClientReply

open MyUnp.AccessSpan MyUnp.Atol MyUnp.Readn MyUnp.Unp

def MAXN : Nat := 16384

/-- What one `read` answers: bytes off the stream, none of them at its end, or a
failure, which may be an interruption. -/
inductive ReadAnswer
  | data (bytes : List Byte)
  | error (eintr : Bool)
  deriving DecidableEq

/-- What a call returns, `none` if it has not returned, and where in the array it has
stored bytes. -/
structure Outcome where
  ret : Option Int
  stores : List Span
  deriving DecidableEq

/-- `read_n` from some point of its loop on. A `read` gives no more than it was asked
for. -/
def readnFrom : Pass → List ReadAnswer → Outcome
  | .done ret, _ => ⟨some ret, []⟩
  | .call _, [] => ⟨none, []⟩
  | .call f, .data bytes :: as =>
      let nread := (bytes.take f.nleft).length
      let rest := readnFrom (read_n f nread false) as
      { rest with stores := ⟨f.ptr, nread⟩ :: rest.stores }
  | .call f, .error eintr :: as => readnFrom (read_n f (-1) eintr) as

def nbytes (arg : List Byte) : Int := toInt (atol arg)

def toSize (x : Int) : Nat := (x % SIZE).toNat

/-- `Readn(fd, reply, nbytes)`: where `readn` returns a negative number `err_sys` ends
the process, and `Readn` does not return. -/
def readReply (nbytes : Int) (answers : List ReadAnswer) : Outcome :=
  let o := readnFrom (loopHead (.start (toSize nbytes))) answers
  { o with ret := o.ret.filter (0 ≤ ·) }

namespace Outcome

def stored (o : Outcome) : Nat := (o.stores.map Span.size).sum

/-- `Readn` has returned, and `n != nbytes` does not hold. -/
def Accepted (o : Outcome) (nbytes : Int) : Prop := o.ret = some nbytes

instance (o : Outcome) (nbytes : Int) : Decidable (o.Accepted nbytes) :=
  inferInstanceAs (Decidable (_ = _))

end Outcome

/-- No byte is stored outside `reply`, and a reply that is accepted has the length
that was asked for. -/
def Contract (arg : List Byte) (answers : List ReadAnswer) : Prop :=
  let o := readReply (nbytes arg) answers
  Inside MAXN o.stores ∧ (o.Accepted (nbytes arg) → (o.stored : Int) = nbytes arg)

/-- How many bytes there are before the stream ends or a `read` fails. -/
def arriving : List ReadAnswer → Nat
  | .data (b :: bytes) :: as => (b :: bytes).length + arriving as
  | .error true :: as => arriving as
  | _ => 0

structure Reads (f : Frame) (answers : List ReadAnswer) (o : Outcome) : Prop where
  stored : o.stored = min f.nleft (arriving answers)
  inside : ∀ M, Inside M o.stores ↔ o.stored = 0 ∨ f.ptr + o.stored ≤ M
  ret : ∀ ret, o.ret = some ret → ret = toSsize (f.ptr + o.stored) ∨ ret = -1

section Loop

variable {f : Frame} {answers : List ReadAnswer}

theorem Reads.full (hf : f.Inside) (h : f.nleft = 0) :
    Reads f answers (readnFrom (loopHead f) answers) := by
  have hhead : loopHead f = .done f.result := if_neg (by omega)
  rw [hhead, hf.result_eq, readnFrom]
  refine ⟨?_, fun M => ?_, ?_⟩
  · rw [h, Nat.zero_min]
    rfl
  · exact iff_of_true inside_nil (.inl rfl)
  · rintro _ ⟨⟩
    exact .inl rfl

theorem readnFrom_loopHead (hpos : 0 < f.nleft) (answers : List ReadAnswer) :
    readnFrom (loopHead f) answers = readnFrom (.call f) answers := by
  rw [loopHead, if_pos hpos]

theorem Reads.data (hf : f.Inside) (hpos : 0 < f.nleft) {b : Byte} {bytes : List Byte}
    (h : ∀ g, g.Inside → Reads g answers (readnFrom (loopHead g) answers)) :
    Reads f (.data (b :: bytes) :: answers)
      (readnFrom (.call f) (.data (b :: bytes) :: answers)) := by
  have hlen : ((b :: bytes).take f.nleft).length = min f.nleft (b :: bytes).length :=
    List.length_take
  have hcons : 0 < (b :: bytes).length := Nat.succ_pos _
  generalize hk : ((b :: bytes).take f.nleft).length = k at hlen
  have hkpos : 0 < k := by omega
  have hkle : k ≤ f.nleft := by omega
  obtain ⟨hstored, hinside, hret⟩ := h (f.advance k) (hf.advance hkle)
  rw [Frame.advance_nleft hf hkle] at hstored
  rw [Frame.advance_ptr] at hinside hret
  rw [readnFrom, hk, read_n_data hkpos]
  generalize readnFrom (loopHead (f.advance k)) answers = o at *
  have hsum : (Outcome.mk o.ret (⟨f.ptr, k⟩ :: o.stores)).stored = k + o.stored := by
    rw [Outcome.stored, List.map_cons, List.sum_cons, Outcome.stored]
  have harrive : arriving (.data (b :: bytes) :: answers) =
      (b :: bytes).length + arriving answers := rfl
  refine ⟨?_, fun M => ?_, ?_⟩
  · rw [hsum, hstored, harrive]
    omega
  · rw [hsum, inside_cons, hinside]
    simp only [Span.Inside]
    omega
  · rw [hsum, ← Nat.add_assoc]
    exact hret

theorem Reads.eof (hf : f.Inside) :
    Reads f (.data [] :: answers) (readnFrom (.call f) (.data [] :: answers)) := by
  have hdone : read_n f ((0 : Nat) : Int) false = .done f.result := rfl
  have hlen : (([] : List Byte).take f.nleft).length = 0 := by rw [List.take_nil]; rfl
  rw [readnFrom, hlen, hdone, hf.result_eq, readnFrom]
  refine ⟨?_, fun M => ?_, ?_⟩
  · simp [Outcome.stored, arriving]
  · simp [Outcome.stored, Span.Inside]
  · rintro _ ⟨⟩
    exact .inl rfl

theorem Reads.interrupted (hf : f.Inside)
    (h : ∀ g, g.Inside → Reads g answers (readnFrom (loopHead g) answers)) :
    Reads f (.error true :: answers) (readnFrom (.call f) (.error true :: answers)) := by
  obtain ⟨hstored, hinside, hret⟩ := h (f.advance (0 : Nat)) (hf.advance (Nat.zero_le _))
  rw [Frame.advance_nleft hf (Nat.zero_le _), Nat.sub_zero] at hstored
  rw [Frame.advance_ptr, Nat.add_zero] at hinside hret
  rw [readnFrom, read_n_eintr]
  exact ⟨hstored, hinside, hret⟩

theorem Reads.failed :
    Reads f (.error false :: answers) (readnFrom (.call f) (.error false :: answers)) := by
  have hdone : read_n f (-1) false = .done (-1) := rfl
  rw [readnFrom, hdone, readnFrom]
  refine ⟨?_, fun M => ?_, ?_⟩
  · exact (Nat.min_zero _).symm
  · exact iff_of_true inside_nil (.inl rfl)
  · rintro _ ⟨⟩
    exact .inr rfl

theorem readnFrom_reads (answers : List ReadAnswer) (hf : f.Inside) :
    Reads f answers (readnFrom (loopHead f) answers) := by
  induction answers generalizing f with
  | nil =>
      rcases Nat.eq_zero_or_pos f.nleft with hzero | hpos
      · exact .full hf hzero
      · rw [readnFrom_loopHead hpos, readnFrom]
        refine ⟨(Nat.min_zero _).symm, fun M => iff_of_true inside_nil (.inl rfl), ?_⟩
        intro ret hret
        cases hret
  | cons a answers ih =>
      rcases Nat.eq_zero_or_pos f.nleft with hzero | hpos
      · exact .full hf hzero
      · rw [readnFrom_loopHead hpos]
        rcases a with ⟨_ | ⟨b, bytes⟩⟩ | ⟨_ | _⟩
        · exact .eof hf
        · exact .data hf hpos fun g hg => ih hg
        · exact .failed
        · exact .interrupted hf fun g hg => ih hg

end Loop

theorem nbytes_isInt (arg : List Byte) : IsInt (nbytes arg) := by
  unfold IsInt nbytes toInt
  have hlow := Int.le_bmod (x := atol arg) (m := 4294967296) (by decide)
  have hhigh := Int.bmod_lt (x := atol arg) (m := 4294967296) (by decide)
  omega

theorem readnFrom_start (nbytes : Int) (answers : List ReadAnswer) :
    Reads (.start (toSize nbytes)) answers
      (readnFrom (loopHead (.start (toSize nbytes))) answers) := by
  apply readnFrom_reads
  apply Frame.Inside.start
  unfold toSize SIZE
  omega

/-- The array and the comparison hold good for a size from 0 to `MAXN`; for any other
exactly if the stream is over, or fails, before it has brought more than `MAXN` bytes. -/
theorem contract_iff (arg : List Byte) (answers : List ReadAnswer) :
    Contract arg answers ↔
      0 ≤ nbytes arg ∧ nbytes arg ≤ MAXN ∨ arriving answers ≤ MAXN := by
  obtain ⟨hlow, hhigh⟩ := nbytes_isInt arg
  obtain ⟨hstored, hinside, hret⟩ := readnFrom_start (nbytes arg) answers
  unfold Contract Outcome.Accepted readReply
  dsimp only
  rw [Option.filter_eq_some_iff, decide_eq_true_eq]
  rw [Frame.start_nleft] at hstored
  rw [Frame.start_ptr, Nat.zero_add] at hret
  generalize readnFrom (loopHead (.start (toSize (nbytes arg)))) answers = o at *
  generalize nbytes arg = n at *
  have hinside' := hinside MAXN
  rw [Frame.start_ptr, Nat.zero_add] at hinside'
  change Inside MAXN o.stores ∧ (o.ret = some n ∧ 0 ≤ n → (o.stored : Int) = n) ↔ _
  rw [hinside']
  have hMAXN : MAXN = 16384 := rfl
  have hsize : (toSize n : Int) = n ∧ 0 ≤ n ∨ (toSize n : Int) = n + SIZE ∧ n < 0 := by
    unfold toSize SIZE
    omega
  have hsmall : o.stored ≤ MAXN → toSsize o.stored = o.stored := fun h =>
    toSsize_of_le (by unfold SSIZE_MAX; omega)
  have hSIZE : SIZE = 18446744073709551616 := rfl
  constructor
  · rintro ⟨hin, -⟩
    by_cases hrange : 0 ≤ n ∧ n ≤ MAXN
    · exact .inl hrange
    · exact .inr (by omega)
  · intro hcond
    have hle : o.stored ≤ MAXN := by omega
    refine ⟨.inr hle, ?_⟩
    rintro ⟨hn, hpos⟩
    have heq := hsmall hle
    rcases hret n hn with hcount | hfail
    · omega
    · omega

/-- `"16385"`, and a server that sends as many bytes. -/
theorem contract_too_long : ¬ ∀ arg answers, Contract arg answers := by
  intro hall
  have harg : nbytes [49, 54, 51, 56, 53] = 16385 := by decide
  have hcond := (contract_iff _ _).mp (hall [49, 54, 51, 56, 53]
    [.data (1 :: List.replicate MAXN 1)])
  have harrive : arriving [.data (1 :: List.replicate MAXN 1)] = MAXN + 1 := by
    rw [arriving, List.length_cons, List.length_replicate]
    rfl
  rw [harg, harrive] at hcond
  rcases hcond with ⟨_, hle⟩ | hle
  · exact absurd hle (by decide)
  · omega

end MyUnp.WebClientReply
