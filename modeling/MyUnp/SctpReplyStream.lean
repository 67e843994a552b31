import MyUnp.SctpEchoServer

namespace MyUnp.SctpReplyStream

open MyUnp.SctpEchoServer MyUnp.Unp
open MyUnp.PartialDelivery (Flags isNotification)

def following (k s : BitVec 16) : BitVec 16 :=
  if s.toNat + 1 < k.toNat then s + 1 else 0

theorem toNat_succ (s : BitVec 16) : (s + 1).toNat = (s.toNat + 1) % 65536 := by
  rw [BitVec.toNat_add]
  rfl

theorem following_lt {k : BitVec 16} (hk : 1 ≤ k.toNat) (s : BitVec 16) :
    (following k s).toNat < k.toNat := by
  unfold following
  split_ifs with h
  · have hlt := k.isLt
    rw [toNat_succ, Nat.mod_eq_of_lt (by omega)]
    exact h
  · exact hk

/-- The counter has 16 bits: after the last stream number comes 0, which is below
any count. -/
theorem nextStream_some {stream_increment : Int} (hinc : stream_increment ≠ 0)
    {k : BitVec 16} (hk : 1 ≤ k.toNat) (s : BitVec 16) :
    nextStream stream_increment (some k) s = some (following k s) := by
  have hcount : sctpGetNoStrms (some k) = k.toNat := rfl
  have hnonneg : ¬ (k.toNat : Int) < 0 := by omega
  unfold nextStream following
  rw [if_neg hinc, hcount]
  dsimp only
  rw [if_neg hnonneg]
  have hs := s.isLt
  rcases Nat.lt_or_ge (s.toNat + 1) 65536 with hlt | hwrap
  · rw [toNat_succ, Nat.mod_eq_of_lt hlt]
    by_cases hin : s.toNat + 1 < k.toNat
    · rw [if_neg (by omega), if_pos hin]
    · rw [if_pos (by omega), if_neg hin]
  · have hklt := k.isLt
    have hzero : s + 1 = 0 := by
      apply BitVec.eq_of_toNat_eq
      have htop : s.toNat + 1 = 65536 := by omega
      rw [toNat_succ, htop]
      rfl
    have hlow : ¬ ((0 : BitVec 16).toNat : Int) ≥ k.toNat := by
      change ¬ (0 : Int) ≥ k.toNat
      omega
    rw [hzero, if_neg hlow, if_neg (by omega)]

/-- The `sctp_status` is still zero after a failing `getsockopt`, which counts as an
association without streams. -/
theorem nextStream_none {stream_increment : Int} (hinc : stream_increment ≠ 0)
    (s : BitVec 16) : nextStream stream_increment none s = some 0 := by
  have hcount : sctpGetNoStrms none = 0 := rfl
  unfold nextStream
  rw [if_neg hinc, hcount]
  dsimp only
  rw [if_neg (by decide), if_pos (by omega)]

structure Data where
  peer : List Byte
  info : SndRcvInfo
  flags : Flags
  data : List Byte
  isData : isNotification flags = false

/-- The pass of the server's loop on it, by what `sctp_sendmsg` would answer: the
reply goes out on the following stream if the query tells how many there are, and
if it fails the server returns and sends nothing. -/
def ReplyLaw (stream_increment : Int) (v : Vars) (d : Data) (status : Option (BitVec 16))
    (rounds : List Round) : Prop :=
  ∀ sendOk,
    let out := serverLoop stream_increment v
      (⟨.piece d.peer d.info d.flags d.data, status, sendOk⟩ :: rounds)
    match status with
    | none => out.sent = [] ∧ out.running = false
    | some k =>
        if sendOk then
          ∃ x rest, out.sent = x :: rest ∧ x.stream = following k d.info.sinfo_stream ∧
            x.stream.toNat < k.toNat
        else out.sent = [] ∧ out.running = false

theorem serverLoop_piece (stream_increment : Int) (v : Vars) (d : Data)
    {status : Option (BitVec 16)} {stream : BitVec 16}
    (hstream : nextStream stream_increment status d.info.sinfo_stream = some stream)
    (sendOk : Bool) (rounds : List Round) :
    ∃ x v', x.stream = stream ∧
      serverLoop stream_increment v
          (⟨.piece d.peer d.info d.flags d.data, status, sendOk⟩ :: rounds) =
        if sendOk then
          { serverLoop stream_increment v' rounds with
            sent := x :: (serverLoop stream_increment v' rounds).sent }
        else ⟨[], false⟩ := by
  rw [serverLoop]
  simp only [recvmsg, d.isData, hstream]
  refine ⟨_, _, ?_, rfl⟩
  rfl

/-- In whatever state the loop is, the reply is right exactly if the query
succeeds: where it fails the reply is sent on stream 0. -/
theorem reply_stream_iff {stream_increment : Int} (hinc : stream_increment ≠ 0)
    (v : Vars) (d : Data) {status : Option (BitVec 16)}
    (hcount : ∀ k, status = some k → 1 ≤ k.toNat) (rounds : List Round) :
    ReplyLaw stream_increment v d status rounds ↔ status ≠ none := by
  constructor
  · rintro hlaw rfl
    obtain ⟨x, v', _, heq⟩ := serverLoop_piece stream_increment v d
      (nextStream_none hinc _) true rounds
    have hsent := (hlaw true).1
    rw [heq] at hsent
    cases hsent
  · intro hstatus sendOk
    obtain ⟨k, rfl⟩ := Option.ne_none_iff_exists'.mp hstatus
    have hk := hcount k rfl
    obtain ⟨x, v', hx, heq⟩ := serverLoop_piece stream_increment v d
      (nextStream_some hinc hk _) sendOk rounds
    rw [heq]
    cases sendOk with
    | true => exact ⟨x, _, rfl, hx, hx ▸ following_lt hk _⟩
    | false => exact ⟨rfl, rfl⟩

def exampleData : Data := ⟨List.replicate SOCKADDR_IN 0, ⟨3, 0, 0, 1⟩, 0x80, [97], by decide⟩

theorem reply_stream_iff_ten :
    ReplyLaw 1 (.start (fun _ => 0) ⟨0, 0, 0, 0⟩ 0) exampleData (some 10) [] ↔
      (some 10 : Option (BitVec 16)) ≠ none :=
  reply_stream_iff (by decide) _ _ (by rintro k ⟨⟩; decide) []

theorem failed_query_replies :
    ¬ ∀ v d status rounds, (∀ k, status = some k → 1 ≤ k.toNat) →
      ReplyLaw 1 v d status rounds := by
  intro hall
  have hlaw := hall (.start (fun _ => 0) ⟨0, 0, 0, 0⟩ 0) exampleData none []
    (by rintro k ⟨⟩) true
  obtain ⟨x, v', _, heq⟩ := serverLoop_piece 1
    (.start (fun _ => 0) ⟨0, 0, 0, 0⟩ 0) exampleData (nextStream_none (by decide) _) true []
  have hsent := hlaw.1
  rw [heq] at hsent
  cases hsent

end MyUnp.SctpReplyStream
