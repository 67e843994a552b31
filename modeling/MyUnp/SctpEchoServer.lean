import MyUnp.MemoryBlock
import MyUnp.MessagePieces
import MyUnp.PartialDelivery

/-!
The receive and echo loop of `sctpsrv01.c`: it sends a message for whatever one
`sctp_recvmsg` returns.
-/

namespace MyUnp.SctpEchoServer

open MyUnp.MemoryBlock
open MyUnp.MessagePieces
open MyUnp.Unp
open MyUnp.PartialDelivery (Flags MSG_EOR isNotification)

def BUFFSIZE : Nat := 1024

def SOCKADDR_IN : Nat := 16

structure SndRcvInfo where
  sinfo_stream : BitVec 16
  sinfo_ppid : BitVec 32
  sinfo_flags : BitVec 16
  sinfo_assoc_id : BitVec 32
  deriving DecidableEq

inductive Recv where
  | error
  | piece (peer : List Byte) (info : SndRcvInfo) (flags : Flags)
      (data : List Byte)

/-- What the system calls of one round answer: `sctp_recvmsg`, `getsockopt` for
`SCTP_STATUS` (`sstat_outstrms`, or `none` where it fails) and whether
`sctp_sendmsg` succeeds. -/
structure Round where
  recv : Recv
  status : Option (BitVec 16)
  sendOk : Bool

structure Vars where
  readbuf : List Byte
  rd_sz : Nat
  cli_addr : List Byte
  len : Nat
  sri : SndRcvInfo
  msg_flags : Flags

structure Sent where
  data : List Byte
  peer : List Byte
  ppid : BitVec 32
  flags : BitVec 16
  stream : BitVec 16
  deriving DecidableEq

/-- `len` is the size of `cli_addr` on the way in and that of the sender's
address on the way out. -/
def recvmsg (v : Vars) : Recv → Option Vars
  | .error => none
  | .piece peer info flags data => some {
      readbuf := store v.readbuf 0 (data.take BUFFSIZE)
      rd_sz := (data.take BUFFSIZE).length
      cli_addr := store v.cli_addr 0 (peer.take v.len)
      len := peer.length
      sri := info
      msg_flags := flags }

/-- The `sctp_status` is zero where `getsockopt` fails. -/
def sctpGetNoStrms (status : Option (BitVec 16)) : Int := (status.getD 0).toNat

/-- `none` where the number of streams is negative, and the server returns. -/
def nextStream (stream_increment : Int) (status : Option (BitVec 16))
    (stream : BitVec 16) : Option (BitVec 16) :=
  if stream_increment = 0 then some stream
  else
    let strms := sctpGetNoStrms status
    if strms < 0 then none
    else if ((stream + 1).toNat : Int) ≥ strms then some 0
    else some (stream + 1)

def Vars.reply (v : Vars) (stream : BitVec 16) : Sent where
  data := v.readbuf.take v.rd_sz
  peer := v.cli_addr.take v.len
  ppid := v.sri.sinfo_ppid
  flags := v.sri.sinfo_flags
  stream := stream

structure Outcome where
  sent : List Sent
  running : Bool

/-- From a call of `sctp_recvmsg` on. A notification goes round the inner loop,
which does not set `len` again. -/
def serverLoop (stream_increment : Int) (v : Vars) : List Round → Outcome
  | [] => ⟨[], true⟩
  | r :: rounds =>
      match recvmsg v r.recv with
      | none => ⟨[], false⟩
      | some v =>
          if isNotification v.msg_flags then
            serverLoop stream_increment v rounds
          else
            match nextStream stream_increment r.status v.sri.sinfo_stream with
            | none => ⟨[], false⟩
            | some stream =>
                if r.sendOk then
                  let next := serverLoop stream_increment
                    { v with len := SOCKADDR_IN } rounds
                  { next with sent := v.reply stream :: next.sent }
                else ⟨[], false⟩

/-- Whatever the variables on the stack hold when the loop is entered. -/
def Vars.start (junk : Nat → Byte) (sri : SndRcvInfo) (flags : Flags) : Vars where
  readbuf := alloc BUFFSIZE junk
  rd_sz := 0
  cli_addr := alloc SOCKADDR_IN junk
  len := SOCKADDR_IN
  sri := sri
  msg_flags := flags

/-- A message of an association, and how it is delivered. No events but those
of `sctp_data_io_event` are subscribed to, so nothing else comes in between. -/
structure Inbound where
  peer : List Byte
  peer_length : peer.length = SOCKADDR_IN
  info : SndRcvInfo
  delivery : Delivery Byte BUFFSIZE

def Inbound.recvs (m : Inbound) : List Recv :=
  (tagLast 0 MSG_EOR m.delivery.pieces).map fun p => .piece m.peer m.info p.1 p.2

def Recv.pair : Recv → List Byte × List Byte
  | .error => ([], [])
  | .piece peer _ _ data => (peer, data)

def Recv.IsData : Recv → Prop
  | .error => False
  | .piece peer _ flags data =>
      isNotification flags = false ∧ peer.length = SOCKADDR_IN ∧
        data.length ≤ BUFFSIZE

theorem Inbound.recvs_map_pair (m : Inbound) :
    m.recvs.map Recv.pair = m.delivery.pieces.map (Prod.mk m.peer) := by
  have hpieces := tagLast_map_snd (0 : Flags) MSG_EOR m.delivery.pieces
  calc
    m.recvs.map Recv.pair =
        ((tagLast 0 MSG_EOR m.delivery.pieces).map Prod.snd).map
          (Prod.mk m.peer) := by
      simp [Inbound.recvs, Recv.pair]
    _ = m.delivery.pieces.map (Prod.mk m.peer) := by rw [hpieces]

theorem Inbound.isData {m : Inbound} {r : Recv} (hr : r ∈ m.recvs) :
    r.IsData := by
  obtain ⟨p, hp, rfl⟩ := List.mem_map.mp hr
  have hmem := mem_of_mem_tagLast 0 MSG_EOR hp
  have hflags : isNotification p.1 = false := by
    rcases tag_of_mem_tagLast 0 MSG_EOR hp with h | h
    · rw [h]
      decide
    · rw [h]
      decide
  exact ⟨hflags, m.peer_length, m.delivery.bounded _ hmem⟩

theorem nextStream_isSome (stream_increment : Int) (status : Option (BitVec 16))
    (stream : BitVec 16) :
    ∃ next, nextStream stream_increment status stream = some next := by
  have hnonneg : ¬sctpGetNoStrms status < 0 := Int.not_lt.mpr (Int.natCast_nonneg _)
  simp only [nextStream, if_neg hnonneg]
  split
  · exact ⟨_, rfl⟩
  · split
    · exact ⟨_, rfl⟩
    · exact ⟨_, rfl⟩

structure Vars.Ok (v : Vars) : Prop where
  readbuf : v.readbuf.length = BUFFSIZE
  cli_addr : v.cli_addr.length = SOCKADDR_IN
  len : v.len = SOCKADDR_IN

theorem Vars.start_ok (junk : Nat → Byte) (sri : SndRcvInfo) (flags : Flags) :
    (Vars.start junk sri flags).Ok := by
  constructor <;> simp only [Vars.start, alloc_length]

theorem serverLoop_data (stream_increment : Int) {v : Vars} (hv : v.Ok)
    {r : Round} (hr : r.recv.IsData) (rounds : List Round) :
    ∃ (v' : Vars) (x : Sent), v'.Ok ∧ (x.peer, x.data) = r.recv.pair ∧
      serverLoop stream_increment v (r :: rounds) =
        if r.sendOk then
          let next := serverLoop stream_increment v' rounds
          { next with sent := x :: next.sent }
        else ⟨[], false⟩ := by
  obtain ⟨recv, status, sendOk⟩ := r
  cases recv with
  | error => exact hr.elim
  | piece peer info flags data =>
      obtain ⟨hflags, hpeer, hdata⟩ := hr
      have htake : data.take BUFFSIZE = data := List.take_of_length_le hdata
      have haddr : peer.take v.len = peer :=
        List.take_of_length_le (by rw [hpeer, hv.len])
      obtain ⟨stream, hstream⟩ :=
        nextStream_isSome stream_increment status info.sinfo_stream
      refine ⟨⟨store v.readbuf 0 data, data.length, store v.cli_addr 0 peer,
          SOCKADDR_IN, info, flags⟩, ⟨data, peer, info.sinfo_ppid,
          info.sinfo_flags, stream⟩, ⟨?_, ?_, rfl⟩, rfl, ?_⟩
      · rw [store_length, hv.readbuf]
      · rw [store_length, hv.cli_addr]
      · have hpeerfit : peer.length ≤ v.cli_addr.length := by
          rw [hpeer, hv.cli_addr]
        have hdatafit : data.length ≤ v.readbuf.length := by
          rw [hv.readbuf]
          exact hdata
        simp only [serverLoop, recvmsg, htake, haddr, hflags, hstream,
          Bool.false_eq_true, if_false, Vars.reply, take_store_zero hpeerfit,
          take_store_zero hdatafit]

theorem serverLoop_sent (stream_increment : Int) {v : Vars} (hv : v.Ok)
    {rounds : List Round} (hdata : ∀ r ∈ rounds, r.recv.IsData) :
    let out := serverLoop stream_increment v rounds
    (out.running = true → out.sent.map (fun x => (x.peer, x.data)) =
        rounds.map fun r => r.recv.pair) ∧
      ((∀ r ∈ rounds, r.sendOk = true) → out.running = true) := by
  induction rounds generalizing v with
  | nil => exact ⟨fun _ => rfl, fun _ => rfl⟩
  | cons r rounds ih =>
      rw [List.forall_mem_cons] at hdata
      obtain ⟨v', x, hv', hx, heq⟩ :=
        serverLoop_data stream_increment hv hdata.1 rounds
      obtain ⟨hsent, hrunning⟩ := ih hv' hdata.2
      rw [heq]
      by_cases hok : r.sendOk = true
      · simp only [hok, if_true, List.forall_mem_cons, true_and, List.map_cons,
          hx]
        exact ⟨fun h => by rw [hsent h], hrunning⟩
      · simp [hok]

def delivered (ms : List Inbound) : List Recv := ms.flatMap Inbound.recvs

theorem delivered_map_pair (ms : List Inbound) :
    (delivered ms).map Recv.pair =
      perPiece Inbound.peer Inbound.delivery ms := by
  rw [delivered, List.map_flatMap, perPiece]
  congr 1
  funext m
  exact m.recvs_map_pair

theorem isData_of_delivered {ms : List Inbound} {rounds : List Round}
    (h : rounds.map Round.recv = delivered ms) :
    ∀ r ∈ rounds, r.recv.IsData := by
  intro r hr
  have hmem : r.recv ∈ delivered ms := by
    rw [← h]
    exact List.mem_map_of_mem hr
  obtain ⟨m, -, hm⟩ := List.mem_flatMap.mp hmem
  exact m.isData hm

theorem serverLoop_perPiece (stream_increment : Int) {v : Vars} (hv : v.Ok)
    {ms : List Inbound} {rounds : List Round}
    (h : rounds.map Round.recv = delivered ms)
    (hrunning : (serverLoop stream_increment v rounds).running = true) :
    (serverLoop stream_increment v rounds).sent.map
        (fun x => (x.peer, x.data)) =
      perPiece Inbound.peer Inbound.delivery ms := by
  have hsent := (serverLoop_sent stream_increment hv
    (isData_of_delivered h)).1 hrunning
  rw [hsent, ← delivered_map_pair, ← h, List.map_map]
  rfl

/-- As long as no system call fails, the server answers each message with one
message of the same bytes to its sender, for exactly those sequences in which
every message fits `readbuf`. -/
theorem serverLoop_boundaries_iff (ms : List Inbound) :
    (∀ (stream_increment : Int) (junk : Nat → Byte) (sri : SndRcvInfo)
      (flags : Flags) (rounds : List Round),
      rounds.map Round.recv = delivered ms →
        (serverLoop stream_increment (.start junk sri flags) rounds).running =
            true →
          (serverLoop stream_increment (.start junk sri flags) rounds).sent.map
              (fun x => (x.peer, x.data)) =
            ms.map fun m => (m.peer, m.delivery.content)) ↔
      ∀ m ∈ ms, m.delivery.content.length ≤ BUFFSIZE := by
  rw [← perPiece_eq_iff Inbound.peer]
  constructor
  · intro hall
    have hrounds : ((delivered ms).map fun r => (⟨r, none, true⟩ : Round)).map
        Round.recv = delivered ms := by
      rw [List.map_map]
      exact List.map_id _
    have hv := Vars.start_ok (fun _ => 0) ⟨0, 0, 0, 0⟩ 0
    have hrunning := (serverLoop_sent 1 hv
      (isData_of_delivered hrounds)).2 (by simp)
    rw [← serverLoop_perPiece 1 hv hrounds hrunning]
    exact hall 1 _ _ _ _ hrounds hrunning
  · intro hfits stream_increment junk sri flags rounds hrounds hrunning
    rw [← hfits]
    have hv := Vars.start_ok junk sri flags
    exact serverLoop_perPiece stream_increment hv hrounds hrunning

def longMessage : Inbound where
  peer := List.replicate SOCKADDR_IN 0
  peer_length := List.length_replicate
  info := ⟨0, 0, 0, 1⟩
  delivery := .ofFull (List.replicate BUFFSIZE 0x61) [0x62]
    List.length_replicate (List.cons_ne_nil _ _) (by decide)

def longMessageRounds : List Round :=
  [⟨.piece longMessage.peer longMessage.info 0 (List.replicate BUFFSIZE 0x61),
      some 10, true⟩,
    ⟨.piece longMessage.peer longMessage.info MSG_EOR [0x62], some 10, true⟩]

theorem long_message_split :
    longMessageRounds.map Round.recv = delivered [longMessage] ∧
      ∃ out, serverLoop 1 (.start (fun _ => 0) ⟨0, 0, 0, 0⟩ 0)
          longMessageRounds = out ∧
        out.running = true ∧
        out.sent.map (fun x => (x.peer, x.data)) =
          [(longMessage.peer, List.replicate BUFFSIZE 0x61),
            (longMessage.peer, [0x62])] ∧
        out.sent.map (fun x => (x.peer, x.data)) ≠
          [longMessage].map fun m => (m.peer, m.delivery.content) := by
  have hrounds : longMessageRounds.map Round.recv = delivered [longMessage] := rfl
  have hv := Vars.start_ok (fun _ => 0) ⟨0, 0, 0, 0⟩ 0
  have hrunning := (serverLoop_sent 1 hv
    (isData_of_delivered hrounds)).2 (by simp [longMessageRounds])
  have hsent := serverLoop_perPiece 1 hv hrounds hrunning
  refine ⟨hrounds, _, rfl, hrunning, hsent, ?_⟩
  intro hwhole
  have hlen := congrArg List.length (hsent.symm.trans hwhole)
  exact absurd hlen (by decide)

end MyUnp.SctpEchoServer
