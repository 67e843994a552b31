import Mathlib.Data.List.Perm.Basic
import MyUnp.Decimal
import MyUnp.LinePieces
import MyUnp.SctpEchoServer
import MyUnp.TransitionSystem

/-!
`sctp_str_cli_echoall` of Chapter 9 sends every line on each of the streams of
an association, and then waits for as many replies. The association keeps
messages in order within a stream only.
-/

namespace MyUnp.EchoAllClient

open MyUnp.Decimal MyUnp.LinePieces MyUnp.MemoryBlock MyUnp.TransitionSystem MyUnp.Unp
open MyUnp.SctpEchoServer
open MyUnp.PartialDelivery (MSG_EOR)

/-- `MAXLINE` of this chapter, and the size of `sendline`. -/
def MAXLINE : Nat := 1024

def SRV_MAX_SCTP_STRM : Nat := 10

/-- A message on its way; `line` is the number of the line it stems from. -/
structure Msg where
  stream : BitVec 16
  data : List Byte
  line : Nat
  deriving DecidableEq

def deliver (k : Nat) (q : List Msg) : Option (Msg × List Msg) :=
  match q.drop k with
  | [] => none
  | m :: back =>
      if (q.take k).all fun m' => m'.stream ≠ m.stream then some (m, q.take k ++ back)
      else none

theorem deliver_perm {k : Nat} {q rest : List Msg} {m : Msg}
    (h : deliver k q = some (m, rest)) : q.Perm (m :: rest) := by
  unfold deliver at h
  split at h
  · cases h
  · rename_i m' back hdrop
    split_ifs at h
    obtain ⟨rfl, rfl⟩ := Prod.mk.inj (Option.some.inj h)
    calc
      q = q.take k ++ q.drop k := (List.take_append_drop k q).symm
      _ = q.take k ++ m' :: back := by rw [hdrop]
      List.Perm _ (m' :: (q.take k ++ back)) := List.perm_middle

/-- A pass of the server's loop on a message that comes in one piece. -/
def serverPass (stream_increment : Int) (v : Vars) (r : Round) : Option (Sent × Vars) :=
  match recvmsg v r.recv with
  | none => none
  | some v' =>
      match nextStream stream_increment r.status v'.sri.sinfo_stream with
      | none => none
      | some stream => some (v'.reply stream, { v' with len := SOCKADDR_IN })

theorem serverLoop_pass (stream_increment : Int) (v : Vars) {r : Round}
    (hr : r.recv.IsData) (hsend : r.sendOk = true) (rounds : List Round) :
    serverLoop stream_increment v (r :: rounds) =
      match serverPass stream_increment v r with
      | none => ⟨[], false⟩
      | some (x, v') =>
          { serverLoop stream_increment v' rounds with
            sent := x :: (serverLoop stream_increment v' rounds).sent } := by
  obtain ⟨recv, status, sendOk⟩ := r
  cases recv with
  | error => exact hr.elim
  | piece peer info flags data =>
      obtain ⟨hflags, _, _⟩ := hr
      obtain rfl : sendOk = true := hsend
      rw [serverLoop, serverPass]
      simp only [recvmsg, hflags]
      cases nextStream stream_increment status info.sinfo_stream <;> rfl

theorem serverPass_data (stream_increment : Int) {v : Vars} (hv : v.Ok) {r : Round}
    (hr : r.recv.IsData) :
    ∃ x v', serverPass stream_increment v r = some (x, v') ∧ v'.Ok ∧
      x.data = r.recv.pair.2 := by
  obtain ⟨recv, status, sendOk⟩ := r
  cases recv with
  | error => exact hr.elim
  | piece peer info flags data =>
      obtain ⟨_, _, hdata⟩ := hr
      have htake : data.take BUFFSIZE = data := List.take_of_length_le hdata
      have hfit : data.length ≤ v.readbuf.length := by
        rw [hv.readbuf]
        exact hdata
      obtain ⟨stream, hstream⟩ :=
        nextStream_isSome stream_increment status info.sinfo_stream
      unfold serverPass
      simp only [recvmsg, hstream]
      refine ⟨_, _, rfl, ⟨?_, ?_, rfl⟩, ?_⟩
      · rw [store_length, hv.readbuf]
      · rw [store_length, hv.cli_addr]
      · change (store v.readbuf 0 (data.take BUFFSIZE)).take
          (data.take BUFFSIZE).length = data
        rw [htake, take_store_zero hfit]

structure Peer where
  addr : List Byte
  addr_length : addr.length = SOCKADDR_IN
  info : SndRcvInfo

def Peer.round (p : Peer) (m : Msg) (status : Option (BitVec 16)) : Round :=
  ⟨.piece p.addr { p.info with sinfo_stream := m.stream } MSG_EOR m.data, status, true⟩

/-- Before `fgets`, before the `sctp_sendmsg` or the `sctp_recvmsg` number `i`, or
returned. -/
inductive Pc
  | fgets
  | send (i : Nat)
  | recv (i : Nat)
  | returned
  deriving DecidableEq

abbrev Echo := Nat × List Byte

def Msg.echo (m : Msg) : Echo := (m.line, m.data)

/-- `sendline` is the array with one cell of what lies in front of it, and `off`
the offset of `sendline + str_sz` therein. For the line being served `sent` and
`got` hold the messages sent and the replies taken; `served` holds both for the
lines before it. No step looks at these three. -/
structure State where
  pc : Pc
  input : List Byte
  sendline : List Byte
  off : Nat
  server : Vars
  toServer : List Msg
  toClient : List Msg
  line : Nat
  sent : List Echo
  got : List Echo
  served : List (List Echo × List Echo)

inductive Act
  | fgets
  | send
  | serve (k : Nat) (status : Option (BitVec 16))
  | recv (k : Nat)
  deriving DecidableEq

def msgText : List Byte := [46, 109, 115, 103, 46]

def snprintf (block : List Byte) (dst size : Nat) (text : List Byte) : List Byte :=
  if size = 0 then block else store block dst (text.take (size - 1) ++ [0])

/-- `strlen(sendline)`, and the newline taken off: the block, and where
`sendline + str_sz` is then. -/
def chop (block : List Byte) : List Byte × Nat :=
  let off := 1 + (cString (block.drop 1)).length
  if block[off - 1]? = some newline then (block.set (off - 1) 0, off - 1) else (block, off)

def State.fgets (s : State) : State :=
  let line := nextPiece newline (MAXLINE - 1) s.input
  let chopped := chop (store s.sendline 1 (line.1 ++ [0]))
  { s with
    pc := .send 0
    input := line.2
    sendline := chopped.1
    off := chopped.2 }

/-- `snprintf(sendline+str_sz, sizeof(sendline)-str_sz, ".msg.%d", i)`. -/
def State.number (s : State) (i : Nat) : List Byte :=
  snprintf s.sendline s.off (MAXLINE + 1 - s.off) (msgText ++ decimal i)

def State.message (s : State) (i : Nat) : Msg := ⟨i, (s.number i).drop 1, s.line⟩

def State.send (s : State) (i : Nat) : State :=
  { s with
    pc := if i + 1 < SRV_MAX_SCTP_STRM then .send (i + 1) else .recv 0
    sendline := s.number i
    toServer := s.toServer ++ [s.message i]
    sent := s.sent ++ [(s.message i).echo] }

def State.serve (s : State) (m : Msg) (rest : List Msg) (x : Sent) (v : Vars) : State :=
  { s with
    server := v
    toServer := rest
    toClient := s.toClient ++ [⟨x.stream, x.data, m.line⟩] }

/-- `sctp_recvmsg`; the last of the loop closes the line. -/
def State.recv (s : State) (i : Nat) (m : Msg) (rest : List Msg) : State :=
  let got := s.got ++ [(m.line, m.data.take MAXLINE)]
  if i + 1 < SRV_MAX_SCTP_STRM then { s with pc := .recv (i + 1), toClient := rest, got := got }
  else
    { s with
      pc := .fgets
      toClient := rest
      line := s.line + 1
      sent := []
      got := []
      served := s.served ++ [(s.sent, got)] }

variable (stream_increment : Int) (p : Peer)

def State.step (s : State) : Act → Option State
  | .fgets =>
      match s.pc, s.input with
      | .fgets, [] => some { s with pc := .returned }
      | .fgets, _ :: _ => some s.fgets
      | _, _ => none
  | .send =>
      match s.pc with
      | .send i => some (s.send i)
      | _ => none
  | .serve k status =>
      match deliver k s.toServer with
      | none => none
      | some (m, rest) =>
          match serverPass stream_increment s.server (p.round m status) with
          | none => none
          | some (x, v) => some (s.serve m rest x v)
  | .recv k =>
      match s.pc, deliver k s.toClient with
      | .recv i, some (m, rest) => some (s.recv i m rest)
      | _, _ => none

structure State.IsStart (file : List Byte) (s : State) : Prop where
  pc : s.pc = .fgets
  input : s.input = file
  sendline : ∃ below, s.sendline = below :: List.replicate MAXLINE 0
  server : s.server.Ok
  toServer : s.toServer = []
  toClient : s.toClient = []
  sent : s.sent = []
  got : s.got = []
  served : s.served = []
  line : s.line = 0

def system (file : List Byte) : System State Act where
  init := State.IsStart file
  step := State.step stream_increment p

variable {stream_increment} {p}

inductive Move (stream_increment : Int) (p : Peer) (s : State) : Act → State → Prop
  | eof (hpc : s.pc = .fgets) (hinput : s.input = []) :
      Move stream_increment p s .fgets { s with pc := .returned }
  | fgets (hpc : s.pc = .fgets) (hinput : s.input ≠ []) :
      Move stream_increment p s .fgets s.fgets
  | send {i : Nat} (hpc : s.pc = .send i) : Move stream_increment p s .send (s.send i)
  | serve {k : Nat} {status : Option (BitVec 16)} {m : Msg} {rest : List Msg} {x : Sent}
      {v : Vars} (hdeliver : deliver k s.toServer = some (m, rest))
      (hpass : serverPass stream_increment s.server (p.round m status) = some (x, v)) :
      Move stream_increment p s (.serve k status) (s.serve m rest x v)
  | recv {k i : Nat} {m : Msg} {rest : List Msg} (hpc : s.pc = .recv i)
      (hdeliver : deliver k s.toClient = some (m, rest)) :
      Move stream_increment p s (.recv k) (s.recv i m rest)

theorem step_move {file : List Byte} {s t : State} {l : Act}
    (h : (system stream_increment p file).step s l = some t) :
    Move stream_increment p s l t := by
  change s.step stream_increment p l = some t at h
  cases l with
  | fgets =>
      rw [State.step] at h
      split at h
      · rename_i hpc hinput
        obtain rfl := Option.some.inj h
        exact .eof hpc hinput
      · rename_i hpc hinput
        obtain rfl := Option.some.inj h
        exact .fgets hpc (by rw [hinput]; exact List.cons_ne_nil _ _)
      · cases h
  | send =>
      rw [State.step] at h
      split at h
      · rename_i hpc
        obtain rfl := Option.some.inj h
        exact .send hpc
      · cases h
  | serve k status =>
      rw [State.step] at h
      split at h
      · cases h
      · rename_i hdeliver
        split at h
        · cases h
        · rename_i hpass
          obtain rfl := Option.some.inj h
          exact .serve hdeliver hpass
  | recv k =>
      rw [State.step] at h
      split at h
      · rename_i hpc hdeliver
        obtain rfl := Option.some.inj h
        exact .recv hpc hdeliver
      · cases h

def inFlight (s : State) : List Msg := s.toServer ++ s.toClient

/-- Where the loops stand, by what has been sent and taken for the line. -/
def Phase (s : State) : Prop :=
  match s.pc with
  | .fgets => s.sent = [] ∧ s.got = []
  | .send i => s.sent.length = i ∧ s.got = [] ∧ i < SRV_MAX_SCTP_STRM
  | .recv i => s.sent.length = SRV_MAX_SCTP_STRM ∧ s.got.length = i ∧ i < SRV_MAX_SCTP_STRM
  | .returned => s.sent = [] ∧ s.got = []

structure Served (k : Nat) (r : List Echo × List Echo) : Prop where
  length : r.1.length = SRV_MAX_SCTP_STRM
  perm : r.2.Perm r.1
  own : ∀ e ∈ r.1, e.1 = k

structure Inv (s : State) : Prop where
  server : s.server.Ok
  sendline : s.sendline.length = MAXLINE + 1
  data : ∀ m ∈ inFlight s, m.data.length = MAXLINE
  balance : s.sent.Perm ((inFlight s).map Msg.echo ++ s.got)
  own : ∀ e ∈ s.sent, e.1 = s.line
  phase : Phase s
  count : s.served.length = s.line
  served : ∀ k r, s.served[k]? = some r → Served k r

theorem snprintf_length (block : List Byte) (dst size : Nat) (text : List Byte) :
    (snprintf block dst size text).length = block.length := by
  unfold snprintf
  split_ifs
  · rfl
  · exact store_length _ _ _

theorem chop_length (block : List Byte) : (chop block).1.length = block.length := by
  unfold chop
  dsimp only
  split_ifs
  · exact List.length_set
  · rfl

theorem eq_nil_of_balance {sent got : List Echo} {flight : List Msg}
    (h : sent.Perm (flight.map Msg.echo ++ got)) (hlen : got.length = sent.length) :
    flight = [] := by
  have hsum := h.length_eq
  rw [List.length_append, List.length_map] at hsum
  exact List.length_eq_zero_iff.mp (by omega)

section Steps

variable {s : State}

theorem Inv.fgets (h : Inv s) (hpc : s.pc = .fgets) : Inv s.fgets := by
  have hphase := h.phase
  rw [Phase, hpc] at hphase
  refine ⟨h.server, ?_, h.data, h.balance, h.own, ?_, h.count, h.served⟩
  · exact (chop_length _).trans ((store_length _ _ _).trans h.sendline)
  · exact ⟨by rw [show s.fgets.sent = s.sent from rfl, hphase.1]; rfl, hphase.2, by decide⟩

theorem Inv.send (h : Inv s) {i : Nat} (hpc : s.pc = .send i) : Inv (s.send i) := by
  have hphase := h.phase
  rw [Phase, hpc] at hphase
  obtain ⟨hsent, hgot, hi⟩ := hphase
  have hblock : (s.number i).length = MAXLINE + 1 :=
    (snprintf_length _ _ _ _).trans h.sendline
  have hflight : (inFlight (s.send i)).Perm (s.message i :: inFlight s) :=
    List.perm_append_comm.append_right s.toClient
  have hlen : (s.send i).sent.length = i + 1 := by
    change (s.sent ++ [_]).length = i + 1
    rw [List.length_append, hsent, List.length_singleton]
  refine ⟨h.server, hblock, ?_, ?_, ?_, ?_, h.count, h.served⟩
  · intro m hm
    rcases List.mem_cons.mp (hflight.subset hm) with rfl | hold
    · change ((s.number i).drop 1).length = MAXLINE
      rw [List.length_drop, hblock]
      rfl
    · exact h.data m hold
  · change (s.sent ++ [(s.message i).echo]).Perm _
    refine (List.perm_append_comm.trans (h.balance.cons _)).trans ?_
    exact (hflight.map Msg.echo).symm.append_right s.got
  · intro e he
    rcases List.mem_append.mp he with hold | hnew
    · exact h.own e hold
    · obtain rfl := List.mem_singleton.mp hnew
      rfl
  · unfold Phase
    rcases Nat.lt_or_ge (i + 1) SRV_MAX_SCTP_STRM with hlt | hge
    · have hpc' : (s.send i).pc = .send (i + 1) := if_pos hlt
      rw [hpc']
      exact ⟨hlen, hgot, hlt⟩
    · have hpc' : (s.send i).pc = .recv 0 := if_neg (Nat.not_lt.mpr hge)
      rw [hpc']
      refine ⟨by omega, ?_, by decide⟩
      change s.got.length = 0
      rw [hgot]
      rfl

theorem Peer.round_isData (p : Peer) {m : Msg} (hm : m.data.length = MAXLINE)
    (status : Option (BitVec 16)) : (p.round m status).recv.IsData := by
  refine ⟨by decide, p.addr_length, ?_⟩
  rw [hm]
  exact Nat.le_refl _

theorem Inv.serve (h : Inv s) {k : Nat} {status : Option (BitVec 16)} {m : Msg}
    {rest : List Msg} {x : Sent} {v : Vars}
    (hdeliver : deliver k s.toServer = some (m, rest))
    (hpass : serverPass stream_increment s.server (p.round m status) = some (x, v)) :
    Inv (s.serve m rest x v) := by
  have hperm := deliver_perm hdeliver
  have hmem : m ∈ inFlight s :=
    List.mem_append_left _ (hperm.symm.subset List.mem_cons_self)
  obtain ⟨x', v', hpass', hv, hdata⟩ := serverPass_data stream_increment h.server
    (p.round_isData (h.data m hmem) status)
  obtain ⟨rfl, rfl⟩ := Prod.mk.inj (Option.some.inj (hpass'.symm.trans hpass))
  have hx : x'.data = m.data := hdata
  -- the reply takes the place of the message
  have hecho : (inFlight (s.serve m rest x' v')).map Msg.echo =
      (rest.map Msg.echo ++ s.toClient.map Msg.echo) ++ [m.echo] := by
    change (rest ++ (s.toClient ++ [(⟨x'.stream, x'.data, m.line⟩ : Msg)])).map Msg.echo = _
    rw [hx, List.map_append, List.map_append, List.append_assoc]
    rfl
  have hflight : ((inFlight (s.serve m rest x' v')).map Msg.echo).Perm
      ((inFlight s).map Msg.echo) := by
    rw [hecho, inFlight, List.map_append]
    refine List.perm_append_comm.trans ?_
    exact ((hperm.map Msg.echo).symm.append_right (s.toClient.map Msg.echo))
  refine ⟨hv, h.sendline, ?_, ?_, h.own, h.phase, h.count, h.served⟩
  · intro m' hm'
    have hmem' := hflight.subset (List.mem_map_of_mem hm')
    obtain ⟨m'', hm'', heq⟩ := List.mem_map.mp hmem'
    rw [← (Prod.mk.inj heq).2]
    exact h.data m'' hm''
  · exact h.balance.trans (hflight.symm.append_right s.got)

theorem Inv.balance_recv (h : Inv s) {k : Nat} {m : Msg} {rest : List Msg}
    (hdeliver : deliver k s.toClient = some (m, rest)) :
    s.sent.Perm ((s.toServer ++ rest).map Msg.echo ++ (s.got ++ [m.echo])) := by
  have hperm := deliver_perm hdeliver
  have hflight : (inFlight s).Perm (s.toServer ++ rest ++ [m]) := by
    rw [List.append_assoc]
    exact (hperm.trans (List.perm_append_singleton m rest).symm).append_left s.toServer
  have hmove := hflight.map Msg.echo
  rw [List.map_append] at hmove
  refine h.balance.trans ((hmove.append_right s.got).trans ?_)
  rw [List.append_assoc]
  exact List.perm_append_comm.append_left _

theorem Inv.recv (h : Inv s) {k i : Nat} {m : Msg} {rest : List Msg}
    (hpc : s.pc = .recv i) (hdeliver : deliver k s.toClient = some (m, rest)) :
    Inv (s.recv i m rest) := by
  have hphase := h.phase
  rw [Phase, hpc] at hphase
  obtain ⟨hsent, hgot, hi⟩ := hphase
  have hperm := deliver_perm hdeliver
  have hmem : m ∈ inFlight s :=
    List.mem_append_right _ (hperm.symm.subset List.mem_cons_self)
  have htake : (m.line, m.data.take MAXLINE) = m.echo := by
    rw [List.take_of_length_le (h.data m hmem).le, Msg.echo]
  have hrest : ∀ m' ∈ s.toServer ++ rest, m'.data.length = MAXLINE := by
    intro m' hm'
    apply h.data m'
    rcases List.mem_append.mp hm' with hleft | hright
    · exact List.mem_append_left _ hleft
    · exact List.mem_append_right _ (hperm.symm.subset (List.mem_cons_of_mem _ hright))
  have hbalance := h.balance_recv hdeliver
  have hcount : (s.got ++ [m.echo]).length = i + 1 := by
    rw [List.length_append, hgot, List.length_singleton]
  unfold State.recv
  rw [htake]
  dsimp only
  split_ifs with hlt
  · exact ⟨h.server, h.sendline, hrest, hbalance, h.own, ⟨hsent, hcount, hlt⟩, h.count,
      h.served⟩
  · have hfull : (s.got ++ [m.echo]).length = s.sent.length := by omega
    have hnil : s.toServer ++ rest = [] := eq_nil_of_balance hbalance hfull
    refine ⟨h.server, h.sendline, hrest, ?_, List.forall_mem_nil _, ⟨rfl, rfl⟩, ?_, ?_⟩
    · change List.Perm [] ((s.toServer ++ rest).map Msg.echo ++ [])
      rw [hnil]
      exact List.Perm.refl _
    · rw [List.length_append, h.count]
      rfl
    · intro k r hr
      rcases Nat.lt_trichotomy k s.served.length with hlt' | heq | hgt
      · rw [List.getElem?_append_left hlt'] at hr
        exact h.served k r hr
      · rw [heq, List.getElem?_concat_length, Option.some_inj] at hr
        subst hr
        refine ⟨by omega, ?_, ?_⟩
        · rw [hnil] at hbalance
          exact hbalance.symm
        · rw [heq, h.count]
          exact h.own
      · rw [List.getElem?_eq_none] at hr
        · cases hr
        · rw [List.length_append]
          exact hgt

end Steps

variable {file : List Byte}

theorem reachable_balance {s : State} (h : (system stream_increment p file).Reachable s) :
    Inv s := by
  refine h.invariant (P := Inv) ?_ ?_
  · rintro s ⟨hpc, _, ⟨below, hsendline⟩, hserver, hserverQ, hclientQ, hsent, hgot, hserved,
      hline⟩
    have hflight : inFlight s = [] := by
      rw [inFlight, hserverQ, hclientQ]
      rfl
    refine ⟨hserver, ?_, ?_, ?_, ?_, ?_, ?_, ?_⟩
    · rw [hsendline, List.length_cons, List.length_replicate]
    · rw [hflight]
      exact List.forall_mem_nil _
    · rw [hflight, hsent, hgot]
      exact List.Perm.refl _
    · rw [hsent]
      exact List.forall_mem_nil _
    · rw [Phase, hpc]
      exact ⟨hsent, hgot⟩
    · rw [hserved, hline]
      rfl
    · intro k r hr
      rw [hserved] at hr
      cases hr
  · intro s l t _ hs hstep
    cases step_move hstep with
    | eof hpc hinput =>
        have hphase := hs.phase
        rw [Phase, hpc] at hphase
        exact ⟨hs.server, hs.sendline, hs.data, hs.balance, hs.own, hphase, hs.count, hs.served⟩
    | fgets hpc hinput => exact hs.fgets hpc
    | send hpc => exact hs.send hpc
    | serve hdeliver hpass => exact hs.serve hdeliver hpass
    | recv hpc hdeliver => exact hs.recv hpc hdeliver

/-- At every head of the line loop nothing is on its way, and each line served got
ten replies, which are the echoes of its ten messages in some order. A reply
taken meanwhile is one to the line being served. -/
structure KeptApart (s : State) : Prop where
  head : s.pc = .fgets ∨ s.pc = .returned → s.toServer = [] ∧ s.toClient = []
  served : ∀ k r, s.served[k]? = some r → Served k r
  all : s.served.length = s.line
  own : ∀ e ∈ s.got, e ∈ s.sent ∧ e.1 = s.line

theorem reachable_keptApart {s : State} (h : (system stream_increment p file).Reachable s) :
    KeptApart s := by
  have hs := reachable_balance h
  have hphase := hs.phase
  refine ⟨?_, hs.served, hs.count, ?_⟩
  · rintro (hpc | hpc) <;>
    · rw [Phase, hpc] at hphase
      obtain ⟨hsent, hgot⟩ := hphase
      have hnil := eq_nil_of_balance hs.balance (by rw [hsent, hgot])
      exact List.append_eq_nil_iff.mp hnil
  · intro e he
    have hmem : e ∈ s.sent := hs.balance.symm.subset (List.mem_append_right _ he)
    exact ⟨hmem, hs.own e hmem⟩

def examplePeer : Peer :=
  ⟨List.replicate SOCKADDR_IN 1, List.length_replicate, ⟨0, 0, 0, 1⟩⟩

def exampleStart : State where
  pc := .fgets
  input := [97, 10]
  sendline := 0 :: List.replicate MAXLINE 0
  off := 0
  server := .start (fun _ => 0) ⟨0, 0, 0, 0⟩ 0
  toServer := []
  toClient := []
  line := 0
  sent := []
  got := []
  served := []

theorem reachable_keptApart_one : ∃ s : State, KeptApart s ∧ s.pc = .fgets ∧
    s.served.map (fun r => (r.1.map fun e => e.2[6]?, r.2.map fun e => e.2[6]?)) =
      [([some 48, some 49, some 50, some 51, some 52, some 53, some 54, some 55, some 56,
          some 57],
        [some 57, some 56, some 55, some 54, some 53, some 52, some 51, some 50, some 49,
          some 48])] := by
  have hmap : ((system 1 examplePeer [97, 10]).run exampleStart
      (.fgets :: (List.replicate 10 .send ++ [.serve 9 (some 10), .recv 0] ++
        List.replicate 9 (.serve 0 (some 10)) ++ (List.range 9).reverse.map .recv))).map
          (fun s => (s.pc, s.served.map fun r =>
            (r.1.map fun e => e.2[6]?, r.2.map fun e => e.2[6]?))) =
      some (.fgets, [([some 48, some 49, some 50, some 51, some 52, some 53, some 54,
          some 55, some 56, some 57],
        [some 57, some 56, some 55, some 54, some 53, some 52, some 51, some 50, some 49,
          some 48])]) := by
    decide +kernel
  obtain ⟨s, hrun, hfacts⟩ := Option.map_eq_some_iff.mp hmap
  obtain ⟨hpc, hserved⟩ := Prod.mk.inj hfacts
  have hstart : exampleStart.IsStart [97, 10] :=
    ⟨rfl, rfl, ⟨0, rfl⟩, Vars.start_ok _ _ _, rfl, rfl, rfl, rfl, rfl, rfl⟩
  exact ⟨s, reachable_keptApart ⟨_, _, hstart, hrun⟩, hpc, hserved⟩

end MyUnp.EchoAllClient
