import MyUnp.PollServerService

namespace MyUnp.PollServerClients

open MyUnp.PollServer hiding State system
open MyUnp.PollServerEcho (received echoed EchoOk echoOk_kept)
open MyUnp.PollServerFaults (Connecting Fails TableFull arrival_poll pass_ended)
open MyUnp.PollServerRule
open MyUnp.PollServerScan (Arrival le_maxi_of_fd poll_revents)
open MyUnp.PollServerService
open MyUnp.PollServerTable (closes poll_fd poll_maxi small)
open MyUnp.TransitionSystem
open MyUnp.Unp

inductive Status where
  | sending
  | closed
  | reset
  deriving DecidableEq

/-- One end of a connection: what has arrived from it and has not been read, and
what comes behind that. -/
structure Peer where
  arrived : List Byte
  status : Status

def Peer.start : Peer := ⟨[], .sending⟩

def Peer.drop (p : Peer) (n : Nat) : Peer := ⟨p.arrived.drop n, p.status⟩

def Peer.Readable (p : Peer) : Prop := p.arrived ≠ [] ∨ p.status ≠ .sending

/-- An RST is reported as an error, a FIN as data. -/
def Peer.revents (p : Peer) : BitVec 16 :=
  match p.status with
  | .reset => POLLERR
  | .closed => POLLRDNORM
  | .sending => if p.arrived = [] then 0 else POLLRDNORM

/-- `read` of `MAXLINE` bytes takes one byte at least and `k` more, if there are
so many, or it fails with an error other than `ECONNRESET`. Where nothing has arrived
from a client that still sends it would block, but then `Poll` does not report the
client. -/
def Peer.read (p : Peer) (k : Option Nat) : ReadResult :=
  match k, p.status, p.arrived with
  | none, _, _ => .error
  | _, .reset, _ => .reset
  | _, _, [] => .eof
  | some k, _, b :: bs => .data ⟨b, bs.take (min k (MAXLINE - 1)), by
      rw [List.length_take, MAXLINE]
      omega⟩

theorem Peer.revents_ne_zero (p : Peer) : p.revents ≠ 0 ↔ p.Readable := by
  obtain ⟨arrived, status⟩ := p
  cases status with
  | sending =>
      by_cases hnone : arrived = []
      · simp [Peer.revents, Peer.Readable, hnone]
      · simp [Peer.revents, Peer.Readable, hnone, POLLRDNORM]
  | closed => simp [Peer.revents, Peer.Readable, POLLRDNORM]
  | reset => simp [Peer.revents, Peer.Readable, POLLERR]

theorem Peer.revents_and (p : Peer) : p.revents &&& (POLLRDNORM ||| POLLERR) = p.revents := by
  obtain ⟨arrived, status⟩ := p
  cases status with
  | sending =>
      by_cases hnone : arrived = []
      · simp [Peer.revents, hnone]
      · simp [Peer.revents, hnone, POLLRDNORM, POLLERR]
  | closed =>
      change POLLRDNORM &&& (POLLRDNORM ||| POLLERR) = POLLRDNORM
      decide
  | reset =>
      change POLLERR &&& (POLLRDNORM ||| POLLERR) = POLLERR
      decide

theorem Peer.bytesRead_read {p : Peer} (h : p.status ≠ .reset) (k : Nat) :
    bytesRead (p.read (some k)) = p.arrived.take (min k (MAXLINE - 1) + 1) := by
  obtain ⟨arrived, status⟩ := p
  cases status with
  | sending => cases arrived <;> rfl
  | closed => cases arrived <;> rfl
  | reset => exact absurd rfl h

theorem Peer.bytesRead_prefix (p : Peer) (k : Option Nat) :
    bytesRead (p.read k) <+: p.arrived := by
  cases k with
  | none => exact List.nil_prefix
  | some k =>
      by_cases h : p.status = .reset
      · obtain ⟨arrived, status⟩ := p
        obtain rfl : status = .reset := h
        exact List.nil_prefix
      · rw [p.bytesRead_read h]
        exact List.take_prefix ..

theorem Peer.read_error {p : Peer} {k : Option Nat} : p.read k = .error ↔ k = none := by
  obtain ⟨arrived, status⟩ := p
  cases k with
  | none => exact iff_of_true rfl rfl
  | some k =>
      cases status with
      | sending => cases arrived <;> simp [Peer.read]
      | closed => cases arrived <;> simp [Peer.read]
      | reset => simp [Peer.read]

theorem Peer.read_ends (p : Peer) (k : Nat) :
    p.read (some k) = .reset ∨ p.read (some k) = .eof ↔ p.status = .reset ∨ p.arrived = [] := by
  obtain ⟨arrived, status⟩ := p
  cases status with
  | sending => cases arrived <;> simp [Peer.read]
  | closed => cases arrived <;> simp [Peer.read]
  | reset => simp [Peer.read]

/-- The server, the number of connections that clients have made, the clients'
ends of these, and everything each client has sent. -/
structure State where
  loop : PollServer.State
  connected : Nat
  peer : Nat → Peer
  sent : Nat → List Byte

def State.setPeer (s : State) (c : Nat) (p : Peer) : State where
  loop := s.loop
  connected := s.connected
  peer := Function.update s.peer c p
  sent := s.sent

def State.connect (s : State) : State where
  loop := s.loop
  connected := s.connected + 1
  peer := s.peer
  sent := s.sent

def State.send (s : State) (c : Nat) (b : Byte) : State where
  loop := s.loop
  connected := s.connected
  peer := Function.update s.peer c ⟨(s.peer c).arrived ++ [b], (s.peer c).status⟩
  sent := Function.update s.sent c (s.sent c ++ [b])

/-- What is open in an iteration: the descriptor that `accept` returns, if it does not
fail; for each connection how many bytes `read` takes, and after how many `Writen`
fails, if it does. -/
structure Answers where
  accept : Option Int
  read : Nat → Option Nat
  writen : Nat → Option Nat

def Answers.fine (fd : Int) : Answers := ⟨some fd, fun _ => some 0, fun _ => none⟩

/-- What the kernel answers in an iteration: connections are accepted in the
order in which they were made. -/
def State.env (s : State) (a : Answers) : Env where
  revents i :=
    if i = 0 then
      if s.loop.server.kernel.accepted < s.connected then POLLRDNORM else 0
    else
      match s.loop.server.kernel.conn (s.loop.server.client i).fd with
      | some c => (s.peer c).revents
      | none => 0
  accept := a.accept
  read i :=
    match s.loop.server.kernel.conn (s.loop.server.client i).fd with
    | some c => (s.peer c).read (a.read c)
    | none => .error
  writen i :=
    match s.loop.server.kernel.conn (s.loop.server.client i).fd with
    | some c => a.writen c
    | none => none

def State.pass (cfg : Config) (s : State) (e : Env) : State where
  loop := ⟨(PollServer.pass cfg e s.loop.server).server,
    s.loop.log ++ (PollServer.pass cfg e s.loop.server).ops,
    (PollServer.pass cfg e s.loop.server).exited⟩
  connected := s.connected
  peer c := (s.peer c).drop (received c (PollServer.pass cfg e s.loop.server).ops).length
  sent := s.sent

def State.nready (s : State) (a : Answers) : Int :=
  (s.loop.server.poll (s.env a)).nready

inductive Act where
  | connect
  | send (c : Nat) (b : Byte)
  | close (c : Nat)
  | reset (c : Nat)
  | pass (a : Answers)

def State.step (cfg : Config) (s : State) : Act → Option State
  | .connect => some s.connect
  | .send c b =>
      if c < s.connected ∧ (s.peer c).status = .sending then some (s.send c b) else none
  | .close c =>
      if c < s.connected ∧ (s.peer c).status = .sending then
        some (s.setPeer c ⟨(s.peer c).arrived, .closed⟩)
      else none
  | .reset c => if c < s.connected then some (s.setPeer c ⟨[], .reset⟩) else none
  | .pass a =>
      if s.loop.exited = none ∧ Legal cfg s.loop.server (s.env a) ∧ s.nready a ≠ 0 then
        some (s.pass cfg (s.env a))
      else none

def State.start (cfg : Config) (junk : Nat → PollFd) : State where
  loop := ⟨.start cfg junk, [], none⟩
  connected := 0
  peer _ := .start
  sent _ := []

def system (cfg : Config) : System State Act where
  init s := ∃ junk, s = .start cfg junk
  step := State.step cfg

inductive Move (cfg : Config) (s : State) : Act → State → Prop where
  | connect : Move cfg s .connect s.connect
  | send {c : Nat} {b : Byte} (hc : c < s.connected) (hstatus : (s.peer c).status = .sending) :
      Move cfg s (.send c b) (s.send c b)
  | close {c : Nat} (hc : c < s.connected) (hstatus : (s.peer c).status = .sending) :
      Move cfg s (.close c) (s.setPeer c ⟨(s.peer c).arrived, .closed⟩)
  | reset {c : Nat} (hc : c < s.connected) : Move cfg s (.reset c) (s.setPeer c ⟨[], .reset⟩)
  | pass {a : Answers} (hrun : s.loop.exited = none)
      (hlegal : Legal cfg s.loop.server (s.env a)) (hready : s.nready a ≠ 0) :
      Move cfg s (.pass a) (s.pass cfg (s.env a))

variable {cfg : Config} {s t : State}

theorem step_move {l : Act} (h : (system cfg).step s l = some t) : Move cfg s l t := by
  cases l with
  | connect =>
      obtain rfl := Option.some.inj h
      exact .connect
  | send c b =>
      obtain ⟨⟨hc, hstatus⟩, rfl⟩ := guard_eq_some.mp h
      exact .send hc hstatus
  | close c =>
      obtain ⟨⟨hc, hstatus⟩, rfl⟩ := guard_eq_some.mp h
      exact .close hc hstatus
  | reset c =>
      obtain ⟨hc, rfl⟩ := guard_eq_some.mp h
      exact .reset hc
  | pass a =>
      obtain ⟨⟨hrun, hlegal, hready⟩, rfl⟩ := guard_eq_some.mp h
      exact .pass hrun hlegal hready

def toServer (cfg : Config) : Refinement (system cfg) (PollServer.system cfg) :=
  .ofStep State.loop
    (by
      rintro s ⟨junk, rfl⟩
      exact ⟨junk, rfl⟩)
    (by
      intro s l t _ hstep
      cases step_move hstep with
      | connect => exact .inl rfl
      | send => exact .inl rfl
      | close => exact .inl rfl
      | reset => exact .inl rfl
      | @pass a hrun hlegal =>
          refine .inr ⟨s.env a, ?_⟩
          exact if_pos ⟨hrun, hlegal⟩)

theorem loop_inv (h : (system cfg).Reachable s) :
    PollServerTable.Inv cfg s.loop.exited s.loop.server s.loop.log ∧
      EchoOk s.loop.exited s.loop.log :=
  (echoOk_kept cfg).reachable ((toServer cfg).reachable h)

theorem received_append (c : Nat) (l l' : List Op) :
    received c (l ++ l') = received c l ++ received c l' := List.flatMap_append

theorem mem_closes_append {c : Nat} {l l' : List Op} :
    c ∈ closes (l ++ l') ↔ c ∈ closes l ∨ c ∈ closes l' := by
  rw [closes, List.filterMap_append, List.mem_append, ← closes, ← closes]

section Env

variable {a : Answers} {i c : Nat} {log : List Op}

theorem env_holds (hold : Holds cfg s.loop.server i c) :
    (s.env a).revents i = (s.peer c).revents ∧
      (s.env a).read i = (s.peer c).read (a.read c) ∧
      (s.env a).writen i = a.writen c := by
  obtain ⟨sockfd, hi, hc⟩ := hold
  obtain ⟨hpos, -, -, rfl⟩ := slots_eq_some.mp hi
  simp [State.env, hc, Nat.ne_of_gt hpos]

theorem reported_iff (hold : Holds cfg s.loop.server i c) :
    PollServerFaults.Reported (s.env a) i ↔ (s.peer c).Readable := by
  rw [PollServerFaults.Reported, (env_holds hold).1, Peer.revents_and, Peer.revents_ne_zero]

theorem connecting_iff :
    Connecting (s.env a) ↔ s.loop.server.kernel.accepted < s.connected := by
  by_cases h : s.loop.server.kernel.accepted < s.connected
  · simp [Connecting, State.env, h, POLLRDNORM]
  · simp [Connecting, State.env, h]

theorem fails_iff (hold : Holds cfg s.loop.server i c) :
    Fails (s.env a) i ↔
      a.read c = none ∨ ∃ g m, (s.peer c).read (a.read c) = .data g ∧ a.writen c = some m := by
  rw [Fails, (env_holds hold).2.1, (env_holds hold).2.2, Peer.read_error]

theorem pass_peer (h : PollServerTable.Inv cfg none s.loop.server log)
    (hlegal : Legal cfg s.loop.server (s.env a)) (c : Nat) :
    received c (PollServer.pass cfg (s.env a) s.loop.server).ops <+: (s.peer c).arrived ∧
      (c ∈ closes (PollServer.pass cfg (s.env a) s.loop.server).ops →
        (s.peer c).Readable ∧ ((s.peer c).status = .reset ∨ (s.peer c).arrived = [])) := by
  by_cases hold : ∃ i, Holds cfg s.loop.server i c
  · obtain ⟨i, hold⟩ := hold
    obtain ⟨hreceived, hcloses⟩ := pass_connection h hlegal hold
    rw [reported_iff hold] at hcloses
    rw [(env_holds hold).2.1] at hreceived hcloses
    refine ⟨hreceived.trans (Peer.bytesRead_prefix ..), fun hc => ?_⟩
    obtain ⟨hreadable, hends⟩ := hcloses hc
    refine ⟨hreadable, ?_⟩
    cases hk : a.read c with
    | none =>
        rw [hk] at hends
        rcases hends with hbad | hbad <;> cases hbad
    | some k =>
        rw [hk, Peer.read_ends] at hends
        exact hends
  · obtain ⟨hnone, hopen⟩ := received_pass_of_not_holds h hlegal fun i hi => hold ⟨i, hi⟩
    rw [hnone]
    exact ⟨List.nil_prefix, fun hc => absurd hc hopen⟩

end Env

structure Inv (cfg : Config) (s : State) : Prop where
  accepted : s.loop.server.kernel.accepted ≤ s.connected
  account : ∀ c, (s.peer c).status ≠ .reset →
    received c s.loop.log ++ (s.peer c).arrived = s.sent c
  part : ∀ c, received c s.loop.log <+: s.sent c
  reset : ∀ c, (s.peer c).status = .reset → (s.peer c).arrived = []
  closed : ∀ c ∈ closes s.loop.log, (s.peer c).status ≠ .sending ∧ (s.peer c).arrived = []

theorem inv_start (cfg : Config) (junk : Nat → PollFd) : Inv cfg (.start cfg junk) where
  accepted := Nat.le_refl 0
  account _ _ := rfl
  part _ := List.nil_prefix
  reset _ h := nomatch h
  closed _ hc := nomatch hc

theorem Inv.connect (h : Inv cfg s) : Inv cfg s.connect where
  accepted := Nat.le_succ_of_le h.accepted
  account := h.account
  part := h.part
  reset := h.reset
  closed := h.closed

theorem Inv.send (h : Inv cfg s) {c : Nat} (hstatus : (s.peer c).status = .sending) (b : Byte) :
    Inv cfg (s.send c b) := by
  have hne : ∀ {d}, d ≠ c → (s.send c b).peer d = s.peer d ∧ (s.send c b).sent d = s.sent d :=
    fun hd => ⟨Function.update_of_ne hd .., Function.update_of_ne hd ..⟩
  have hpeer : (s.send c b).peer c = ⟨(s.peer c).arrived ++ [b], (s.peer c).status⟩ :=
    Function.update_self ..
  have hsent : (s.send c b).sent c = s.sent c ++ [b] := Function.update_self ..
  refine ⟨h.accepted, ?_, ?_, ?_, ?_⟩
  · intro d hd
    rcases eq_or_ne d c with rfl | hdc
    · rw [hpeer] at hd ⊢
      rw [hsent, ← h.account d hd, List.append_assoc]
      rfl
    · rw [(hne hdc).1] at hd ⊢
      rw [(hne hdc).2]
      exact h.account d hd
  · intro d
    rcases eq_or_ne d c with rfl | hdc
    · rw [hsent]
      exact (h.part d).trans (List.prefix_append ..)
    · rw [(hne hdc).2]
      exact h.part d
  · intro d hd
    rcases eq_or_ne d c with rfl | hdc
    · rw [hpeer] at hd
      exact absurd (hstatus.symm.trans hd) (by decide)
    · rw [(hne hdc).1] at hd ⊢
      exact h.reset d hd
  · intro d hd
    have hdc : d ≠ c := by
      rintro rfl
      exact (h.closed d hd).1 hstatus
    rw [(hne hdc).1]
    exact h.closed d hd

theorem Inv.setPeer (h : Inv cfg s) {c : Nat} {p : Peer}
    (haccount : p.status ≠ .reset → received c s.loop.log ++ p.arrived = s.sent c)
    (hreset : p.status = .reset → p.arrived = [])
    (hclosed : c ∈ closes s.loop.log → p.status ≠ .sending ∧ p.arrived = []) :
    Inv cfg (s.setPeer c p) := by
  have hne : ∀ {d}, d ≠ c → (s.setPeer c p).peer d = s.peer d :=
    fun hd => Function.update_of_ne hd ..
  have hpeer : (s.setPeer c p).peer c = p := Function.update_self ..
  refine ⟨h.accepted, ?_, h.part, ?_, ?_⟩
  · intro d hd
    rcases eq_or_ne d c with rfl | hdc
    · rw [hpeer] at hd ⊢
      exact haccount hd
    · rw [hne hdc] at hd ⊢
      exact h.account d hd
  · intro d hd
    rcases eq_or_ne d c with rfl | hdc
    · rw [hpeer] at hd ⊢
      exact hreset hd
    · rw [hne hdc] at hd ⊢
      exact h.reset d hd
  · intro d hd
    rcases eq_or_ne d c with rfl | hdc
    · rw [hpeer]
      exact hclosed hd
    · rw [hne hdc]
      exact h.closed d hd

theorem Inv.close (h : Inv cfg s) {c : Nat} (hstatus : (s.peer c).status = .sending) :
    Inv cfg (s.setPeer c ⟨(s.peer c).arrived, .closed⟩) := by
  apply h.setPeer
  · intro _
    exact h.account c (by rw [hstatus]; decide)
  · intro hreset
    cases hreset
  · intro hc
    exact absurd hstatus (h.closed c hc).1

theorem Inv.reset_peer (h : Inv cfg s) (c : Nat) : Inv cfg (s.setPeer c ⟨[], .reset⟩) := by
  apply h.setPeer
  · intro hsending
    exact absurd rfl hsending
  · intro _
    rfl
  · intro _
    exact ⟨by decide, rfl⟩

theorem Inv.pass (h : Inv cfg s)
    (hinv : PollServerTable.Inv cfg none s.loop.server s.loop.log) {a : Answers}
    (hlegal : Legal cfg s.loop.server (s.env a)) : Inv cfg (s.pass cfg (s.env a)) := by
  have hpart := fun c => (pass_peer hinv hlegal c).1
  have haccount : ∀ c, (s.peer c).status ≠ .reset →
      received c (s.pass cfg (s.env a)).loop.log ++
        ((s.pass cfg (s.env a)).peer c).arrived = s.sent c := by
    intro c hc
    change received c (s.loop.log ++ _) ++ (s.peer c).arrived.drop _ = s.sent c
    rw [received_append, List.append_assoc, List.prefix_iff_eq_append.mp (hpart c)]
    exact h.account c hc
  constructor
  · change (PollServer.pass cfg (s.env a) s.loop.server).server.kernel.accepted ≤ s.connected
    have hle := h.accepted
    have hpass := accepted_pass_le cfg (s.env a) s.loop.server
    split at hpass
    · rename_i harrival
      rw [arrival_poll (hinv.table rfl), connecting_iff] at harrival
      omega
    · omega
  · exact haccount
  · intro c
    by_cases hc : (s.peer c).status = .reset
    · have hnone := hpart c
      rw [h.reset c hc, List.prefix_nil] at hnone
      change received c (s.loop.log ++ _) <+: s.sent c
      rw [received_append, hnone, List.append_nil]
      exact h.part c
    · rw [State.pass, ← haccount c hc]
      exact List.prefix_append ..
  · intro c hc
    change (s.peer c).arrived.drop _ = []
    rw [h.reset c hc, List.drop_nil]
  · intro c hc
    change (s.peer c).status ≠ .sending ∧ (s.peer c).arrived.drop _ = []
    rcases mem_closes_append.mp hc with hold | hnew
    · obtain ⟨hstatus, harrived⟩ := h.closed c hold
      rw [harrived, List.drop_nil]
      exact ⟨hstatus, rfl⟩
    · obtain ⟨hreadable, hends⟩ := (pass_peer hinv hlegal c).2 hnew
      have harrived : (s.peer c).arrived = [] := hends.elim (h.reset c) id
      rw [harrived, List.drop_nil]
      exact ⟨hreadable.resolve_left (not_not_intro harrived), rfl⟩

theorem reachable_inv (h : (system cfg).Reachable s) : Inv cfg s := by
  refine h.invariant (P := Inv cfg) ?_ ?_
  · rintro s ⟨junk, rfl⟩
    exact inv_start cfg junk
  · intro s l t hreach hs hstep
    cases step_move hstep with
    | connect => exact hs.connect
    | send hc hstatus => exact hs.send hstatus _
    | close hc hstatus => exact hs.close hstatus
    | reset hc => exact hs.reset_peer _
    | pass hrun hlegal hready =>
        have hinv := (loop_inv hreach).1
        rw [hrun] at hinv
        exact hs.pass hinv hlegal

theorem echoed_eq (h : (system cfg).Reachable s) (hrun : s.loop.exited = none) (c : Nat) :
    echoed c s.loop.log = received c s.loop.log := (loop_inv h).2.done hrun c

theorem nready_eq_zero {a : Answers} :
    s.nready a = 0 ↔ ∀ i ≤ s.loop.server.maxi,
      ((s.loop.server.poll (s.env a)).client i).revents = 0 := by
  rw [State.nready, Server.nready, Int.natCast_eq_zero, List.countP_eq_zero]
  constructor
  · intro h i hi
    have hzero := h i (List.mem_range.mpr (Nat.lt_succ_of_le hi))
    simpa using hzero
  · intro h i hi
    have hzero := h i (Nat.le_of_lt_succ (List.mem_range.mp hi))
    simp [hzero]

theorem nready_ne_zero (h : PollServerTable.TableOk cfg s.loop.server) {i c : Nat}
    (hold : Holds cfg s.loop.server i c) (hreadable : (s.peer c).Readable)
    (a : Answers) : s.nready a ≠ 0 := by
  intro hzero
  have hrevents : (s.env a).revents i = (s.peer c).revents := (env_holds hold).1
  obtain ⟨sockfd, hi, -⟩ := hold
  obtain ⟨-, hlt, hfd, rfl⟩ := slots_eq_some.mp hi
  have hle := le_maxi_of_fd h hlt hfd
  have hnone := nready_eq_zero.mp hzero i hle
  rw [poll_revents hle hfd, hrevents] at hnone
  exact (Peer.revents_ne_zero _).mpr hreadable hnone

/-- What ends the server: a client connects while `accept` fails or every entry is
taken, or the read from a client that `Poll` reports fails, or the echo to it does. -/
def Ends (cfg : Config) (s : State) (a : Answers) : Prop :=
  (s.loop.server.kernel.accepted < s.connected ∧
    (a.accept = none ∨ TableFull cfg s.loop.server)) ∨
  ∃ i c, Holds cfg s.loop.server i c ∧ (s.peer c).Readable ∧
    (a.read c = none ∨ ∃ g m, (s.peer c).read (a.read c) = .data g ∧ a.writen c = some m)

/-- Each client gets back a beginning of what it has sent; when `Poll` blocks,
every client has been accepted and answered in full, and those are closed that
have closed their end; and the server ends only in an iteration with a reason. -/
structure Answered (cfg : Config) (s : State) : Prop where
  own : ∀ c, echoed c s.loop.log <+: s.sent c
  blocked : s.loop.exited = none → (∀ a, s.nready a = 0) →
    s.loop.server.kernel.accepted = s.connected ∧
      ∀ c < s.connected,
        ((s.peer c).status ≠ .reset → echoed c s.loop.log = s.sent c) ∧
        (c ∈ closes s.loop.log ↔ (s.peer c).status ≠ .sending)
  ended : ∀ l t, (system cfg).step s l = some t → s.loop.exited = none →
    t.loop.exited ≠ none → ∃ a, l = .pass a ∧ Ends cfg s a

theorem step_ends (h : (system cfg).Reachable s) {l : Act}
    (hstep : (system cfg).step s l = some t) (hrun : s.loop.exited = none)
    (hexit : t.loop.exited ≠ none) : ∃ a, l = .pass a ∧ Ends cfg s a := by
  have hinv := (loop_inv h).1
  rw [hrun] at hinv
  cases step_move hstep with
  | connect => exact absurd hrun hexit
  | send => exact absurd hrun hexit
  | close => exact absurd hrun hexit
  | reset => exact absurd hrun hexit
  | @pass a _ hlegal hready =>
      refine ⟨a, rfl, ?_⟩
      rcases pass_ended hinv hlegal hexit with
        ⟨hconnecting, hreason⟩ | ⟨i, hpos, hlt, hfd, hreported, hfails⟩
      · exact .inl ⟨connecting_iff.mp hconnecting, hreason⟩
      · have hi := slots_eq_some.mpr ⟨hpos, hlt, hfd, rfl⟩
        obtain ⟨c, hc⟩ := Option.ne_none_iff_exists'.mp
          (((hinv.table rfl).tracks.live_iff _).mpr ⟨i, hi⟩)
        have hold : Holds cfg s.loop.server i c := ⟨_, hi, hc⟩
        exact .inr ⟨i, c, hold, (reported_iff hold).mp hreported, (fails_iff hold).mp hfails⟩

theorem reachable_answered (h : (system cfg).Reachable s) : Answered cfg s := by
  obtain ⟨hloop, hecho⟩ := loop_inv h
  have hinv := reachable_inv h
  refine ⟨?_, ?_, fun l t hstep => step_ends h hstep⟩
  · intro c
    exact (hecho.sent s.loop.log List.prefix_rfl c).trans (hinv.part c)
  · intro hrun hblocked
    rw [hrun] at hloop
    have haccepted : s.loop.server.kernel.accepted = s.connected := by
      apply Nat.le_antisymm hinv.accepted
      by_contra hlt
      have hnone := nready_eq_zero.mp (hblocked (.fine 0)) 0 (Nat.zero_le _)
      have hconnecting : Connecting (s.env (.fine 0)) ↔
          s.loop.server.kernel.accepted < s.connected := connecting_iff
      rw [← arrival_poll (hloop.table rfl), Arrival, hnone] at hconnecting
      exact hconnecting.mpr (Nat.not_le.mp hlt) (by simp)
    refine ⟨haccepted, ?_⟩
    intro c hc
    by_cases hclosed : c ∈ closes s.loop.log
    · obtain ⟨hstatus, harrived⟩ := hinv.closed c hclosed
      refine ⟨fun hreset => ?_, iff_of_true hclosed hstatus⟩
      rw [echoed_eq h hrun, ← hinv.account c hreset, harrived, List.append_nil]
    · obtain ⟨i, hold⟩ := holds_of_open hloop (haccepted ▸ hc) hclosed
      have hquiet : ¬(s.peer c).Readable := fun hreadable =>
        nready_ne_zero (hloop.table rfl) hold hreadable (.fine 0) (hblocked _)
      obtain ⟨harrived, hstatus⟩ := not_or.mp hquiet
      refine ⟨fun hreset => ?_, iff_of_false hclosed hstatus⟩
      rw [echoed_eq h hrun, ← hinv.account c hreset, not_not.mp harrived, List.append_nil]

theorem reachable_answered_two :
    ∃ s : State, Answered small s ∧ echoed 0 s.loop.log = [104] ∧ closes s.loop.log = [0] := by
  have hmap : ((system small).run (.start small fun _ => ⟨0, 0, 0⟩)
      [.connect, .pass (.fine 4), .send 0 104, .close 0, .connect, .pass (.fine 5),
        .pass (.fine 6)]).map
      (fun s => (echoed 0 s.loop.log, closes s.loop.log)) = some ([104], [0]) := by decide
  obtain ⟨s, hrun, hfacts⟩ := Option.map_eq_some_iff.mp hmap
  rw [Prod.mk.injEq] at hfacts
  have hreach : (system small).Reachable s := ⟨_, _, ⟨_, rfl⟩, hrun⟩
  exact ⟨s, reachable_answered hreach, hfacts⟩

end MyUnp.PollServerClients
