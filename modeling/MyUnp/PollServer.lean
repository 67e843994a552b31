import MyUnp.SlotTable
import MyUnp.TransitionSystem
import MyUnp.Unp

/-!
`main` of `tcpsrvpoll01.c`: the echo server that serves all its clients from one
process with `poll`.
-/

namespace MyUnp.PollServer

open MyUnp.SlotTable
open MyUnp.TransitionSystem
open MyUnp.Unp

def POLLRDNORM : BitVec 16 := 0x0040

def POLLERR : BitVec 16 := 0x0008

structure PollFd where
  fd : Int
  events : BitVec 16
  revents : BitVec 16

structure Config where
  OPEN_MAX : Nat
  listenfd : Int
  room : 0 < OPEN_MAX
  listening : 0 ≤ listenfd

/-- The open connections of the process: each accepted connection has a number
of its own, however often its descriptor has been in use before. -/
structure Kernel where
  conn : Int → Option Nat
  accepted : Nat

def Kernel.start : Kernel := ⟨fun _ => none, 0⟩

def Kernel.accept (k : Kernel) (fd : Int) : Kernel :=
  ⟨Function.update k.conn fd (some k.accepted), k.accepted + 1⟩

def Kernel.close (k : Kernel) (fd : Int) : Kernel :=
  { k with conn := Function.update k.conn fd none }

structure Server where
  client : Nat → PollFd
  maxi : Nat
  kernel : Kernel

def Server.start (cfg : Config) (junk : Nat → PollFd) : Server where
  client i :=
    if i = 0 then { junk i with fd := cfg.listenfd, events := POLLRDNORM }
    else { junk i with fd := -1 }
  maxi := 0
  kernel := .start

inductive ReadResult where
  | data (g : Segment)
  | eof
  | reset
  | error

/-- What the kernel answers in one iteration of the loop: `revents` as `poll`
would set it for an open descriptor, the descriptor `accept` returns if it does
not fail, the result of `read` for each slot, and after how many bytes `Writen`
fails, if it does. -/
structure Env where
  revents : Nat → BitVec 16
  accept : Option Int
  read : Nat → ReadResult
  writen : Nat → Option Nat

def Legal (cfg : Config) (s : Server) (e : Env) : Prop :=
  match e.accept with
  | none => True
  | some fd => 0 ≤ fd ∧ fd ≠ cfg.listenfd ∧ s.kernel.conn fd = none

instance (cfg : Config) (s : Server) (e : Env) : Decidable (Legal cfg s e) := by
  unfold Legal
  cases e.accept with
  | none => exact inferInstanceAs (Decidable True)
  | some fd => exact inferInstanceAs (Decidable (_ ∧ _ ∧ _))

inductive Op where
  | accept (fd : Int) (conn : Nat)
  | read (slot : Nat) (fd : Int) (conn : Option Nat) (r : ReadResult)
  | write (slot : Nat) (fd : Int) (conn : Option Nat) (bytes : List Byte)
  | close (slot : Nat) (fd : Int) (conn : Option Nat)

inductive Exit where
  | acceptError
  | tooManyClients
  | readError
  | writenError
  deriving DecidableEq

structure Pass where
  ops : List Op
  server : Server
  exited : Option Exit

def Pass.stay (s : Server) : Pass := ⟨[], s, none⟩

def Pass.andThen (p : Pass) (f : Server → Pass) : Pass :=
  match p.exited with
  | some _ => p
  | none => ⟨p.ops ++ (f p.server).ops, (f p.server).server, (f p.server).exited⟩

/-- `Poll(client, maxi+1, INFTIM)` writes `revents` of the slots it is given. -/
def Server.poll (s : Server) (e : Env) : Server where
  client i :=
    if i ≤ s.maxi then
      { s.client i with
        revents := if (s.client i).fd < 0 then 0 else e.revents i }
    else s.client i
  maxi := s.maxi
  kernel := s.kernel

def Server.nready (s : Server) : Int :=
  (List.range (s.maxi + 1)).countP fun i => (s.client i).revents != 0

def Server.setFd (s : Server) (i : Nat) (fd : Int) : Server :=
  { s with client := Function.update s.client i { s.client i with fd := fd } }

def Server.drop (s : Server) (i : Nat) : Server where
  client := (s.setFd i (-1)).client
  maxi := s.maxi
  kernel := s.kernel.close (s.client i).fd

def Server.add (s : Server) (i : Nat) (connfd : Int) : Server where
  client := Function.update s.client i
    { s.client i with fd := connfd, events := POLLRDNORM }
  maxi := if i > s.maxi then i else s.maxi
  kernel := s.kernel.accept connfd

def Server.freeSlot (cfg : Config) (s : Server) : Nat :=
  firstFrom (fun i => decide ((s.client i).fd < 0)) (cfg.OPEN_MAX - 1) 1

def acceptClient (cfg : Config) (e : Env) (s : Server) : Pass :=
  match e.accept with
  | none => ⟨[], s, some .acceptError⟩
  | some connfd =>
      let i := s.freeSlot cfg
      let op := Op.accept connfd s.kernel.accepted
      if i = cfg.OPEN_MAX then
        ⟨[op], { s with kernel := s.kernel.accept connfd }, some .tooManyClients⟩
      else ⟨[op], s.add i connfd, none⟩

/-- `client[i].revents & (POLLRDNORM | POLLERR)` -/
def PollFd.ready (p : PollFd) : Bool := p.revents &&& (POLLRDNORM ||| POLLERR) != 0

def serve (e : Env) (s : Server) (i : Nat) : Pass :=
  let sockfd := (s.client i).fd
  let conn := s.kernel.conn sockfd
  let got := Op.read i sockfd conn (e.read i)
  match e.read i with
  | .error => ⟨[got], s, some .readError⟩
  | .reset => ⟨[got, .close i sockfd conn], s.drop i, none⟩
  | .eof => ⟨[got, .close i sockfd conn], s.drop i, none⟩
  | .data g =>
      match e.writen i with
      | none => ⟨[got, .write i sockfd conn g.bytes], s, none⟩
      | some k =>
          ⟨[got, .write i sockfd conn (g.bytes.take k)], s, some .writenError⟩

def scan (e : Env) : List Nat → Server → Int → Pass
  | [], s, _ => .stay s
  | i :: slots, s, nready =>
      if (s.client i).fd < 0 then scan e slots s nready
      else if (s.client i).ready then
        (serve e s i).andThen fun s =>
          if nready - 1 ≤ 0 then .stay s else scan e slots s (nready - 1)
      else scan e slots s nready

/-- `for (i = 1; i < maxi; i++)` -/
def Server.scanned (s : Server) : List Nat := List.range' 1 (s.maxi - 1)

def handle (cfg : Config) (e : Env) (s : Server) (nready : Int) : Pass :=
  if (s.client 0).revents &&& POLLRDNORM != 0 then
    (acceptClient cfg e s).andThen fun s =>
      if nready - 1 ≤ 0 then .stay s else scan e s.scanned s (nready - 1)
  else scan e s.scanned s nready

def pass (cfg : Config) (e : Env) (s : Server) : Pass :=
  handle cfg e (s.poll e) (s.poll e).nready

structure State where
  server : Server
  log : List Op
  exited : Option Exit

def State.step (cfg : Config) (s : State) (e : Env) : Option State :=
  if s.exited = none ∧ Legal cfg s.server e then
    some ⟨(pass cfg e s.server).server, s.log ++ (pass cfg e s.server).ops,
      (pass cfg e s.server).exited⟩
  else none

def system (cfg : Config) : System State Env where
  init s := ∃ junk, s = ⟨.start cfg junk, [], none⟩
  step := State.step cfg

theorem step_eq_some {cfg : Config} {s t : State} {e : Env}
    (h : (system cfg).step s e = some t) :
    s.exited = none ∧ Legal cfg s.server e ∧
      t = ⟨(pass cfg e s.server).server, s.log ++ (pass cfg e s.server).ops,
        (pass cfg e s.server).exited⟩ := by
  obtain ⟨⟨hrun, hlegal⟩, rfl⟩ := guard_eq_some.mp h
  exact ⟨hrun, hlegal, rfl⟩

end MyUnp.PollServer
