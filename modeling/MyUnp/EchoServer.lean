import MyUnp.Fifo
import MyUnp.Unp

namespace MyUnp.EchoServer

open MyUnp.TransitionSystem
open MyUnp.Fifo
open MyUnp.Unp

/-- Where the serving process is. `writen rest` is inside `Writen` with `rest`
still to be copied to the socket. -/
inductive Server where
  | reading
  | writen (rest : List Byte)
  | returned
  | exited
  deriving DecidableEq

def Server.held : Server → List Byte
  | .writen rest => rest
  | _ => []

@[simp] theorem Server.held_reading : Server.reading.held = [] := rfl

@[simp] theorem Server.held_writen (rest : List Byte) :
    (Server.writen rest).held = rest := rfl

@[simp] theorem Server.held_returned : Server.returned.held = [] := rfl

@[simp] theorem Server.held_exited : Server.exited.held = [] := rfl

/-- One connection: `request` runs from client to server, `reply` back. -/
structure Link (C₁ C₂ : Nat) where
  request : Channel Byte C₁
  reply : Channel Byte C₂
  server : Server
  deriving DecidableEq

def Link.start (C₁ C₂ : Nat) : Link C₁ C₂ :=
  ⟨Channel.empty, Channel.empty, .reading⟩

inductive ServerAct where
  | read (k : Nat)
  | readEof
  | readEintr
  | write
  | writenReturn
  | exit
  deriving DecidableEq

variable {C₁ C₂ : Nat}

/-- `str_echo` and the `exit(0)` of the child that called it. `Writen` copies
its bytes one by one as room appears; short counts of the `write` calls inside
it only continue its loop. -/
def Link.serverStep (R : ReadRule) (l : Link C₁ C₂) :
    ServerAct → Option (Link C₁ C₂)
  | .read k =>
      if l.server = .reading then
        (l.request.recv R MAXLINE k).map fun r =>
          { l with request := r.2, server := .writen r.1 }
      else none
  | .readEof =>
      if l.server = .reading ∧ l.request.AtEof then
        some { l with server := .returned }
      else none
  -- n < 0 with EINTR: `goto again`
  | .readEintr => if l.server = .reading then some l else none
  | .write =>
      match l.server with
      | .writen (b :: rest) =>
          (l.reply.put b).map fun c => { l with reply := c, server := .writen rest }
      | _ => none
  | .writenReturn =>
      if l.server = .writen [] then some { l with server := .reading } else none
  | .exit =>
      if l.server = .returned then
        some { l with reply := l.reply.shut, server := .exited }
      else none

inductive Link.ServerMove (R : ReadRule) (l : Link C₁ C₂) :
    ServerAct → Link C₁ C₂ → Prop where
  | read {k : Nat} {buf : List Byte} {c : Channel Byte C₁}
      (hserver : l.server = .reading)
      (hrecv : l.request.recv R MAXLINE k = some (buf, c)) :
      ServerMove R l (.read k) { l with request := c, server := .writen buf }
  | readEof (hserver : l.server = .reading) (heof : l.request.AtEof) :
      ServerMove R l .readEof { l with server := .returned }
  | readEintr (hserver : l.server = .reading) : ServerMove R l .readEintr l
  | write {b : Byte} {rest : List Byte} {c : Channel Byte C₂}
      (hserver : l.server = .writen (b :: rest)) (hput : l.reply.put b = some c) :
      ServerMove R l .write { l with reply := c, server := .writen rest }
  | writenReturn (hserver : l.server = .writen []) :
      ServerMove R l .writenReturn { l with server := .reading }
  | exit (hserver : l.server = .returned) :
      ServerMove R l .exit { l with reply := l.reply.shut, server := .exited }

theorem Link.serverStep_move {R : ReadRule} {l m : Link C₁ C₂} {a : ServerAct}
    (h : l.serverStep R a = some m) : l.ServerMove R a m := by
  cases a with
  | read k =>
      obtain ⟨hserver, h⟩ := Option.ite_none_right_eq_some.mp h
      obtain ⟨⟨buf, c⟩, hrecv, rfl⟩ := Option.map_eq_some_iff.mp h
      exact .read hserver hrecv
  | readEof =>
      obtain ⟨⟨hserver, heof⟩, rfl⟩ := guard_eq_some.mp h
      exact .readEof hserver heof
  | readEintr =>
      obtain ⟨hserver, rfl⟩ := guard_eq_some.mp h
      exact .readEintr hserver
  | write =>
      simp only [serverStep] at h
      split at h
      · rename_i b rest hserver
        obtain ⟨c, hput, rfl⟩ := Option.map_eq_some_iff.mp h
        exact .write hserver hput
      · simp at h
  | writenReturn =>
      obtain ⟨hserver, rfl⟩ := guard_eq_some.mp h
      exact .writenReturn hserver
  | exit =>
      obtain ⟨hserver, rfl⟩ := guard_eq_some.mp h
      exact .exit hserver

def Link.inFlight (l : Link C₁ C₂) : List Byte :=
  l.reply.buf ++ l.server.held ++ l.request.buf

theorem Link.serverStep_inFlight {R : ReadRule} {l m : Link C₁ C₂}
    {a : ServerAct} (h : l.serverStep R a = some m) : m.inFlight = l.inFlight := by
  cases serverStep_move h with
  | read hserver hrecv =>
      obtain ⟨-, -, happ, -⟩ := Channel.recv_eq_some hrecv
      simp [inFlight, hserver, ← happ]
  | readEof hserver heof => simp [inFlight, hserver]
  | readEintr hserver => rfl
  | write hserver hput =>
      obtain ⟨-, -, hbuf, -⟩ := Channel.put_eq_some hput
      simp [inFlight, hserver, hbuf]
  | writenReturn hserver => simp [inFlight, hserver]
  | exit hserver => simp [inFlight, hserver]

theorem Link.serverStep_request_closed {R : ReadRule} {l m : Link C₁ C₂}
    {a : ServerAct} (h : l.serverStep R a = some m) :
    m.request.closed = l.request.closed := by
  cases serverStep_move h with
  | read hserver hrecv =>
      obtain ⟨-, -, -, hclosed⟩ := Channel.recv_eq_some hrecv
      exact hclosed
  | _ => rfl

structure Link.Ok (l : Link C₁ C₂) : Prop where
  held_le : l.server.held.length ≤ MAXLINE
  closed_iff : l.reply.closed = true ↔ l.server = .exited
  atEof : l.server = .returned ∨ l.server = .exited → l.request.AtEof

theorem Link.start_ok : (Link.start C₁ C₂).Ok :=
  ⟨Nat.zero_le _, by simp [start], by simp [start]⟩

theorem Link.Ok.serverStep {R : ReadRule} {l m : Link C₁ C₂} {a : ServerAct}
    (hl : l.Ok) (h : l.serverStep R a = some m) : m.Ok := by
  have hopen : l.server ≠ .exited → l.reply.closed = false := fun hne => by
    simpa using mt hl.closed_iff.mp hne
  cases serverStep_move h with
  | read hserver hrecv =>
      have hlen := Channel.recv_length_le hrecv
      exact ⟨hlen, by simp [hopen, hserver], by simp⟩
  | readEof hserver heof =>
      exact ⟨Nat.zero_le _, by simp [hopen, hserver], fun _ => heof⟩
  | readEintr hserver => exact hl
  | write hserver hput =>
      obtain ⟨hopen, -, -, hclosed⟩ := Channel.put_eq_some hput
      have hlen := hl.held_le
      rw [hserver, Server.held_writen, List.length_cons] at hlen
      refine ⟨Nat.le_of_succ_le hlen, ?_, by simp⟩
      simp [hclosed, hopen]
  | writenReturn hserver =>
      exact ⟨Nat.zero_le _, by simp [hopen, hserver], by simp⟩
  | exit hserver =>
      exact ⟨Nat.zero_le _, by simp, fun _ => hl.atEof (.inl hserver)⟩

section ClientEnd

def Link.send (l : Link C₁ C₂) (b : Byte) : Option (Link C₁ C₂) :=
  (l.request.put b).map fun c => { l with request := c }

def Link.receive (R : ReadRule) (n k : Nat) (l : Link C₁ C₂) :
    Option (List Byte × Link C₁ C₂) :=
  (l.reply.recv R n k).map fun r => (r.1, { l with reply := r.2 })

def Link.shutdown (l : Link C₁ C₂) : Link C₁ C₂ :=
  { l with request := l.request.shut }

theorem Link.send_eq_some {l m : Link C₁ C₂} {b : Byte}
    (h : l.send b = some m) :
    l.request.closed = false ∧ l.request.buf.length < C₁ ∧
      m.request.buf = l.request.buf ++ [b] ∧ m.request.closed = false ∧
      m.reply = l.reply ∧ m.server = l.server := by
  obtain ⟨c, hput, rfl⟩ := Option.map_eq_some_iff.mp h
  obtain ⟨hopen, hroom, hbuf, hclosed⟩ := Channel.put_eq_some hput
  exact ⟨hopen, hroom, hbuf, hclosed.trans hopen, rfl, rfl⟩

theorem Link.receive_eq_some {R : ReadRule} {n k : Nat} {l m : Link C₁ C₂}
    {xs : List Byte} (h : l.receive R n k = some (xs, m)) :
    R.allows n l.reply.buf.length k = true ∧ xs.length = k ∧
      xs ++ m.reply.buf = l.reply.buf ∧ m.reply.closed = l.reply.closed ∧
      m.request = l.request ∧ m.server = l.server := by
  obtain ⟨⟨ys, c⟩, hrecv, heq⟩ := Option.map_eq_some_iff.mp h
  obtain ⟨rfl, rfl⟩ := Prod.mk.inj heq
  obtain ⟨hallow, hlen, happ, hclosed⟩ := Channel.recv_eq_some hrecv
  exact ⟨hallow, hlen, happ, hclosed, rfl, rfl⟩

theorem Link.send_inFlight {l m : Link C₁ C₂} {b : Byte}
    (h : l.send b = some m) : m.inFlight = l.inFlight ++ [b] := by
  obtain ⟨-, -, hbuf, -, hreply, hserver⟩ := send_eq_some h
  simp [inFlight, hbuf, hreply, hserver]

theorem Link.receive_inFlight {R : ReadRule} {n k : Nat} {l m : Link C₁ C₂}
    {xs : List Byte} (h : l.receive R n k = some (xs, m)) :
    xs ++ m.inFlight = l.inFlight := by
  obtain ⟨-, -, happ, -, hrequest, hserver⟩ := receive_eq_some h
  simp [inFlight, ← happ, hrequest, hserver]

theorem Link.Ok.send {l m : Link C₁ C₂} {b : Byte} (hl : l.Ok)
    (h : l.send b = some m) : m.Ok := by
  obtain ⟨hopen, -, -, -, hreply, hserver⟩ := send_eq_some h
  refine ⟨hserver ▸ hl.held_le, by rw [hreply, hserver]; exact hl.closed_iff, ?_⟩
  intro hdone
  rw [hserver] at hdone
  have := (hl.atEof hdone).2
  simp [hopen] at this

theorem Link.Ok.receive {R : ReadRule} {n k : Nat} {l m : Link C₁ C₂}
    {xs : List Byte} (hl : l.Ok) (h : l.receive R n k = some (xs, m)) : m.Ok := by
  obtain ⟨-, -, -, hclosed, hrequest, hserver⟩ := receive_eq_some h
  refine ⟨hserver ▸ hl.held_le, by rw [hclosed, hserver]; exact hl.closed_iff, ?_⟩
  rw [hserver, hrequest]
  exact hl.atEof

theorem Link.Ok.shutdown {l : Link C₁ C₂} (hl : l.Ok) : l.shutdown.Ok :=
  ⟨hl.held_le, hl.closed_iff, fun hdone => ⟨(hl.atEof hdone).1, rfl⟩⟩

@[simp] theorem Link.shutdown_inFlight (l : Link C₁ C₂) :
    l.shutdown.inFlight = l.inFlight := rfl

theorem Link.Ok.reply_atEof {l : Link C₁ C₂} (hl : l.Ok)
    (heof : l.reply.AtEof) : l.inFlight = [] ∧ l.request.closed = true := by
  have hexit := hl.closed_iff.mp heof.2
  have hreq := hl.atEof (.inr hexit)
  exact ⟨by simp [inFlight, heof.1, hexit, hreq.1], hreq.2⟩

end ClientEnd

end MyUnp.EchoServer
