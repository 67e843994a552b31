import MyUnp.EchoServer

/-!
`str_cli` of `strcliselect02.c` at one end of a connection whose other end is
served by `str_echo`.
-/

namespace MyUnp.SelectClient

open MyUnp.TransitionSystem
open MyUnp.Fifo
open MyUnp.Unp
open MyUnp.EchoServer

structure FdSet where
  fp : Bool
  sockfd : Bool
  deriving DecidableEq

/-- Program points of the client, one for each system call and test. -/
inductive Pc where
  | head
  | select
  | testSock
  | write (buf : List Byte)
  | testInput
  | shutdown
  | writen (rest : List Byte)
  | returned
  | errQuit
  deriving DecidableEq

def Pc.unwritten : Pc → List Byte
  | .write buf => buf
  | _ => []

def Pc.unsent : Pc → List Byte
  | .writen rest => rest
  | _ => []

/-- `input` is what `fp` still holds. `consumed` and `sent` record what was
read from `fp` and what was copied to the socket; no step looks at them. -/
structure State (C₁ C₂ : Nat) where
  pc : Pc
  stdineof : Bool
  rset : FdSet
  input : List Byte
  consumed : List Byte
  sent : List Byte
  stdout : List Byte
  link : Link C₁ C₂
  deriving DecidableEq

inductive Act where
  | arm
  | select (fpReady : Bool)
  | skipSock
  | readSock (k : Nat)
  | readSockEof
  | write
  | skipInput
  | readInput (k : Nat)
  | readInputEof
  | shutdown
  | send
  | writenReturn
  | server (a : ServerAct)
  deriving DecidableEq

variable {C₁ C₂ : Nat}

def State.start (input : List Byte) : State C₁ C₂ where
  pc := .head
  stdineof := false
  rset := ⟨false, false⟩
  input := input
  consumed := []
  sent := []
  stdout := []
  link := Link.start C₁ C₂

def State.ready (s : State C₁ C₂) (fpReady : Bool) : FdSet where
  fp := s.rset.fp && fpReady
  sockfd := s.rset.sockfd &&
    (!s.link.reply.buf.isEmpty || s.link.reply.closed)

/-- One step of the client or of the server. `R` is how many bytes a `read` on
the connection returns. -/
def State.step (R : ReadRule) (s : State C₁ C₂) : Act → Option (State C₁ C₂)
  | .arm =>
      if s.pc = .head then
        some { s with pc := .select, rset := ⟨s.rset.fp || !s.stdineof, true⟩ }
      else none
  -- blocks until some armed descriptor is ready
  | .select fpReady =>
      if s.pc = .select ∧
          ((s.ready fpReady).fp = true ∨ (s.ready fpReady).sockfd = true) then
        some { s with pc := .testSock, rset := s.ready fpReady }
      else none
  | .skipSock =>
      if s.pc = .testSock ∧ s.rset.sockfd = false then
        some { s with pc := .testInput }
      else none
  | .readSock k =>
      if s.pc = .testSock ∧ s.rset.sockfd = true then
        (s.link.receive R MAXLINE k).map fun r =>
          { s with pc := .write r.1, link := r.2 }
      else none
  | .readSockEof =>
      if s.pc = .testSock ∧ s.rset.sockfd = true ∧ s.link.reply.AtEof then
        some { s with pc := if s.stdineof then .returned else .errQuit }
      else none
  | .write =>
      match s.pc with
      | .write buf => some { s with pc := .testInput, stdout := s.stdout ++ buf }
      | _ => none
  | .skipInput =>
      if s.pc = .testInput ∧ s.rset.fp = false then
        some { s with pc := .head }
      else none
  | .readInput k =>
      if s.pc = .testInput ∧ s.rset.fp = true ∧
          ReadRule.short.allows MAXLINE s.input.length k = true then
        some { s with
          pc := .writen (s.input.take k)
          consumed := s.consumed ++ s.input.take k
          input := s.input.drop k }
      else none
  | .readInputEof =>
      if s.pc = .testInput ∧ s.rset.fp = true ∧ s.input = [] then
        some { s with pc := .shutdown, stdineof := true }
      else none
  | .shutdown =>
      if s.pc = .shutdown then
        some { s with
          pc := .head
          rset := { s.rset with fp := false }
          link := s.link.shutdown }
      else none
  | .send =>
      match s.pc with
      | .writen (b :: rest) =>
          (s.link.send b).map fun l =>
            { s with pc := .writen rest, sent := s.sent ++ [b], link := l }
      | _ => none
  | .writenReturn =>
      if s.pc = .writen [] then some { s with pc := .head } else none
  | .server a => (s.link.serverStep R a).map fun l => { s with link := l }

def system (C₁ C₂ : Nat) (R : ReadRule) (input : List Byte) :
    System (State C₁ C₂) Act where
  init s := s = State.start input
  step := State.step R

inductive State.Move (R : ReadRule) (s : State C₁ C₂) :
    Act → State C₁ C₂ → Prop where
  | arm (hpc : s.pc = .head) :
      Move R s .arm
        { s with pc := .select, rset := ⟨s.rset.fp || !s.stdineof, true⟩ }
  | select {fpReady : Bool} (hpc : s.pc = .select) :
      Move R s (.select fpReady)
        { s with pc := .testSock, rset := s.ready fpReady }
  | skipSock (hpc : s.pc = .testSock) (hset : s.rset.sockfd = false) :
      Move R s .skipSock { s with pc := .testInput }
  | readSock {k : Nat} {buf : List Byte} {l : Link C₁ C₂}
      (hpc : s.pc = .testSock)
      (hrecv : s.link.receive R MAXLINE k = some (buf, l)) :
      Move R s (.readSock k) { s with pc := .write buf, link := l }
  | readSockEof (hpc : s.pc = .testSock) (heof : s.link.reply.AtEof) :
      Move R s .readSockEof
        { s with pc := if s.stdineof then .returned else .errQuit }
  | write {buf : List Byte} (hpc : s.pc = .write buf) :
      Move R s .write { s with pc := .testInput, stdout := s.stdout ++ buf }
  | skipInput (hpc : s.pc = .testInput) :
      Move R s .skipInput { s with pc := .head }
  | readInput {k : Nat} (hpc : s.pc = .testInput) (hset : s.rset.fp = true)
      (hk : k ≤ MAXLINE) :
      Move R s (.readInput k)
        { s with
          pc := .writen (s.input.take k)
          consumed := s.consumed ++ s.input.take k
          input := s.input.drop k }
  | readInputEof (hpc : s.pc = .testInput) (hset : s.rset.fp = true)
      (hinput : s.input = []) :
      Move R s .readInputEof { s with pc := .shutdown, stdineof := true }
  | shutdown (hpc : s.pc = .shutdown) :
      Move R s .shutdown
        { s with
          pc := .head
          rset := { s.rset with fp := false }
          link := s.link.shutdown }
  | send {b : Byte} {rest : List Byte} {l : Link C₁ C₂}
      (hpc : s.pc = .writen (b :: rest)) (hsend : s.link.send b = some l) :
      Move R s .send
        { s with pc := .writen rest, sent := s.sent ++ [b], link := l }
  | writenReturn (hpc : s.pc = .writen []) :
      Move R s .writenReturn { s with pc := .head }
  | server {a : ServerAct} {l : Link C₁ C₂}
      (hserver : s.link.serverStep R a = some l) :
      Move R s (.server a) { s with link := l }

theorem State.step_move {R : ReadRule} {s t : State C₁ C₂} {a : Act}
    (h : s.step R a = some t) : s.Move R a t := by
  cases a with
  | arm =>
      obtain ⟨hpc, rfl⟩ := guard_eq_some.mp h
      exact .arm hpc
  | select fpReady =>
      obtain ⟨⟨hpc, -⟩, rfl⟩ := guard_eq_some.mp h
      exact .select hpc
  | skipSock =>
      obtain ⟨⟨hpc, hset⟩, rfl⟩ := guard_eq_some.mp h
      exact .skipSock hpc hset
  | readSock k =>
      obtain ⟨⟨hpc, -⟩, h⟩ := Option.ite_none_right_eq_some.mp h
      obtain ⟨⟨buf, l⟩, hrecv, rfl⟩ := Option.map_eq_some_iff.mp h
      exact .readSock hpc hrecv
  | readSockEof =>
      obtain ⟨⟨hpc, -, heof⟩, rfl⟩ := guard_eq_some.mp h
      exact .readSockEof hpc heof
  | write =>
      simp only [step] at h
      split at h
      · rename_i buf hpc
        obtain rfl := Option.some.inj h
        exact .write hpc
      · simp at h
  | skipInput =>
      obtain ⟨⟨hpc, -⟩, rfl⟩ := guard_eq_some.mp h
      exact .skipInput hpc
  | readInput k =>
      obtain ⟨⟨hpc, hset, hk⟩, rfl⟩ := guard_eq_some.mp h
      exact .readInput hpc hset (ReadRule.short.le_asked hk)
  | readInputEof =>
      obtain ⟨⟨hpc, hset, hinput⟩, rfl⟩ := guard_eq_some.mp h
      exact .readInputEof hpc hset hinput
  | shutdown =>
      obtain ⟨hpc, rfl⟩ := guard_eq_some.mp h
      exact .shutdown hpc
  | send =>
      simp only [step] at h
      split at h
      · rename_i b rest hpc
        obtain ⟨l, hsend, rfl⟩ := Option.map_eq_some_iff.mp h
        exact .send hpc hsend
      · simp at h
  | writenReturn =>
      obtain ⟨hpc, rfl⟩ := guard_eq_some.mp h
      exact .writenReturn hpc
  | server a =>
      obtain ⟨l, hserver, rfl⟩ := Option.map_eq_some_iff.mp h
      exact .server hserver

end MyUnp.SelectClient
