import MyUnp.SelectClient
import MyUnp.StopAndWaitSync

/-!
`str_cli` of `strcliselect01.c`, with the two buffers that `select` does not
see: stdio's behind `Fgets` and the static one of `my_read` behind `Readline`.
The other end of the connection is served by `str_echo`.
-/

namespace MyUnp.SelectLineClient

open MyUnp.TransitionSystem
open MyUnp.Fifo
open MyUnp.LinePieces
open MyUnp.Unp
open MyUnp.EchoServer
open MyUnp.Readline
open MyUnp.SelectClient (FdSet)

/-- Program points of the client. `readline acc` and `fgets acc` are inside
`Readline` and `Fgets` with `acc` stored so far. -/
inductive Pc where
  | head
  | select
  | testSock
  | readline (acc : List Byte)
  | fputs (line : List Byte)
  | testInput
  | fgets (acc : List Byte)
  | writen (rest : List Byte)
  | returned
  | errQuit
  deriving DecidableEq

/-- `stdio` is what stdio has read from `fileno(fp)` and not handed out.
`arrived` waits on that descriptor and `coming` is still to be typed, or is the
rest of the file; `ended` says that a read finds the end. `lines` records what
the calls of `Fgets` stored; no step looks at it. -/
structure State (C₁ C₂ : Nat) where
  pc : Pc
  rset : FdSet
  readBuf : ReadBuf
  stdio : List Byte
  arrived : List Byte
  coming : List Byte
  ended : Bool
  lines : List (List Byte)
  stdout : List Byte
  link : Link C₁ C₂
  deriving DecidableEq

inductive Act where
  | arrive (k : Nat)
  | hangUp
  | arm
  | select
  | testSock
  | fill (k : Nat)
  | fillEintr
  | fillEof
  | byte
  | fputs
  | testInput
  | stdioFill (k : Nat)
  | stdioEof
  | stdioByte
  | send
  | writenReturn
  | server (a : ServerAct)
  deriving DecidableEq

variable {C₁ C₂ : Nat}

def State.start (input : List Byte) : State C₁ C₂ where
  pc := .head
  rset := ⟨false, false⟩
  readBuf := .empty
  stdio := []
  arrived := []
  coming := input
  ended := false
  lines := []
  stdout := []
  link := Link.start C₁ C₂

/-- What `select` finds: it looks at the two descriptors only. -/
def State.ready (s : State C₁ C₂) : FdSet where
  fp := !s.arrived.isEmpty || s.ended
  sockfd := !s.link.reply.buf.isEmpty || s.link.reply.closed

/-- The program blocks in `Select`: neither descriptor is readable. -/
def Blocked (s : State C₁ C₂) : Prop :=
  s.pc = .select ∧ s.ready = ⟨false, false⟩

def State.gotLine (s : State C₁ C₂) (line : List Byte) : State C₁ C₂ :=
  { s with pc := .writen (cString line), lines := s.lines ++ [line] }

/-- One step of the client, of its input or of the server. `R` is how many
bytes a `read` on the connection returns and `B` the size of stdio's buffer. -/
def State.step (R : ReadRule) (B : Nat) (s : State C₁ C₂) :
    Act → Option (State C₁ C₂)
  | .arrive k =>
      if k ≤ s.coming.length then
        some { s with
          arrived := s.arrived ++ s.coming.take k
          coming := s.coming.drop k }
      else none
  | .hangUp => if s.coming = [] then some { s with ended := true } else none
  | .arm =>
      if s.pc = .head then some { s with pc := .select, rset := ⟨true, true⟩ }
      else none
  | .select =>
      if s.pc = .select ∧ s.ready ≠ ⟨false, false⟩ then
        some { s with pc := .testSock, rset := s.ready }
      else none
  | .testSock =>
      if s.pc = .testSock then
        some { s with pc := if s.rset.sockfd then .readline [] else .testInput }
      else none
  -- my_read with read_cnt <= 0: `read(fd, read_buf, sizeof(read_buf))`
  | .fill k =>
      match s.pc with
      | .readline _ =>
          if s.readBuf.unread = [] then
            (s.link.receive R MAXLINE k).map fun r =>
              { s with readBuf := ⟨r.1⟩, link := r.2 }
          else none
      | _ => none
  | .fillEintr =>
      match s.pc with
      | .readline _ => if s.readBuf.unread = [] then some s else none
      | _ => none
  | .fillEof =>
      match s.pc with
      | .readline acc =>
          if s.readBuf.unread = [] ∧ s.link.reply.AtEof then
            some { s with pc := if acc = [] then .errQuit else .fputs acc }
          else none
      | _ => none
  | .byte =>
      match s.pc, s.readBuf.unread with
      | .readline acc, c :: rest =>
          some { s with
            pc := if endsLine MAXLINE acc c then .fputs (acc ++ [c])
              else .readline (acc ++ [c])
            readBuf := ⟨rest⟩ }
      | _, _ => none
  | .fputs =>
      match s.pc with
      | .fputs line =>
          some { s with pc := .testInput, stdout := s.stdout ++ cString line }
      | _ => none
  | .testInput =>
      if s.pc = .testInput then
        some { s with pc := if s.rset.fp then .fgets [] else .head }
      else none
  -- `read(fileno(fp), ..)` inside stdio
  | .stdioFill k =>
      match s.pc with
      | .fgets _ =>
          if s.stdio = [] ∧
              ReadRule.short.allows B s.arrived.length k = true then
            some { s with stdio := s.arrived.take k, arrived := s.arrived.drop k }
          else none
      | _ => none
  | .stdioEof =>
      match s.pc with
      | .fgets acc =>
          if s.stdio = [] ∧ s.arrived = [] ∧ s.ended = true then
            some (if acc = [] then { s with pc := .returned } else s.gotLine acc)
          else none
      | _ => none
  | .stdioByte =>
      match s.pc, s.stdio with
      | .fgets acc, c :: rest =>
          some (if endsLine MAXLINE acc c then
              { s with stdio := rest }.gotLine (acc ++ [c])
            else { s with pc := .fgets (acc ++ [c]), stdio := rest })
      | _, _ => none
  | .send =>
      match s.pc with
      | .writen (b :: rest) =>
          (s.link.send b).map fun l => { s with pc := .writen rest, link := l }
      | _ => none
  | .writenReturn =>
      if s.pc = .writen [] then some { s with pc := .head } else none
  | .server a => (s.link.serverStep R a).map fun l => { s with link := l }

def system (C₁ C₂ : Nat) (R : ReadRule) (B : Nat) (input : List Byte) :
    System (State C₁ C₂) Act where
  init s := s = State.start input
  step := State.step R B

inductive State.Move (R : ReadRule) (s : State C₁ C₂) :
    Act → State C₁ C₂ → Prop where
  | arrive {k : Nat} :
      Move R s (.arrive k)
        { s with
          arrived := s.arrived ++ s.coming.take k
          coming := s.coming.drop k }
  | hangUp (hcoming : s.coming = []) : Move R s .hangUp { s with ended := true }
  | arm (hpc : s.pc = .head) :
      Move R s .arm { s with pc := .select, rset := ⟨true, true⟩ }
  | select (hpc : s.pc = .select) :
      Move R s .select { s with pc := .testSock, rset := s.ready }
  | testSock (hpc : s.pc = .testSock) :
      Move R s .testSock
        { s with pc := if s.rset.sockfd then .readline [] else .testInput }
  | fill {k : Nat} {acc buf : List Byte} {l : Link C₁ C₂}
      (hpc : s.pc = .readline acc) (hempty : s.readBuf.unread = [])
      (hrecv : s.link.receive R MAXLINE k = some (buf, l)) :
      Move R s (.fill k) { s with readBuf := ⟨buf⟩, link := l }
  | fillEintr : Move R s .fillEintr s
  | fillEof {acc : List Byte} (hpc : s.pc = .readline acc)
      (hempty : s.readBuf.unread = []) (heof : s.link.reply.AtEof) :
      Move R s .fillEof { s with pc := if acc = [] then .errQuit else .fputs acc }
  | byte {acc rest : List Byte} {c : Byte} (hpc : s.pc = .readline acc)
      (hunread : s.readBuf.unread = c :: rest) :
      Move R s .byte
        { s with
          pc := if endsLine MAXLINE acc c then .fputs (acc ++ [c])
            else .readline (acc ++ [c])
          readBuf := ⟨rest⟩ }
  | fputs {line : List Byte} (hpc : s.pc = .fputs line) :
      Move R s .fputs
        { s with pc := .testInput, stdout := s.stdout ++ cString line }
  | testInput (hpc : s.pc = .testInput) :
      Move R s .testInput
        { s with pc := if s.rset.fp then .fgets [] else .head }
  | stdioFill {k : Nat} {acc : List Byte} (hpc : s.pc = .fgets acc)
      (hempty : s.stdio = []) :
      Move R s (.stdioFill k)
        { s with stdio := s.arrived.take k, arrived := s.arrived.drop k }
  | stdioEof {acc : List Byte} (hpc : s.pc = .fgets acc) (hempty : s.stdio = [])
      (harrived : s.arrived = []) (hended : s.ended = true) :
      Move R s .stdioEof
        (if acc = [] then { s with pc := .returned } else s.gotLine acc)
  | stdioByte {acc rest : List Byte} {c : Byte} (hpc : s.pc = .fgets acc)
      (hunread : s.stdio = c :: rest) :
      Move R s .stdioByte
        (if endsLine MAXLINE acc c then
          { s with stdio := rest }.gotLine (acc ++ [c])
        else { s with pc := .fgets (acc ++ [c]), stdio := rest })
  | send {b : Byte} {rest : List Byte} {l : Link C₁ C₂}
      (hpc : s.pc = .writen (b :: rest)) (hsend : s.link.send b = some l) :
      Move R s .send { s with pc := .writen rest, link := l }
  | writenReturn (hpc : s.pc = .writen []) :
      Move R s .writenReturn { s with pc := .head }
  | server {a : ServerAct} {l : Link C₁ C₂}
      (hserver : s.link.serverStep R a = some l) :
      Move R s (.server a) { s with link := l }

theorem State.step_move {R : ReadRule} {B : Nat} {s t : State C₁ C₂} {a : Act}
    (h : s.step R B a = some t) : s.Move R a t := by
  cases a with
  | arrive k =>
      obtain ⟨-, rfl⟩ := guard_eq_some.mp h
      exact .arrive
  | hangUp =>
      obtain ⟨hcoming, rfl⟩ := guard_eq_some.mp h
      exact .hangUp hcoming
  | arm =>
      obtain ⟨hpc, rfl⟩ := guard_eq_some.mp h
      exact .arm hpc
  | select =>
      obtain ⟨⟨hpc, -⟩, rfl⟩ := guard_eq_some.mp h
      exact .select hpc
  | testSock =>
      obtain ⟨hpc, rfl⟩ := guard_eq_some.mp h
      exact .testSock hpc
  | fill k =>
      simp only [step] at h
      split at h
      · rename_i acc hpc
        obtain ⟨hempty, h⟩ := Option.ite_none_right_eq_some.mp h
        obtain ⟨⟨buf, l⟩, hrecv, rfl⟩ := Option.map_eq_some_iff.mp h
        exact .fill hpc hempty hrecv
      · simp at h
  | fillEintr =>
      simp only [step] at h
      split at h
      · obtain ⟨-, rfl⟩ := guard_eq_some.mp h
        exact .fillEintr
      · simp at h
  | fillEof =>
      simp only [step] at h
      split at h
      · rename_i acc hpc
        obtain ⟨⟨hempty, heof⟩, rfl⟩ := guard_eq_some.mp h
        exact .fillEof hpc hempty heof
      · simp at h
  | byte =>
      simp only [step] at h
      split at h
      · rename_i acc c rest hpc hunread
        obtain rfl := Option.some.inj h
        exact .byte hpc hunread
      · simp at h
  | fputs =>
      simp only [step] at h
      split at h
      · rename_i line hpc
        obtain rfl := Option.some.inj h
        exact .fputs hpc
      · simp at h
  | testInput =>
      obtain ⟨hpc, rfl⟩ := guard_eq_some.mp h
      exact .testInput hpc
  | stdioFill k =>
      simp only [step] at h
      split at h
      · rename_i acc hpc
        obtain ⟨⟨hempty, -⟩, rfl⟩ := guard_eq_some.mp h
        exact .stdioFill hpc hempty
      · simp at h
  | stdioEof =>
      simp only [step] at h
      split at h
      · rename_i acc hpc
        obtain ⟨⟨hempty, harrived, hended⟩, rfl⟩ := guard_eq_some.mp h
        exact .stdioEof hpc hempty harrived hended
      · simp at h
  | stdioByte =>
      simp only [step] at h
      split at h
      · rename_i acc c rest hpc hunread
        obtain rfl := Option.some.inj h
        exact .stdioByte hpc hunread
      · simp at h
  | send =>
      simp only [step] at h
      split at h
      · rename_i b rest hpc
        obtain ⟨l, hsend, rfl⟩ := Option.map_eq_some_iff.mp h
        exact .send hpc hsend
      · simp at h
  | writenReturn =>
      obtain ⟨hpc, rfl⟩ := guard_eq_some.mp h
      exact .writenReturn hpc
  | server a =>
      obtain ⟨l, hserver, rfl⟩ := Option.map_eq_some_iff.mp h
      exact .server hserver

end MyUnp.SelectLineClient
