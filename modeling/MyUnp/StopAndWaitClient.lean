import MyUnp.EchoServer
import MyUnp.Readline

/-!
`str_cli` of Chapter 5 at one end of a connection whose other end is served by
`str_echo`: one line is sent, and one line read back, at a time.
-/

namespace MyUnp.StopAndWaitClient

open MyUnp.TransitionSystem
open MyUnp.Fifo
open MyUnp.LinePieces
open MyUnp.Unp
open MyUnp.EchoServer
open MyUnp.Readline

/-- Program points of the client. `readline acc` is inside `Readline`, with
`acc` stored in `recvline` so far. -/
inductive Pc where
  | head
  | writen (rest : List Byte)
  | readline (acc : List Byte)
  | fputs (line : List Byte)
  | returned
  | errQuit
  deriving DecidableEq

def Pc.unsent : Pc → List Byte
  | .writen rest => rest
  | _ => []

/-- `input` is what `fp` still holds and `readBuf` the static buffer of
`my_read`. `lines`, `sent` and `replies` record what the calls of `Fgets`
stored, what was copied to the socket and what the calls of `Readline` stored;
no step looks at them. -/
structure State (C₁ C₂ : Nat) where
  pc : Pc
  readBuf : ReadBuf
  input : List Byte
  lines : List (List Byte)
  sent : List Byte
  replies : List (List Byte)
  stdout : List Byte
  link : Link C₁ C₂
  deriving DecidableEq

inductive Act where
  | fgets
  | fgetsEof
  | send
  | writenReturn
  | fill (k : Nat)
  | fillEintr
  | fillEof
  | byte
  | fputs
  | server (a : ServerAct)
  deriving DecidableEq

variable {C₁ C₂ : Nat}

def State.start (input : List Byte) : State C₁ C₂ where
  pc := .head
  readBuf := .empty
  input := input
  lines := []
  sent := []
  replies := []
  stdout := []
  link := Link.start C₁ C₂

def State.chunks (s : State C₁ C₂) : List (List Byte) := s.lines.map cString

def State.store (s : State C₁ C₂) (acc : List Byte) (c : Byte) : State C₁ C₂ :=
  if endsLine MAXLINE acc c then
    { s with pc := .fputs (acc ++ [c]), replies := s.replies ++ [acc ++ [c]] }
  else { s with pc := .readline (acc ++ [c]) }

/-- One step of the client or of the server. `R` is how many bytes a `read` on
the connection returns. -/
def State.step (R : ReadRule) (s : State C₁ C₂) : Act → Option (State C₁ C₂)
  | .fgets =>
      if s.pc = .head ∧ s.input ≠ [] then
        let p := nextPiece newline (MAXLINE - 1) s.input
        some { s with
          pc := .writen (cString p.1)
          lines := s.lines ++ [p.1]
          input := p.2 }
      else none
  | .fgetsEof =>
      if s.pc = .head ∧ s.input = [] then some { s with pc := .returned }
      else none
  | .send =>
      match s.pc with
      | .writen (b :: rest) =>
          (s.link.send b).map fun l =>
            { s with pc := .writen rest, sent := s.sent ++ [b], link := l }
      | _ => none
  | .writenReturn =>
      if s.pc = .writen [] then some { s with pc := .readline [] } else none
  -- my_read with read_cnt <= 0: `read(fd, read_buf, sizeof(read_buf))`
  | .fill k =>
      match s.pc with
      | .readline _ =>
          if s.readBuf.unread = [] then
            (s.link.receive R MAXLINE k).map fun r =>
              { s with readBuf := ⟨r.1⟩, link := r.2 }
          else none
      | _ => none
  | .fillEintr =>
      match s.pc with
      | .readline _ => if s.readBuf.unread = [] then some s else none
      | _ => none
  -- readline returns the n - 1 bytes it has
  | .fillEof =>
      match s.pc with
      | .readline acc =>
          if s.readBuf.unread = [] ∧ s.link.reply.AtEof then
            some (if acc = [] then { s with pc := .errQuit }
              else { s with pc := .fputs acc, replies := s.replies ++ [acc] })
          else none
      | _ => none
  | .byte =>
      match s.pc, s.readBuf.unread with
      | .readline acc, c :: rest =>
          some ({ s with readBuf := ⟨rest⟩ }.store acc c)
      | _, _ => none
  | .fputs =>
      match s.pc with
      | .fputs line =>
          some { s with pc := .head, stdout := s.stdout ++ cString line }
      | _ => none
  | .server a => (s.link.serverStep R a).map fun l => { s with link := l }

def system (C₁ C₂ : Nat) (R : ReadRule) (input : List Byte) :
    System (State C₁ C₂) Act where
  init s := s = State.start input
  step := State.step R

inductive State.Move (R : ReadRule) (s : State C₁ C₂) :
    Act → State C₁ C₂ → Prop where
  | fgets (hpc : s.pc = .head) (hinput : s.input ≠ []) :
      Move R s .fgets
        { s with
          pc := .writen (cString (nextPiece newline (MAXLINE - 1) s.input).1)
          lines := s.lines ++ [(nextPiece newline (MAXLINE - 1) s.input).1]
          input := (nextPiece newline (MAXLINE - 1) s.input).2 }
  | fgetsEof (hpc : s.pc = .head) (hinput : s.input = []) :
      Move R s .fgetsEof { s with pc := .returned }
  | send {b : Byte} {rest : List Byte} {l : Link C₁ C₂}
      (hpc : s.pc = .writen (b :: rest)) (hsend : s.link.send b = some l) :
      Move R s .send
        { s with pc := .writen rest, sent := s.sent ++ [b], link := l }
  | writenReturn (hpc : s.pc = .writen []) :
      Move R s .writenReturn { s with pc := .readline [] }
  | fill {k : Nat} {acc buf : List Byte} {l : Link C₁ C₂}
      (hpc : s.pc = .readline acc) (hempty : s.readBuf.unread = [])
      (hrecv : s.link.receive R MAXLINE k = some (buf, l)) :
      Move R s (.fill k) { s with readBuf := ⟨buf⟩, link := l }
  | fillEintr {acc : List Byte} (hpc : s.pc = .readline acc) :
      Move R s .fillEintr s
  | fillEof {acc : List Byte} (hpc : s.pc = .readline acc)
      (heof : s.link.reply.AtEof) :
      Move R s .fillEof
        (if acc = [] then { s with pc := .errQuit }
          else { s with pc := .fputs acc, replies := s.replies ++ [acc] })
  | byte {acc rest : List Byte} {c : Byte} (hpc : s.pc = .readline acc)
      (hunread : s.readBuf.unread = c :: rest) :
      Move R s .byte ({ s with readBuf := ⟨rest⟩ }.store acc c)
  | fputs {line : List Byte} (hpc : s.pc = .fputs line) :
      Move R s .fputs
        { s with pc := .head, stdout := s.stdout ++ cString line }
  | server {a : ServerAct} {l : Link C₁ C₂}
      (hserver : s.link.serverStep R a = some l) :
      Move R s (.server a) { s with link := l }

theorem State.step_move {R : ReadRule} {s t : State C₁ C₂} {a : Act}
    (h : s.step R a = some t) : s.Move R a t := by
  cases a with
  | fgets =>
      obtain ⟨⟨hpc, hinput⟩, rfl⟩ := guard_eq_some.mp h
      exact .fgets hpc hinput
  | fgetsEof =>
      obtain ⟨⟨hpc, hinput⟩, rfl⟩ := guard_eq_some.mp h
      exact .fgetsEof hpc hinput
  | send =>
      simp only [step] at h
      split at h
      · rename_i b rest hpc
        obtain ⟨l, hsend, rfl⟩ := Option.map_eq_some_iff.mp h
        exact .send hpc hsend
      · simp at h
  | writenReturn =>
      obtain ⟨hpc, rfl⟩ := guard_eq_some.mp h
      exact .writenReturn hpc
  | fill k =>
      simp only [step] at h
      split at h
      · rename_i acc hpc
        obtain ⟨hempty, h⟩ := Option.ite_none_right_eq_some.mp h
        obtain ⟨⟨buf, l⟩, hrecv, rfl⟩ := Option.map_eq_some_iff.mp h
        exact .fill hpc hempty hrecv
      · simp at h
  | fillEintr =>
      simp only [step] at h
      split at h
      · rename_i acc hpc
        obtain ⟨-, rfl⟩ := guard_eq_some.mp h
        exact .fillEintr hpc
      · simp at h
  | fillEof =>
      simp only [step] at h
      split at h
      · rename_i acc hpc
        obtain ⟨⟨-, heof⟩, rfl⟩ := guard_eq_some.mp h
        exact .fillEof hpc heof
      · simp at h
  | byte =>
      simp only [step] at h
      split at h
      · rename_i acc c rest hpc hunread
        obtain rfl := Option.some.inj h
        exact .byte hpc hunread
      · simp at h
  | fputs =>
      simp only [step] at h
      split at h
      · rename_i line hpc
        obtain rfl := Option.some.inj h
        exact .fputs hpc
      · simp at h
  | server a =>
      obtain ⟨l, hserver, rfl⟩ := Option.map_eq_some_iff.mp h
      exact .server hserver

end MyUnp.StopAndWaitClient
