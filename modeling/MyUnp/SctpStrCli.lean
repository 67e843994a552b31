import MyUnp.AccessSpan
import MyUnp.LinePieces
import MyUnp.MemoryBlock
import MyUnp.PartialDelivery
import MyUnp.Printf
import MyUnp.Strtol
import MyUnp.TransitionSystem

/-!
`sctp_str_cli`, which sends lines of the form `[streamnum]text` on a stream and
prints the reply, in the versions of Chapter 9, of `Client` in Chapter 23 and of
`GetLocalAndPeerAddr` there.
-/

namespace MyUnp.SctpStrCli

open MyUnp.AccessSpan MyUnp.LinePieces MyUnp.MemoryBlock MyUnp.Printf MyUnp.Strtol
open MyUnp.TransitionSystem MyUnp.Unp
open MyUnp.PartialDelivery (Flags isNotification)

def MAXLINE : Nat := 1024

inductive Version
  | chapter9
  | client
  | getLocalAndPeerAddr
  deriving DecidableEq

abbrev RecvLine := {cells : List Byte // cells.length = MAXLINE}

structure Sri where
  sinfo_stream : BitVec 16
  sinfo_ssn : BitVec 16
  sinfo_assoc_id : BitVec 32
  deriving DecidableEq

/-- What one `sctp_recvmsg` returns: a negative value, or a message with its flags. -/
inductive Recv
  | error
  | message (sri : Sri) (flags : Flags) (data : List Byte)
  deriving DecidableEq

structure Printed where
  text : List Byte
  touched : List Span
  deriving DecidableEq

inductive Event
  | formError
  | sendmsg (stream : BitVec 16) (data : List Byte)
  | perror (s : String)
  | notification (recvline : List Byte) (rd_len : Int)
  | fromStr (sri : Sri) (rd_sz : Int) (printed : Printed)
  deriving DecidableEq

inductive Pc
  | fgets
  | recvmsg
  | returned
  deriving DecidableEq

structure State where
  pc : Pc
  input : List Byte
  recvline : RecvLine
  msg_flags : Flags
  sri : Sri
  log : List Event
  deriving DecidableEq

inductive Act
  | line (sendOk : Bool)
  | recv (r : Recv)
  deriving DecidableEq

def putNul (recvline : RecvLine) (i : Int) : RecvLine :=
  if i < 0 then recvline
  else ⟨recvline.1.set i.toNat 0, List.length_set.trans recvline.2⟩

/-- The `printf` of the text; `beyond` is the memory behind `recvline`. -/
def printReply (version : Version) (beyond : List Byte) (recvline : RecvLine) (rd_sz : Int) :
    Printed :=
  match version with
  | .chapter9 =>
      -- "%*.s": the precision is missing, which makes it 0
      let c := formatS rd_sz (some 0) (recvline.1 ++ beyond)
      ⟨c.text, [.front c.read]⟩
  | .client =>
      -- recvline[rd_sz-1] = 0, then "%s\n"
      let c := formatS 0 none ((putNul recvline (rd_sz - 1)).1 ++ beyond)
      ⟨c.text ++ [newline], [.cell (rd_sz - 1), .front c.read]⟩
  | .getLocalAndPeerAddr =>
      -- "%*s\n"
      let c := formatS rd_sz none (recvline.1 ++ beyond)
      ⟨c.text ++ [newline], [.front c.read]⟩

def afterPrint (version : Version) (recvline : RecvLine) (rd_sz : Int) : RecvLine :=
  match version with
  | .client => putNul recvline (rd_sz - 1)
  | _ => recvline

def received (recvline : RecvLine) (data : List Byte) : RecvLine :=
  ⟨store recvline.1 0 (data.take MAXLINE), (store_length _ _ _).trans recvline.2⟩

namespace State

def nextLine (s : State) : List Byte × List Byte := nextPiece newline (MAXLINE - 1) s.input

def opensBracket (line : List Byte) : Bool := line.head? = some 91

def reject (s : State) : State :=
  { s with
    input := s.nextLine.2
    log := s.log ++ [.formError] }

/-- `sinfo_stream` keeps the low bits of the number. -/
def streamOf (line : List Byte) : BitVec 16 := BitVec.ofInt 16 (strtol (line.drop 1))

def send (s : State) (sendOk : Bool) : State :=
  let line := s.nextLine.1
  let sent := Event.sendmsg (streamOf line) (cString line)
  { s with
    pc := if sendOk then .recvmsg else .returned
    input := s.nextLine.2
    sri := { s.sri with sinfo_stream := streamOf line }
    log := s.log ++ if sendOk then [sent] else [sent, .perror "sctp_sendmsg error"] }

variable (version : Version) (beyond : List Byte)

def print (s : State) (rd_sz : Int) : State :=
  { s with
    pc := .fgets
    recvline := afterPrint version s.recvline rd_sz
    log := s.log ++ [.fromStr s.sri rd_sz (printReply version beyond s.recvline rd_sz)] }

def take (s : State) (sri : Sri) (flags : Flags) (data : List Byte) : State :=
  { s with recvline := received s.recvline data, msg_flags := flags, sri := sri }

/-- The end of the loop body in `GetLocalAndPeerAddr`, whatever `sctp_recvmsg` has
returned: the loop goes on while `msg_flags` says so. -/
def check (s : State) (rd_sz : Int) : State :=
  if isNotification s.msg_flags then
    { s with log := s.log ++ [.notification s.recvline.1 rd_sz] }
  else s.print .getLocalAndPeerAddr beyond rd_sz

def receive (s : State) (r : Recv) : State :=
  match version, r with
  | .getLocalAndPeerAddr, .error =>
      check beyond { s with log := s.log ++ [.perror "sctp_recvmsg error"] } (-1)
  | .getLocalAndPeerAddr, .message sri flags data =>
      (s.take sri flags data).check beyond (data.take MAXLINE).length
  | _, .error =>
      { s with pc := .returned, log := s.log ++ [.perror "sctp_recvmsg error"] }
  | _, .message sri flags data =>
      (s.take sri flags data).print version beyond (data.take MAXLINE).length

def step (s : State) : Act → Option State
  | .line sendOk =>
      match s.pc, s.input with
      | .fgets, [] => some { s with pc := .returned }
      | .fgets, _ :: _ => some (if opensBracket s.nextLine.1 then s.send sendOk else s.reject)
      | _, _ => none
  | .recv r =>
      match s.pc with
      | .recvmsg => some (s.receive version beyond r)
      | _ => none

structure IsStart (file : List Byte) (s : State) : Prop where
  pc : s.pc = .fgets
  input : s.input = file
  sri : s.sri = ⟨0, 0, 0⟩
  log : s.log = []

def start (file : List Byte) : State where
  pc := .fgets
  input := file
  recvline := ⟨List.replicate MAXLINE 0, List.length_replicate⟩
  msg_flags := 0
  sri := ⟨0, 0, 0⟩
  log := []

theorem start_isStart (file : List Byte) : IsStart file (start file) := ⟨rfl, rfl, rfl, rfl⟩

end State

def system (version : Version) (beyond file : List Byte) : System State Act where
  init := State.IsStart file
  step := State.step version beyond

inductive Move (version : Version) (beyond : List Byte) (s : State) : Act → State → Prop
  | eof {sendOk : Bool} (hpc : s.pc = .fgets) (hinput : s.input = []) :
      Move version beyond s (.line sendOk) { s with pc := .returned }
  | reject {sendOk : Bool} (hpc : s.pc = .fgets) (hinput : s.input ≠ [])
      (hform : State.opensBracket s.nextLine.1 = false) :
      Move version beyond s (.line sendOk) s.reject
  | send {sendOk : Bool} (hpc : s.pc = .fgets) (hinput : s.input ≠ [])
      (hform : State.opensBracket s.nextLine.1 = true) :
      Move version beyond s (.line sendOk) (s.send sendOk)
  | recv {r : Recv} (hpc : s.pc = .recvmsg) :
      Move version beyond s (.recv r) (s.receive version beyond r)

variable {version : Version} {beyond file : List Byte}

theorem step_move {s t : State} {l : Act} (h : (system version beyond file).step s l = some t) :
    Move version beyond s l t := by
  change s.step version beyond l = some t at h
  cases l with
  | line sendOk =>
      rw [State.step] at h
      split at h
      · rename_i hpc hinput
        obtain rfl := Option.some.inj h
        exact .eof hpc hinput
      · rename_i hpc hinput
        have hne : s.input ≠ [] := by
          rw [hinput]
          exact List.cons_ne_nil _ _
        obtain rfl := Option.some.inj h
        cases hform : State.opensBracket s.nextLine.1 with
        | true => exact .send hpc hne hform
        | false => exact .reject hpc hne hform
      · cases h
  | recv r =>
      rw [State.step] at h
      split at h
      · rename_i hpc
        obtain rfl := Option.some.inj h
        exact .recv hpc
      · cases h

end MyUnp.SctpStrCli
