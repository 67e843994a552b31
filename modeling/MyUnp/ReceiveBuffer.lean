import MyUnp.AccessSpan
import MyUnp.DatagramClient

/-!
The clients of Chapters 8 and 11 that receive up to `MAXLINE` bytes into an array
of that size and put a NUL behind them: `dg_cli` in its three versions, and
`daytimetcpcli2`.
-/

namespace MyUnp.ReceiveBuffer

open MyUnp.AccessSpan MyUnp.LinePieces MyUnp.MemoryBlock MyUnp.Unp
open MyUnp.DatagramClient (fromServer)

abbrev RecvLine := {cells : List Byte // cells.length = MAXLINE}

/-- A datagram or a segment; `src` is the address that `recvfrom` stores for it. -/
structure Incoming where
  src : List Byte
  bytes : List Byte
  deriving DecidableEq

/-- What one `Recvfrom` or `Read` returns; after an error the wrapper ends the
process. -/
abbrev Recv := Option Incoming

/-- `writes` tells which cells of `recvline` have been written to. -/
structure Client where
  recvline : RecvLine
  sent : List (List Byte)
  printed : List (List Byte)
  writes : List Span

namespace Client

def start (recvline : RecvLine) : Client := ⟨recvline, [], [], []⟩

def request (c : Client) (line : List Byte) : Client :=
  { c with sent := c.sent ++ [cString line] }

def receive (c : Client) (m : Incoming) : Client :=
  let data := m.bytes.take MAXLINE
  { c with
    recvline := ⟨store c.recvline.1 0 data, (store_length _ _ _).trans c.recvline.2⟩
    writes := c.writes ++ [.front data.length] }

def terminate (c : Client) (n : Nat) : Client :=
  { c with
    recvline := ⟨c.recvline.1.set n 0, List.length_set.trans c.recvline.2⟩
    printed := c.printed ++ [cString (c.recvline.1.set n 0)]
    writes := c.writes ++ [.cell n] }

end Client

def Incoming.count (m : Incoming) : Nat := (m.bytes.take MAXLINE).length

/-- The `while` loop of `dg_cli` over the lines of its input; a reply is printed if
`accepts` allows for its sender. -/
def replyLoop (accepts : List Byte → Bool) :
    List (List Byte) → List Recv → Client → Client
  | [], _, c => c
  | line :: _, [], c => c.request line
  | line :: _, none :: _, c => c.request line
  | line :: lines, some m :: rs, c =>
      let c := (c.request line).receive m
      replyLoop accepts lines rs (if accepts m.src then c.terminate m.count else c)

def lines (file : List Byte) : List (List Byte) := pieces newline (MAXLINE - 1) file

def dg_cli (file : List Byte) : List Recv → Client → Client :=
  replyLoop (fun _ => true) (lines file)

def dgcliaddr (psrvaddr file : List Byte) : List Recv → Client → Client :=
  replyLoop (fromServer psrvaddr) (lines file)

/-- `dg_cli` of `dgcliconnect.c`: on a connected socket `Read` tells no sender. -/
def dgcliconnect (file : List Byte) : List Recv → Client → Client :=
  replyLoop (fun _ => true) (lines file)

def daytimetcpcli2 : List Recv → Client → Client
  | [], c => c
  | none :: _, c => c
  | some m :: rs, c =>
      if 0 < m.count then daytimetcpcli2 rs ((c.receive m).terminate m.count) else c

def received : List (List Byte) → List Recv → List Incoming
  | _ :: lines, some m :: rs => m :: received lines rs
  | _, _ => []

def segments : List Recv → List Incoming
  | some m :: rs => if 0 < m.count then m :: segments rs else []
  | _ => []

def Incoming.Short (m : Incoming) : Prop := m.bytes.length < MAXLINE

theorem Incoming.count_lt_iff (m : Incoming) : m.count < MAXLINE ↔ m.Short := by
  unfold count Short
  rw [List.length_take]
  omega

namespace Client

variable (c : Client) (m : Incoming)

theorem receive_inside : Inside MAXLINE (c.receive m).writes ↔ Inside MAXLINE c.writes := by
  have hfit : (Span.front (m.bytes.take MAXLINE).length).Inside MAXLINE :=
    Span.front_inside.mpr (List.length_take_le _ _)
  change Inside MAXLINE (c.writes ++ [_]) ↔ _
  rw [inside_append, inside_cons]
  exact and_iff_left ⟨hfit, inside_nil⟩

theorem terminate_inside (n : Nat) :
    Inside MAXLINE (c.terminate n).writes ↔ Inside MAXLINE c.writes ∧ n < MAXLINE := by
  change Inside MAXLINE (c.writes ++ [Span.cell n]) ↔ _
  simp [Span.cell_inside]

theorem request_inside (line : List Byte) :
    Inside MAXLINE (c.request line).writes ↔ Inside MAXLINE c.writes := Iff.rfl

theorem receive_terminate_inside :
    Inside MAXLINE ((c.receive m).terminate m.count).writes ↔
      Inside MAXLINE c.writes ∧ m.Short := by
  rw [terminate_inside, receive_inside, m.count_lt_iff]

end Client

theorem replyLoop_inside (accepts : List Byte → Bool) (lines : List (List Byte))
    (rs : List Recv) (c : Client) :
    Inside MAXLINE (replyLoop accepts lines rs c).writes ↔
      Inside MAXLINE c.writes ∧
        ∀ m ∈ received lines rs, accepts m.src = true → m.Short := by
  induction lines generalizing rs c with
  | nil => simp [replyLoop, received]
  | cons line lines ih =>
      rcases rs with _ | ⟨_ | m, rs⟩
      · simp [replyLoop, received, Client.request_inside]
      · simp [replyLoop, received, Client.request_inside]
      · rw [replyLoop, ih, received, List.forall_mem_cons]
        cases haccept : accepts m.src with
        | true =>
            rw [if_pos rfl, Client.receive_terminate_inside, Client.request_inside, and_assoc]
            simp
        | false =>
            rw [if_neg (by simp), Client.receive_inside, Client.request_inside]
            simp

theorem daytimetcpcli2_inside (rs : List Recv) (c : Client) :
    Inside MAXLINE (daytimetcpcli2 rs c).writes ↔
      Inside MAXLINE c.writes ∧ ∀ m ∈ segments rs, m.Short := by
  induction rs generalizing c with
  | nil => simp [daytimetcpcli2, segments]
  | cons r rs ih =>
      rcases r with _ | m
      · simp [daytimetcpcli2, segments]
      · rw [daytimetcpcli2, segments]
        split_ifs with hpos
        · rw [ih, Client.receive_terminate_inside, List.forall_mem_cons, and_assoc]
        · simp

/-- The four clients write inside `recvline` exactly as long as no message they
take fills it: one of `MAXLINE` bytes has its NUL put behind the array. -/
theorem terminator_inside_iff (recvline : RecvLine) (psrvaddr file : List Byte)
    (rs : List Recv) :
    (Inside MAXLINE (dg_cli file rs (.start recvline)).writes ↔
      ∀ m ∈ received (lines file) rs, m.Short) ∧
    (Inside MAXLINE (dgcliaddr psrvaddr file rs (.start recvline)).writes ↔
      ∀ m ∈ received (lines file) rs, m.src = psrvaddr → m.Short) ∧
    (Inside MAXLINE (dgcliconnect file rs (.start recvline)).writes ↔
      ∀ m ∈ received (lines file) rs, m.Short) ∧
    (Inside MAXLINE (daytimetcpcli2 rs (.start recvline)).writes ↔
      ∀ m ∈ segments rs, m.Short) := by
  have hstart : Inside MAXLINE (Client.start recvline).writes := inside_nil
  refine ⟨?_, ?_, ?_, ?_⟩
  · rw [dg_cli, replyLoop_inside]
    simp [hstart]
  · rw [dgcliaddr, replyLoop_inside]
    simp [hstart, DatagramClient.fromServer_iff]
  · rw [dgcliconnect, replyLoop_inside]
    simp [hstart]
  · rw [daytimetcpcli2_inside]
    simp [hstart]

theorem full_datagram_outside :
    ¬ ∀ recvline file rs, Inside MAXLINE (dg_cli file rs (.start recvline)).writes := by
  intro hall
  have hin := hall ⟨List.replicate MAXLINE 0, List.length_replicate⟩ [newline]
    [some ⟨[], List.replicate MAXLINE 0⟩]
  rw [dg_cli, replyLoop_inside] at hin
  have hshort : (List.replicate MAXLINE (0 : Byte)).length < MAXLINE :=
    hin.2 ⟨[], List.replicate MAXLINE 0⟩ List.mem_cons_self rfl
  rw [List.length_replicate] at hshort
  exact Nat.lt_irrefl _ hshort

end MyUnp.ReceiveBuffer
