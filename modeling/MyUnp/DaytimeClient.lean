import MyUnp.MemoryBlock
import MyUnp.Printf
import MyUnp.Readline
import MyUnp.Scanf

namespace MyUnp.DaytimeClient

open MyUnp.Atol MyUnp.Decimal MyUnp.MemoryBlock MyUnp.Printf MyUnp.Scanf MyUnp.Unp
open MyUnp.Readline (Ending)

/-- Chapter 1 proper, and the exercise that counts the reads of a client whose server
writes byte by byte. -/
inductive Version
  | chapter1
  | exercise
  deriving DecidableEq

structure Recvline where
  cells : List Byte
  length_eq : cells.length = MAXLINE + 1

def Recvline.read (r : Recvline) (g : Segment) : Recvline where
  cells := (store r.cells 0 g.bytes).set g.bytes.length 0
  length_eq := by rw [List.length_set, store_length, r.length_eq]

structure State where
  recvline : Recvline
  count : Nat
  printed : List Byte

/-- The loop. `fputs` tells which of its calls succeed; the first one that does not
ends the loop, and with it the process. -/
def receive (fputs : Nat → Bool) : List Segment → State → State × Bool
  | [], s => (s, true)
  | g :: segs, s =>
      let recvline := s.recvline.read g
      if fputs s.count then
        receive fputs segs ⟨recvline, s.count + 1, s.printed ++ cString recvline.cells⟩
      -- `err_sys`
      else ({ s with recvline := recvline, count := s.count + 1 }, false)

inductive Ended
  | exit
  | readError
  | fputsError
  deriving DecidableEq

def endedBy : Ending → Ended
  | .eof => .exit
  | .error => .readError

structure Run where
  printed : List Byte
  ended : Ended
  deriving DecidableEq

def countLine (count : Nat) : List Byte :=
  bytes "count: " ++ formatLd (toInt count) ++ [newline]

def trailer (version : Version) (ending : Ending) (count : Nat) : List Byte :=
  match version, ending with
  | .exercise, .eof => countLine count
  | _, _ => []

/-- A client on a connection from which it reads `segs` until it ends. -/
def client (version : Version) (fputs : Nat → Bool) (recvline : Recvline)
    (segs : List Segment) (ending : Ending) : Run :=
  let r := receive fputs segs ⟨recvline, 0, []⟩
  if r.2 then ⟨r.1.printed ++ trailer version ending r.1.count, endedBy ending⟩
  else ⟨r.1.printed, .fputsError⟩

/-- `buff` of the servers, up to its `strlen`. `ctime` is the memory from the result of
`ctime` on. -/
def buff (ctime : List Byte) : List Byte :=
  cString (snprintf MAXLINE ((formatS 0 (some 24) ctime).text ++ [13, 10]) ++ [0])

def writes : Version → List Byte → List (List Byte)
  | .chapter1, ctime => [buff ctime]
  | .exercise, ctime =>
      (List.range (buff ctime).length).map fun i => ((buff ctime).drop i).take 1

def stream (segs : List Segment) : List Byte := segs.flatMap Segment.bytes

section Client

theorem bytes_length_le (g : Segment) : g.bytes.length ≤ MAXLINE := g.bound

theorem Recvline.room (r : Recvline) (g : Segment) : g.bytes.length < r.cells.length := by
  rw [r.length_eq]
  exact Nat.lt_succ_of_le (bytes_length_le g)

theorem Recvline.read_string (r : Recvline) (g : Segment) :
    cString (r.read g).cells = cString g.bytes := by
  have hroom := r.room g
  have hrest : r.cells.drop g.bytes.length ≠ [] := by
    apply List.ne_nil_of_length_pos
    rw [List.length_drop]
    omega
  obtain ⟨c, rest, hcons⟩ := List.exists_cons_of_ne_nil hrest
  change cString ((store r.cells 0 g.bytes).set g.bytes.length 0) = _
  rw [store_zero (Nat.le_of_lt hroom), hcons, List.set_append_right _ _ (Nat.le_refl _),
    Nat.sub_self, List.set_cons_zero, cString_append_nul]

variable {fputs : Nat → Bool}

theorem receive_eq (hfputs : ∀ i, fputs i = true) (segs : List Segment) (s : State) :
    (receive fputs segs s).2 = true ∧
      (receive fputs segs s).1.count = s.count + segs.length ∧
      (receive fputs segs s).1.printed =
        s.printed ++ segs.flatMap fun g => cString g.bytes := by
  induction segs generalizing s with
  | nil => exact ⟨rfl, rfl, (List.append_nil _).symm⟩
  | cons g segs ih =>
      obtain ⟨hok, hcount, hprinted⟩ := ih
        ⟨s.recvline.read g, s.count + 1, s.printed ++ cString (s.recvline.read g).cells⟩
      rw [receive, if_pos (hfputs s.count)]
      refine ⟨hok, ?_, ?_⟩
      · rw [hcount, List.length_cons, Nat.add_assoc, Nat.add_comm 1]
      · rw [hprinted, Recvline.read_string, List.flatMap_cons, List.append_assoc]

theorem client_printed (hfputs : ∀ i, fputs i = true) (version : Version)
    (recvline : Recvline) (segs : List Segment) (ending : Ending) :
    (client version fputs recvline segs ending).printed =
      (segs.flatMap fun g => cString g.bytes) ++ trailer version ending segs.length := by
  obtain ⟨hok, hcount, hprinted⟩ := receive_eq hfputs segs ⟨recvline, 0, []⟩
  unfold client
  rw [if_pos hok, hprinted, hcount, List.nil_append, Nat.zero_add]

theorem flatMap_cString_iff (segs : List Segment) :
    (segs.flatMap fun g => cString g.bytes) = stream segs ↔ 0 ∉ stream segs := by
  constructor
  · intro heq hmem
    rw [← heq] at hmem
    obtain ⟨g, _, hzero⟩ := List.mem_flatMap.mp hmem
    exact zero_not_mem_cString g.bytes hzero
  · intro hzero
    apply List.flatMap_congr
    intro g hg
    apply cString_eq_self
    intro hmem
    exact hzero (List.mem_flatMap.mpr ⟨g, hg, hmem⟩)

end Client

section Server

theorem zero_not_mem_buff (ctime : List Byte) : 0 ∉ buff ctime := zero_not_mem_cString _

theorem flatten_single (s : List Byte) (n : Nat) :
    ((List.range n).map fun i => (s.drop i).take 1).flatten = s.take n := by
  induction n with
  | zero => rfl
  | succ n ih =>
      rw [List.range_succ, List.map_append, List.map_singleton, List.flatten_append,
        List.flatten_singleton, ih, ← List.take_add]

theorem writes_flatten (version : Version) (ctime : List Byte) :
    (writes version ctime).flatten = buff ctime := by
  cases version with
  | chapter1 => exact List.flatten_singleton
  | exercise => exact (flatten_single _ _).trans (List.take_length)

end Server

/-- Without NULs a client prints the whole stream in whatever pieces it comes, and behind
that the exercise tells how many they were. With NULs it prints less. What either server
sends is printed as it is. -/
theorem client_independent {fputs : Nat → Bool} (hfputs : ∀ i, fputs i = true)
    (version : Version) (recvline : Recvline) (segs : List Segment) (ending : Ending) :
    (client version fputs recvline segs ending).printed =
        (segs.flatMap fun g => cString g.bytes) ++ trailer version ending segs.length ∧
      ((segs.flatMap fun g => cString g.bytes) = stream segs ↔ 0 ∉ stream segs) ∧
      (0 ∉ stream segs → ∀ recvline' segs', stream segs' = stream segs →
        (client version fputs recvline' segs' ending).printed =
          stream segs ++ trailer version ending segs'.length) ∧
      ∀ server ctime, stream segs = (writes server ctime).flatten →
        (client version fputs recvline segs ending).printed =
          buff ctime ++ trailer version ending segs.length := by
  have hprinted := client_printed hfputs version
  refine ⟨hprinted recvline segs ending, flatMap_cString_iff segs, ?_, ?_⟩
  · intro hzero recvline' segs' hsame
    rw [← hsame] at hzero ⊢
    rw [hprinted, (flatMap_cString_iff segs').mpr hzero]
  · intro server ctime hstream
    rw [writes_flatten] at hstream
    rw [hprinted, (flatMap_cString_iff segs).mpr, hstream]
    rw [hstream]
    exact zero_not_mem_buff ctime

section Cuts

def zeros : Recvline := ⟨List.replicate (MAXLINE + 1) 0, List.length_replicate⟩

def always (_ : Nat) : Bool := true

theorem always_eq (i : Nat) : always i = true := rfl

def whole : List Segment := [⟨97, [98], by decide⟩]

def split : List Segment := [⟨97, [], by decide⟩, ⟨98, [], by decide⟩]

theorem client_independent_ab :
    (client .exercise always zeros whole .eof).printed =
        (whole.flatMap fun g => cString g.bytes) ++ trailer .exercise .eof whole.length ∧
      ((whole.flatMap fun g => cString g.bytes) = stream whole ↔ 0 ∉ stream whole) ∧
      (0 ∉ stream whole → ∀ recvline' segs', stream segs' = stream whole →
        (client .exercise always recvline' segs' .eof).printed =
          stream whole ++ trailer .exercise .eof segs'.length) ∧
      ∀ server ctime, stream whole = (writes server ctime).flatten →
        (client .exercise always zeros whole .eof).printed =
          buff ctime ++ trailer .exercise .eof whole.length :=
  client_independent always_eq .exercise zeros whole .eof

def nulWhole : List Segment := [⟨0, [97], by decide⟩]

def nulSplit : List Segment := [⟨0, [], by decide⟩, ⟨97, [], by decide⟩]

/-- The NUL swallows what comes with it; and the exercise prints the number of reads. -/
theorem client_depends_on_cuts :
    (¬ (stream nulWhole = stream nulSplit →
      (client .chapter1 always zeros nulWhole .eof).printed =
        (client .chapter1 always zeros nulSplit .eof).printed)) ∧
    ¬ (stream whole = stream split →
      (client .exercise always zeros whole .eof).printed =
        (client .exercise always zeros split .eof).printed) := by
  constructor
  · intro h
    have heq := h rfl
    rw [client_printed always_eq, client_printed always_eq] at heq
    exact absurd heq (by decide)
  · intro h
    have heq := h rfl
    rw [client_printed always_eq, client_printed always_eq] at heq
    exact absurd heq (by decide)

end Cuts

end MyUnp.DaytimeClient
