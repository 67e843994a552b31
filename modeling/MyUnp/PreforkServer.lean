import Mathlib.Logic.Function.Basic
import MyUnp.TransitionSystem
import MyUnp.WebChild

/-!
The preforked server of Chapter 30, Paradigm 2: `nchildren` processes that
share one listening socket, each serving one connection after another with
`web_child`.
-/

namespace MyUnp.PreforkServer

open MyUnp.Readline
open MyUnp.TransitionSystem
open MyUnp.Unp
open MyUnp.WebChild

structure Conn where
  id : Nat
  script : Source
  deriving DecidableEq

/-- Program points of `child_main`: inside `Select`, inside `Accept`, before
`cptr[i]++`, inside `web_child`, before `Close`. -/
inductive Stage where
  | select
  | accept
  | accepted (c : Conn)
  | serving (c : Conn) (src : Source)
  | closing (c : Conn)
  deriving DecidableEq

/-- What ends a child process: `err_quit` on a refused request, or `err_sys` in
`Readline` or `Writen`. -/
inductive Cause where
  | errQuit (ntowrite : Int)
  | readError
  | writenError
  deriving DecidableEq

/-- A child before its `Fork`, at a program point, or gone, with the connection
it was serving. -/
inductive Child where
  | notForked
  | running (stage : Stage)
  | ended (c : Conn) (x : Cause)
  deriving DecidableEq

/-- The children with their static read buffers, the shared counters, and the
completed connections that wait on the listening socket. `arrived` and `taken`
record which connections there have been and who accepted which. -/
structure State (n : Nat) where
  child : Fin n → Child
  readBuf : Fin n → ReadBuf
  cptr : Fin n → Nat
  forked : Nat
  queue : List Conn
  arrived : List Conn
  taken : List (Fin n × Conn)

inductive Act (n : Nat) where
  | fork
  | arrive (script : Source)
  | select (i : Fin n)
  | accept (i : Fin n)
  | count (i : Fin n)
  | request (i : Fin n) (writeOk : Bool)
  | close (i : Fin n)
  deriving DecidableEq

variable {n : Nat}

def State.start (n : Nat) : State n where
  child _ := .notForked
  readBuf _ := .empty
  cptr _ := 0
  forked := 0
  queue := []
  arrived := []
  taken := []

def State.setChild (s : State n) (i : Fin n) (ch : Child) : State n :=
  { s with child := Function.update s.child i ch }

def State.arrive (s : State n) (script : Source) : State n :=
  { s with
    queue := s.queue ++ [⟨s.arrived.length, script⟩]
    arrived := s.arrived ++ [⟨s.arrived.length, script⟩] }

def State.accept (s : State n) (i : Fin n) (c : Conn) (queue : List Conn) :
    State n :=
  { s.setChild i (.running (.accepted c)) with
    queue := queue
    taken := s.taken ++ [(i, c)] }

def State.count (s : State n) (i : Fin n) (c : Conn) : State n :=
  { s.setChild i (.running (.serving c c.script)) with
    cptr := Function.update s.cptr i (s.cptr i + 1) }

def afterRequest (c : Conn) (src : Source) (writeOk : Bool) : Request → Child
  | .closed => .running (.closing c)
  | .readError => .ended c .readError
  | .refused k => .ended c (.errQuit k)
  | .reply _ =>
      if writeOk then .running (.serving c src) else .ended c .writenError

/-- One round of `web_child`, with a `Writen` that succeeds or fails. -/
def State.request (s : State n) (i : Fin n) (c : Conn) (src : Source)
    (writeOk : Bool) : State n :=
  let r := nextRequest (s.readBuf i) src
  { s.setChild i (afterRequest c r.2.2 writeOk r.1) with
    readBuf := Function.update s.readBuf i r.2.1 }

def State.step (s : State n) : Act n → Option (State n)
  | .fork =>
      if h : s.forked < n then
        some { s.setChild ⟨s.forked, h⟩ (.running .select) with
          forked := s.forked + 1 }
      else none
  | .arrive script => some (s.arrive script)
  -- `Select` returns while a connection is waiting, to any child
  | .select i =>
      if s.child i = .running .select ∧ s.queue ≠ [] then
        some (s.setChild i (.running .accept))
      else none
  -- `Accept` blocks on an empty queue
  | .accept i =>
      match s.child i, s.queue with
      | .running .accept, c :: queue => some (s.accept i c queue)
      | _, _ => none
  | .count i =>
      match s.child i with
      | .running (.accepted c) => some (s.count i c)
      | _ => none
  | .request i writeOk =>
      match s.child i with
      | .running (.serving c src) => some (s.request i c src writeOk)
      | _ => none
  | .close i =>
      match s.child i with
      | .running (.closing _) => some (s.setChild i (.running .select))
      | _ => none

def system (n : Nat) : System (State n) (Act n) where
  init s := s = .start n
  step := State.step

inductive Move (s : State n) : Act n → State n → Prop where
  | fork (h : s.forked < n) :
      Move s .fork { s.setChild ⟨s.forked, h⟩ (.running .select) with
        forked := s.forked + 1 }
  | arrive (script : Source) : Move s (.arrive script) (s.arrive script)
  | select {i : Fin n} (hi : s.child i = .running .select)
      (hqueue : s.queue ≠ []) :
      Move s (.select i) (s.setChild i (.running .accept))
  | accept {i : Fin n} {c : Conn} {queue : List Conn}
      (hi : s.child i = .running .accept) (hqueue : s.queue = c :: queue) :
      Move s (.accept i) (s.accept i c queue)
  | count {i : Fin n} {c : Conn} (hi : s.child i = .running (.accepted c)) :
      Move s (.count i) (s.count i c)
  | request {i : Fin n} {c : Conn} {src : Source} {writeOk : Bool}
      (hi : s.child i = .running (.serving c src)) :
      Move s (.request i writeOk) (s.request i c src writeOk)
  | close {i : Fin n} {c : Conn} (hi : s.child i = .running (.closing c)) :
      Move s (.close i) (s.setChild i (.running .select))

theorem step_move {s t : State n} {l : Act n}
    (h : (system n).step s l = some t) : Move s l t := by
  change s.step l = some t at h
  cases l with
  | fork =>
      rw [State.step] at h
      split at h
      · rename_i hlt
        obtain rfl := Option.some.inj h
        exact .fork hlt
      · simp at h
  | arrive script =>
      obtain rfl := Option.some.inj h
      exact .arrive script
  | select i =>
      obtain ⟨⟨hi, hqueue⟩, rfl⟩ := guard_eq_some.mp h
      exact .select hi hqueue
  | accept i =>
      rw [State.step] at h
      split at h
      · rename_i hi hqueue
        obtain rfl := Option.some.inj h
        exact .accept hi hqueue
      · simp at h
  | count i =>
      rw [State.step] at h
      split at h
      · rename_i hi
        obtain rfl := Option.some.inj h
        exact .count hi
      · simp at h
  | request i writeOk =>
      rw [State.step] at h
      split at h
      · rename_i hi
        obtain rfl := Option.some.inj h
        exact .request hi
      · simp at h
  | close i =>
      rw [State.step] at h
      split at h
      · rename_i hi
        obtain rfl := Option.some.inj h
        exact .close hi
      · simp at h

end MyUnp.PreforkServer
