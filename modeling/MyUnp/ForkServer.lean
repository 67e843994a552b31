import MyUnp.ChildProcesses

/-!
The servers that fork a child for each connection and collect the children in a
`SIGCHLD` handler. The loop around `accept` is the same in `tcpsrv04.c`, in the
server of Paradigm-1 and in `unix_str_srv01.c`; their handlers differ.
-/

namespace MyUnp.ForkServer

open MyUnp.TransitionSystem
open MyUnp.ChildProcesses

abbrev Pid := { n : Nat // 0 < n }

def nthPid (n : Nat) : Pid := ⟨n + 1, Nat.succ_pos n⟩

def EINTR : Nat := 4

def ECHILD : Nat := 10

/-- Program points of `sig_chld`: before its `wait` or `waitpid`, before its
`printf`, at its return. -/
inductive HandlerPc where
  | idle
  | wait
  | printf (pid : Int)
  | ret
  deriving DecidableEq

/-- A handler: whether its wait is `waitpid(-1, &stat, WNOHANG)` or blocks, and
where it goes on with the result. -/
structure SigChld where
  nohang : Bool
  afterWait : Int → HandlerPc
  afterPrintf : HandlerPc

/-- `sigchld.c` of Chapter-05 and Chapter-06. -/
def Tcpsrv04.sig_chld : SigChld where
  nohang := true
  afterWait pid := if pid > 0 then .printf pid else .ret
  afterPrintf := .wait

/-- The body of the loop is a comment there. -/
def Paradigm1.sig_chld : SigChld where
  nohang := true
  afterWait pid := if pid > 0 then .wait else .ret
  afterPrintf := .wait

def UnixStrSrv01.sig_chld : SigChld where
  nohang := false
  afterWait pid := .printf pid
  afterPrintf := .ret

/-- Program points of the loop. `testErrno own` follows a failed `accept`, whose
own error was `own`; the program looks at `errno` only. -/
inductive Pc where
  | accept
  | testErrno (own : Nat)
  | fork
  | close
  | ended
  deriving DecidableEq

/-- `interrupted` says that the handler has run since `accept` was called, and
`saved` is what `errno` was when the handler was last entered; the program looks
at neither. -/
structure State where
  pc : Pc
  errno : Nat
  interrupted : Bool
  children : Children Pid
  handler : HandlerPc
  saved : Nat
  printed : List Int
  deriving DecidableEq

def State.start (errno : Nat) : State where
  pc := .accept
  errno := errno
  interrupted := false
  children := .empty
  handler := .idle
  saved := errno
  printed := []

def State.end (s : State) : State :=
  { s with pc := .ended, children := .empty }

inductive Act where
  | exit (p : Pid)
  | stop (p : Pid)
  | deliver
  | reap (p : Pid)
  | waitNone
  | printf (errno : Option Nat)
  | ret
  | acceptOk
  | acceptErr (errno : Nat)
  | testErrno
  | fork (p : Pid)
  | close
  | errSys
  deriving DecidableEq

def Act.printfErrno : Act → Option Nat
  | .printf errno => errno
  | _ => none

def State.step (h : SigChld) (s : State) : Act → Option State
  | .exit p => (s.children.exit p).map fun c => { s with children := c }
  | .stop p => (s.children.stop p).map fun c => { s with children := c }
  -- SIGCHLD is blocked while its handler runs
  | .deliver =>
      if s.pc ≠ .ended ∧ s.handler = .idle then
        s.children.deliver.map fun c =>
          { s with
            interrupted := s.interrupted || s.pc == .accept
            children := c
            handler := .wait
            saved := s.errno }
      else none
  | .reap p =>
      if s.handler = .wait then
        (s.children.reap p).map fun c =>
          { s with children := c, handler := h.afterWait p.val }
      else none
  | .waitNone =>
      if s.handler = .wait ∧ s.children.zombies = [] then
        if s.children.live = [] then
          some { s with errno := ECHILD, handler := h.afterWait (-1) }
        else if h.nohang = true then some { s with handler := h.afterWait 0 }
        else none
      else none
  | .printf errno =>
      match s.handler with
      | .printf pid =>
          some { s with
            errno := errno.getD s.errno
            handler := h.afterPrintf
            printed := s.printed ++ [pid] }
      | _ => none
  | .ret => if s.handler = .ret then some { s with handler := .idle } else none
  | .acceptOk =>
      if s.handler = .idle ∧ s.pc = .accept then some { s with pc := .fork }
      else none
  | .acceptErr errno =>
      if s.handler = .idle ∧ s.pc = .accept ∧
          (errno = EINTR → s.interrupted = true) then
        some { s with pc := .testErrno errno, errno := errno }
      else none
  | .testErrno =>
      match s.pc with
      | .testErrno _ =>
          if s.handler = .idle then
            some (if s.errno = EINTR then
              { s with pc := .accept, interrupted := false } else s.end)
          else none
      | _ => none
  | .fork p =>
      if s.handler = .idle ∧ s.pc = .fork then
        (s.children.fork p).map fun c => { s with pc := .close, children := c }
      else none
  | .close =>
      if s.handler = .idle ∧ s.pc = .close then
        some { s with pc := .accept, interrupted := false }
      else none
  -- the wrappers of fork and close
  | .errSys =>
      if s.handler = .idle ∧ (s.pc = .fork ∨ s.pc = .close) then some s.end
      else none

def system (h : SigChld) : System State Act where
  init s := ∃ errno, s = .start errno
  step := State.step h

def Quiet (s : State) : Prop := s.children.pending = false ∧ s.handler = .idle

instance (s : State) : Decidable (Quiet s) := inferInstanceAs (Decidable (_ ∧ _))

inductive State.Move (h : SigChld) (s : State) : Act → State → Prop where
  | exit {p : Pid} {c : Children Pid} (hexit : s.children.exit p = some c) :
      Move h s (.exit p) { s with children := c }
  | stop {p : Pid} {c : Children Pid} (hstop : s.children.stop p = some c) :
      Move h s (.stop p) { s with children := c }
  | deliver {c : Children Pid} (hidle : s.handler = .idle)
      (hdeliver : s.children.deliver = some c) :
      Move h s .deliver
        { s with
          interrupted := s.interrupted || s.pc == .accept
          children := c
          handler := .wait
          saved := s.errno }
  | reap {p : Pid} {c : Children Pid} (hwait : s.handler = .wait)
      (hreap : s.children.reap p = some c) :
      Move h s (.reap p) { s with children := c, handler := h.afterWait p.val }
  | waitError (hwait : s.handler = .wait) (hzombies : s.children.zombies = [])
      (hlive : s.children.live = []) :
      Move h s .waitNone { s with errno := ECHILD, handler := h.afterWait (-1) }
  | waitZero (hwait : s.handler = .wait) (hzombies : s.children.zombies = [])
      (hlive : s.children.live ≠ []) (hnohang : h.nohang = true) :
      Move h s .waitNone { s with handler := h.afterWait 0 }
  | printf {errno : Option Nat} {pid : Int} (hprintf : s.handler = .printf pid) :
      Move h s (.printf errno)
        { s with
          errno := errno.getD s.errno
          handler := h.afterPrintf
          printed := s.printed ++ [pid] }
  | ret (hret : s.handler = .ret) : Move h s .ret { s with handler := .idle }
  | acceptOk (hidle : s.handler = .idle) (hpc : s.pc = .accept) :
      Move h s .acceptOk { s with pc := .fork }
  | acceptErr {errno : Nat} (hidle : s.handler = .idle) (hpc : s.pc = .accept) :
      Move h s (.acceptErr errno)
        { s with pc := .testErrno errno, errno := errno }
  | goOn {own : Nat} (hidle : s.handler = .idle) (hpc : s.pc = .testErrno own)
      (herrno : s.errno = EINTR) :
      Move h s .testErrno { s with pc := .accept, interrupted := false }
  | giveUp {own : Nat} (hidle : s.handler = .idle) (hpc : s.pc = .testErrno own)
      (herrno : s.errno ≠ EINTR) : Move h s .testErrno s.end
  | fork {p : Pid} {c : Children Pid} (hidle : s.handler = .idle)
      (hpc : s.pc = .fork) (hfork : s.children.fork p = some c) :
      Move h s (.fork p) { s with pc := .close, children := c }
  | close (hidle : s.handler = .idle) (hpc : s.pc = .close) :
      Move h s .close { s with pc := .accept, interrupted := false }
  | errSys (hidle : s.handler = .idle) : Move h s .errSys s.end

theorem State.step_move {h : SigChld} {s t : State} {a : Act}
    (hstep : s.step h a = some t) : s.Move h a t := by
  cases a with
  | exit p =>
      obtain ⟨c, hexit, rfl⟩ := Option.map_eq_some_iff.mp hstep
      exact .exit hexit
  | stop p =>
      obtain ⟨c, hstop, rfl⟩ := Option.map_eq_some_iff.mp hstep
      exact .stop hstop
  | deliver =>
      obtain ⟨⟨-, hidle⟩, hstep⟩ := Option.ite_none_right_eq_some.mp hstep
      obtain ⟨c, hdeliver, rfl⟩ := Option.map_eq_some_iff.mp hstep
      exact .deliver hidle hdeliver
  | reap p =>
      obtain ⟨hwait, hstep⟩ := Option.ite_none_right_eq_some.mp hstep
      obtain ⟨c, hreap, rfl⟩ := Option.map_eq_some_iff.mp hstep
      exact .reap hwait hreap
  | waitNone =>
      obtain ⟨⟨hwait, hzombies⟩, hstep⟩ := Option.ite_none_right_eq_some.mp hstep
      split at hstep
      · rename_i hlive
        obtain rfl := Option.some.inj hstep
        exact .waitError hwait hzombies hlive
      · rename_i hlive
        obtain ⟨hnohang, rfl⟩ := guard_eq_some.mp hstep
        exact .waitZero hwait hzombies hlive hnohang
  | printf errno =>
      simp only [step] at hstep
      split at hstep
      · rename_i pid hprintf
        obtain rfl := Option.some.inj hstep
        exact .printf hprintf
      · simp at hstep
  | ret =>
      obtain ⟨hret, rfl⟩ := guard_eq_some.mp hstep
      exact .ret hret
  | acceptOk =>
      obtain ⟨⟨hidle, hpc⟩, rfl⟩ := guard_eq_some.mp hstep
      exact .acceptOk hidle hpc
  | acceptErr errno =>
      obtain ⟨⟨hidle, hpc, -⟩, rfl⟩ := guard_eq_some.mp hstep
      exact .acceptErr hidle hpc
  | testErrno =>
      simp only [step] at hstep
      split at hstep
      · rename_i own hpc
        obtain ⟨hidle, hstep⟩ := Option.ite_none_right_eq_some.mp hstep
        split at hstep
        · rename_i herrno
          obtain rfl := Option.some.inj hstep
          exact .goOn hidle hpc herrno
        · rename_i herrno
          obtain rfl := Option.some.inj hstep
          exact .giveUp hidle hpc herrno
      · simp at hstep
  | fork p =>
      obtain ⟨⟨hidle, hpc⟩, hstep⟩ := Option.ite_none_right_eq_some.mp hstep
      obtain ⟨c, hfork, rfl⟩ := Option.map_eq_some_iff.mp hstep
      exact .fork hidle hpc hfork
  | close =>
      obtain ⟨⟨hidle, hpc⟩, rfl⟩ := guard_eq_some.mp hstep
      exact .close hidle hpc
  | errSys =>
      obtain ⟨⟨hidle, -⟩, rfl⟩ := guard_eq_some.mp hstep
      exact .errSys hidle

end MyUnp.ForkServer
