import Mathlib.Data.Fintype.EquivFin
import Mathlib.Algebra.BigOperators.Fin
import MyUnp.ForkServerReaping
import MyUnp.StopAndWaitProgress

/-!
Any number of clients (`tcpcli01.c` with `str_cli`) and the concurrent server
`tcpsrv04.c`: its accept loop, its handler of `SIGCHLD`, and a child running
`str_echo` for each connection.
-/

namespace MyUnp.ForkEcho

open MyUnp.ChildProcesses
open MyUnp.EchoServer
open MyUnp.Fifo
open MyUnp.ForkServer
open MyUnp.LinePieces
open MyUnp.StopAndWaitHang
open MyUnp.StopAndWaitProgress
open MyUnp.StopAndWaitSync
open MyUnp.TransitionSystem
open MyUnp.Unp

inductive Phase where
  | start
  | running
  | exited
  deriving DecidableEq

/-- `session i` is client `i` with its connection and `str_echo` at the other end,
which runs once `child i` has been forked. `backlog` are the connections that
`accept` has still to return, `connfd` is one that it has returned and that no
child has yet. -/
structure State (n C₁ C₂ : Nat) where
  phase : Fin n → Phase
  session : Fin n → StopAndWaitClient.State C₁ C₂
  backlog : List (Fin n)
  connfd : Option (Fin n)
  child : Fin n → Option Pid
  server : ForkServer.State

inductive Act (n : Nat) where
  | connect (i : Fin n)
  | client (i : Fin n) (a : StopAndWaitClient.Act)
  | quit (i : Fin n)
  | serve (i : Fin n) (a : ServerAct)
  | exit (i : Fin n)
  | accept
  | fork (p : Pid)
  | parent (a : ForkServer.Act)

variable {n C₁ C₂ : Nat}

def State.setSession (s : State n C₁ C₂) (i : Fin n)
    (c : StopAndWaitClient.State C₁ C₂) : State n C₁ C₂ :=
  { s with session := Function.update s.session i c }

def State.setLink (s : State n C₁ C₂) (i : Fin n) (l : Link C₁ C₂) : State n C₁ C₂ :=
  s.setSession i { s.session i with link := l }

def State.setPhase (s : State n C₁ C₂) (i : Fin n) (ph : Phase) : State n C₁ C₂ :=
  { s with phase := Function.update s.phase i ph }

section Updates

variable (s : State n C₁ C₂) (i : Fin n) (c : StopAndWaitClient.State C₁ C₂)
  (l : Link C₁ C₂) (ph : Phase)

@[simp] theorem setSession_session :
    (s.setSession i c).session = Function.update s.session i c := rfl

@[simp] theorem setSession_phase : (s.setSession i c).phase = s.phase := rfl

@[simp] theorem setSession_child : (s.setSession i c).child = s.child := rfl

@[simp] theorem setLink_session :
    (s.setLink i l).session = Function.update s.session i { s.session i with link := l } :=
  rfl

@[simp] theorem setLink_phase : (s.setLink i l).phase = s.phase := rfl

@[simp] theorem setPhase_phase :
    (s.setPhase i ph).phase = Function.update s.phase i ph := rfl

@[simp] theorem setPhase_session : (s.setPhase i ph).session = s.session := rfl

end Updates

/-- A child exits; if the parent is gone, nobody waits for it here. -/
def childExit (t : ForkServer.State) (p : Pid) : ForkServer.State :=
  { t with children := (t.children.exit p).getD t.children }

def isClient : StopAndWaitClient.Act → Bool
  | .server _ => false
  | _ => true

def isParent : ForkServer.Act → Bool
  | .exit _ => false
  | .stop _ => false
  | .acceptOk => false
  | .fork _ => false
  | _ => true

def State.step (s : State n C₁ C₂) : Act n → Option (State n C₁ C₂)
  | .connect i =>
      if s.phase i = .start ∧ s.server.pc ≠ .ended then
        some { s.setPhase i .running with backlog := s.backlog ++ [i] }
      else none
  | .client i a =>
      if s.phase i = .running ∧ isClient a = true then
        ((s.session i).step .short a).map (s.setSession i)
      else none
  -- the exit closes the socket
  | .quit i =>
      if s.phase i = .running ∧
          ((s.session i).pc = .returned ∨ (s.session i).pc = .errQuit) then
        some ((s.setLink i (s.session i).link.shutdown).setPhase i .exited)
      else none
  | .serve i a =>
      if s.child i ≠ none ∧ a ≠ .exit then
        ((s.session i).link.serverStep .short a).map (s.setLink i)
      else none
  | .exit i =>
      match s.child i with
      | none => none
      | some p =>
          ((s.session i).link.serverStep .short .exit).map fun l =>
            { s.setLink i l with server := childExit s.server p }
  | .accept =>
      match s.backlog with
      | [] => none
      | i :: rest =>
          (s.server.step Tcpsrv04.sig_chld .acceptOk).map fun t =>
            { s with backlog := rest, connfd := some i, server := t }
  | .fork p =>
      match s.connfd with
      | none => none
      | some i =>
          (s.server.step Tcpsrv04.sig_chld (.fork p)).map fun t =>
            { s with
              connfd := none
              child := Function.update s.child i (some p)
              server := t }
  | .parent a =>
      if isParent a = true then
        (s.server.step Tcpsrv04.sig_chld a).map fun t => { s with server := t }
      else none

variable {file : Fin n → List Byte}

structure State.IsStart (file : Fin n → List Byte) (s : State n C₁ C₂) : Prop where
  phase : ∀ i, s.phase i = .start
  session : ∀ i, s.session i = .start (file i)
  backlog : s.backlog = []
  connfd : s.connfd = none
  child : ∀ i, s.child i = none
  server : ∃ errno, s.server = .start errno

def system (C₁ C₂ : Nat) (file : Fin n → List Byte) :
    System (State n C₁ C₂) (Act n) where
  init := State.IsStart file
  step := State.step

inductive Move (s : State n C₁ C₂) : Act n → State n C₁ C₂ → Prop where
  | connect {i : Fin n} (hphase : s.phase i = .start) (hpc : s.server.pc ≠ .ended) :
      Move s (.connect i) { s.setPhase i .running with backlog := s.backlog ++ [i] }
  | client {i : Fin n} {a : StopAndWaitClient.Act} {c : StopAndWaitClient.State C₁ C₂}
      (hphase : s.phase i = .running) (hclient : isClient a = true)
      (hstep : (s.session i).step .short a = some c) :
      Move s (.client i a) (s.setSession i c)
  | quit {i : Fin n} (hphase : s.phase i = .running)
      (hpc : (s.session i).pc = .returned ∨ (s.session i).pc = .errQuit) :
      Move s (.quit i) ((s.setLink i (s.session i).link.shutdown).setPhase i .exited)
  | serve {i : Fin n} {a : ServerAct} {l : Link C₁ C₂} (hchild : s.child i ≠ none)
      (ha : a ≠ .exit) (hserver : (s.session i).link.serverStep .short a = some l) :
      Move s (.serve i a) (s.setLink i l)
  | exit {i : Fin n} {p : Pid} {l : Link C₁ C₂} (hchild : s.child i = some p)
      (hserver : (s.session i).link.serverStep .short .exit = some l) :
      Move s (.exit i) { s.setLink i l with server := childExit s.server p }
  | accept {i : Fin n} {rest : List (Fin n)} {t : ForkServer.State}
      (hbacklog : s.backlog = i :: rest)
      (hstep : s.server.step Tcpsrv04.sig_chld .acceptOk = some t) :
      Move s .accept { s with backlog := rest, connfd := some i, server := t }
  | fork {i : Fin n} {p : Pid} {t : ForkServer.State} (hconnfd : s.connfd = some i)
      (hstep : s.server.step Tcpsrv04.sig_chld (.fork p) = some t) :
      Move s (.fork p) { s with
        connfd := none
        child := Function.update s.child i (some p)
        server := t }
  | parent {a : ForkServer.Act} {t : ForkServer.State} (ha : isParent a = true)
      (hstep : s.server.step Tcpsrv04.sig_chld a = some t) :
      Move s (.parent a) { s with server := t }

theorem step_move {s t : State n C₁ C₂} {l : Act n}
    (h : (system C₁ C₂ file).step s l = some t) : Move s l t := by
  change s.step l = some t at h
  cases l with
  | connect i =>
      obtain ⟨⟨hphase, hpc⟩, rfl⟩ := guard_eq_some.mp h
      exact .connect hphase hpc
  | client i a =>
      obtain ⟨⟨hphase, hclient⟩, h⟩ := Option.ite_none_right_eq_some.mp h
      obtain ⟨c, hstep, rfl⟩ := Option.map_eq_some_iff.mp h
      exact .client hphase hclient hstep
  | quit i =>
      obtain ⟨⟨hphase, hpc⟩, rfl⟩ := guard_eq_some.mp h
      exact .quit hphase hpc
  | serve i a =>
      obtain ⟨⟨hchild, ha⟩, h⟩ := Option.ite_none_right_eq_some.mp h
      obtain ⟨l, hserver, rfl⟩ := Option.map_eq_some_iff.mp h
      exact .serve hchild ha hserver
  | exit i =>
      rw [State.step] at h
      split at h
      · cases h
      · rename_i p hchild
        obtain ⟨l, hserver, rfl⟩ := Option.map_eq_some_iff.mp h
        exact .exit hchild hserver
  | accept =>
      rw [State.step] at h
      split at h
      · cases h
      · rename_i i rest hbacklog
        obtain ⟨t, hstep, rfl⟩ := Option.map_eq_some_iff.mp h
        exact .accept hbacklog hstep
  | fork p =>
      rw [State.step] at h
      split at h
      · cases h
      · rename_i i hconnfd
        obtain ⟨t, hstep, rfl⟩ := Option.map_eq_some_iff.mp h
        exact .fork hconnfd hstep
  | parent a =>
      obtain ⟨ha, h⟩ := Option.ite_none_right_eq_some.mp h
      obtain ⟨t, hstep, rfl⟩ := Option.map_eq_some_iff.mp h
      exact .parent ha hstep

section Processes

theorem link_of_client {R : ReadRule} {c d : StopAndWaitClient.State C₁ C₂}
    {a : StopAndWaitClient.Act} (ha : isClient a = true) (h : c.step R a = some d) :
    d.link.server = c.link.server := by
  cases StopAndWaitClient.State.step_move h with
  | send hpc hsend => exact (Link.send_eq_some hsend).2.2.2.2.2
  | fill hpc hempty hrecv => exact (Link.receive_eq_some hrecv).2.2.2.2.2
  | fillEof hpc heof => split <;> rfl
  | byte hpc hunread =>
      unfold StopAndWaitClient.State.store
      split <;> rfl
  | server hserver => cases ha
  | _ => rfl

theorem not_exited_of_serve {R : ReadRule} {l m : Link C₁ C₂} {a : ServerAct}
    (ha : a ≠ .exit) (h : l.serverStep R a = some m) :
    l.server ≠ .exited ∧ m.server ≠ .exited := by
  cases Link.serverStep_move h with
  | exit hserver => exact absurd rfl ha
  | _ => simp_all

theorem parent_step {s t : ForkServer.State} {a : ForkServer.Act}
    (ha : isParent a = true) (h : s.step Tcpsrv04.sig_chld a = some t) :
    t.pc = .ended ∧ t.children = .empty ∨
      t.children.live = s.children.live ∧ (t.pc = .ended ↔ s.pc = .ended) ∧
        (t.pc = .fork ↔ s.pc = .fork) := by
  cases ForkServer.State.step_move h with
  | exit hexit => cases ha
  | stop hstop => cases ha
  | deliver hidle hdeliver =>
      exact .inr ⟨(Children.deliver_eq_some hdeliver).1, Iff.rfl, Iff.rfl⟩
  | reap hwait hreap =>
      exact .inr ⟨Children.reap_live hreap, Iff.rfl, Iff.rfl⟩
  | acceptOk hidle hpc => cases ha
  | acceptErr hidle hpc => exact .inr ⟨rfl, by simp [hpc], by simp [hpc]⟩
  | goOn hidle hpc herrno => exact .inr ⟨rfl, by simp [hpc], by simp [hpc]⟩
  | giveUp hidle hpc herrno => exact .inl ⟨rfl, rfl⟩
  | fork hidle hpc hfork => cases ha
  | close hidle hpc => exact .inr ⟨rfl, by simp [hpc], by simp [hpc]⟩
  | errSys hidle => exact .inl ⟨rfl, rfl⟩
  | _ => exact .inr ⟨rfl, Iff.rfl, Iff.rfl⟩

theorem accept_step {s t : ForkServer.State}
    (h : s.step Tcpsrv04.sig_chld .acceptOk = some t) :
    s.pc = .accept ∧ t = { s with pc := .fork } := by
  cases ForkServer.State.step_move h with
  | acceptOk hidle hpc => exact ⟨hpc, rfl⟩

theorem fork_step {s t : ForkServer.State} {p : Pid}
    (h : s.step Tcpsrv04.sig_chld (.fork p) = some t) :
    s.pc = .fork ∧ p ∉ s.children.live ∧ t.pc = .close ∧
      t.children.live = s.children.live ++ [p] := by
  cases ForkServer.State.step_move h with
  | fork hidle hpc hfork =>
      obtain ⟨hfresh, hlive⟩ := Children.fork_live hfork
      exact ⟨hpc, hfresh, rfl, hlive⟩

theorem childExit_of_exit {t : ForkServer.State} {p : Pid} {c : Children Pid}
    (h : t.children.exit p = some c) : childExit t p = { t with children := c } := by
  rw [childExit, h, Option.getD_some]

theorem childExit_of_not_mem {t : ForkServer.State} {p : Pid}
    (hp : p ∉ t.children.live) : childExit t p = t := by
  rw [childExit, Children.exit_of_not_mem hp, Option.getD_none]

/-- What the parent sees of the clients is a run of its own model. -/
def toServer (n C₁ C₂ : Nat) (file : Fin n → List Byte) :
    Refinement (system C₁ C₂ file) (ForkServer.system Tcpsrv04.sig_chld) :=
  .ofStep State.server (fun _ hs => hs.server) fun s l t _ hstep => by
    cases step_move hstep with
    | @exit i p l hchild hserver =>
        by_cases hp : p ∈ s.server.children.live
        · obtain ⟨c, hexit⟩ := Children.exit_of_mem hp
          refine .inr ⟨.exit p, ?_⟩
          change (s.server.children.exit p).map _ = some (childExit s.server p)
          rw [childExit_of_exit hexit, hexit]
          rfl
        · exact .inl (childExit_of_not_mem hp)
    | accept hbacklog hserver => exact .inr ⟨.acceptOk, hserver⟩
    | @fork i p t hconnfd hserver => exact .inr ⟨.fork p, hserver⟩
    | @parent a t ha hserver => exact .inr ⟨a, hserver⟩
    | _ => exact .inl rfl

end Processes

section Placement

/-- Where each connection is: not made, with the kernel, with the parent, or with
a child. -/
structure Placed (s : State n C₁ C₂) : Prop where
  started : ∀ i, s.phase i = .start →
    s.child i = none ∧ i ∉ s.backlog ∧ s.connfd ≠ some i
  connected : ∀ i, s.phase i ≠ .start →
    i ∈ s.backlog ∨ s.connfd = some i ∨ s.child i ≠ none
  backlog : s.backlog.Nodup
  queued : ∀ i ∈ s.backlog, s.child i = none ∧ s.connfd ≠ some i
  inHand : ∀ i, s.connfd = some i → s.child i = none
  pc : s.server.pc ≠ .ended → (s.server.pc = .fork ↔ s.connfd ≠ none)

theorem Placed.step {s t : State n C₁ C₂} {l : Act n} (h : Placed s)
    (hstep : (system C₁ C₂ file).step s l = some t) : Placed t := by
  obtain ⟨hstarted, hconnected, hnodup, hqueued, hinHand, hpc⟩ := h
  cases step_move hstep with
  | @connect i hphase hended =>
      obtain ⟨hchild, hnot, hconnfd⟩ := hstarted i hphase
      have hother : ∀ j, Function.update s.phase i .running j = .start →
          j ≠ i ∧ s.phase j = .start := by
        intro j hj
        rcases eq_or_ne j i with rfl | hne
        · simp at hj
        · exact ⟨hne, by simpa [hne] using hj⟩
      refine ⟨?_, ?_, ?_, ?_, hinHand, hpc⟩
      · intro j hj
        obtain ⟨hne, hj⟩ := hother j hj
        obtain ⟨h1, h2, h3⟩ := hstarted j hj
        exact ⟨h1, by simp [h2, hne], h3⟩
      · intro j hj
        rcases eq_or_ne j i with rfl | hne
        · exact .inl (by simp)
        · refine (hconnected j (by simpa [hne] using hj)).imp_left ?_
          exact List.mem_append_left _
      · exact List.nodup_append.mpr ⟨hnodup, List.nodup_singleton i, by
          rintro a ha b hb rfl
          rw [List.mem_singleton.mp hb] at ha
          exact hnot ha⟩
      · intro j hj
        rcases List.mem_append.mp hj with hj | hj
        · exact hqueued j hj
        · rw [List.mem_singleton.mp hj]
          exact ⟨hchild, hconnfd⟩
  | client hphase hclient hclientStep =>
      exact ⟨hstarted, hconnected, hnodup, hqueued, hinHand, hpc⟩
  | @quit i hphase hreturned =>
      refine ⟨fun j hj => ?_, fun j hj => ?_, hnodup, hqueued, hinHand, hpc⟩
      · rcases eq_or_ne j i with rfl | hne
        · simp at hj
        · exact hstarted j (by simpa [hne] using hj)
      · rcases eq_or_ne j i with rfl | hne
        · exact hconnected j (by simp [hphase])
        · exact hconnected j (by simpa [hne] using hj)
  | serve hchild ha hserver =>
      exact ⟨hstarted, hconnected, hnodup, hqueued, hinHand, hpc⟩
  | @exit i p l hchild hserver =>
      exact ⟨hstarted, hconnected, hnodup, hqueued, hinHand, hpc⟩
  | @accept i rest t hbacklog hserver =>
      obtain ⟨haccept, rfl⟩ := accept_step hserver
      rw [hbacklog] at hstarted hconnected hnodup hqueued
      obtain ⟨hfresh, hrest⟩ := List.nodup_cons.mp hnodup
      have hnone : s.connfd = none := by
        rw [haccept] at hpc
        simpa using hpc
      refine ⟨?_, ?_, hrest, ?_, ?_, fun _ => by simp⟩
      · intro j hj
        obtain ⟨h1, h2, -⟩ := hstarted j hj
        rw [List.mem_cons, not_or] at h2
        exact ⟨h1, h2.2, by simpa [eq_comm] using h2.1⟩
      · intro j hj
        rcases hconnected j hj with hmem | hj | hj
        · rcases List.mem_cons.mp hmem with rfl | hmem
          · exact .inr (.inl rfl)
          · exact .inl hmem
        · rw [hnone] at hj
          cases hj
        · exact .inr (.inr hj)
      · intro j hj
        refine ⟨(hqueued j (List.mem_cons_of_mem _ hj)).1, ?_⟩
        rintro heq
        obtain rfl := Option.some.inj heq
        exact hfresh hj
      · intro j heq
        obtain rfl := Option.some.inj heq
        exact (hqueued i List.mem_cons_self).1
  | @fork i p t hconnfd hserver =>
      obtain ⟨-, -, hclose, -⟩ := fork_step hserver
      have hother : ∀ j, s.connfd ≠ some j →
          Function.update s.child i (some p) j = s.child j := by
        intro j hj
        refine Function.update_of_ne ?_ ..
        rintro rfl
        exact hj hconnfd
      refine ⟨?_, ?_, hnodup, ?_, nofun, fun _ => by simp [hclose]⟩
      · intro j hj
        obtain ⟨h1, h2, h3⟩ := hstarted j hj
        exact ⟨(hother j h3).trans h1, h2, by simp⟩
      · intro j hj
        by_cases hij : s.connfd = some j
        · rw [hconnfd] at hij
          obtain rfl := Option.some.inj hij
          exact .inr (.inr (by simp))
        · rcases hconnected j hj with hmem | hmem | hmem
          · exact .inl hmem
          · exact absurd hmem hij
          · refine .inr (.inr ?_)
            change Function.update s.child i (some p) j ≠ none
            rwa [hother j hij]
      · intro j hj
        obtain ⟨h1, h2⟩ := hqueued j hj
        exact ⟨(hother j h2).trans h1, by simp⟩
  | parent ha hserver =>
      refine ⟨hstarted, hconnected, hnodup, hqueued, hinHand, ?_⟩
      rcases parent_step ha hserver with ⟨hended, -⟩ | ⟨-, hended, hfork⟩
      · exact fun hne => absurd hended hne
      · intro hne
        exact hfork.trans (hpc (mt hended.mpr hne))

theorem reachable_placed {s : State n C₁ C₂} (h : (system C₁ C₂ file).Reachable s) :
    Placed s := by
  refine h.invariant ?_ fun s l t _ hs hstep => hs.step hstep
  rintro s ⟨hphase, -, hbacklog, hconnfd, hchild, errno, hserver⟩
  constructor
  · intro i _
    exact ⟨hchild i, by simp [hbacklog], by simp [hconnfd]⟩
  · intro i hi
    exact absurd (hphase i) hi
  · simp [hbacklog]
  · simp [hbacklog]
  · simp [hconnfd]
  · simp [hserver, hconnfd, ForkServer.State.start]

end Placement

section Sessions

abbrev pair (C₁ C₂ : Nat) (input : List Byte) :
    System (StopAndWaitClient.State C₁ C₂) StopAndWaitClient.Act :=
  StopAndWaitClient.system C₁ C₂ .short input

structure Gone (input : List Byte) (c : StopAndWaitClient.State C₁ C₂) : Prop where
  complete : ∀ x ∈ chunks input, Answered x = true
  stdout : c.stdout = (answered input).flatten
  link : c.link.Ok
  closed : c.link.request.closed = true
  empty : c.link.inFlight = []

/-- Until its client exits, a session is a run of the one client and the one server
by themselves. -/
def SessionOk (input : List Byte) : Phase → StopAndWaitClient.State C₁ C₂ → Prop
  | .start, c => c = .start input
  | .running, c => (pair C₁ C₂ input).Reachable c
  | .exited, c => Gone input c

theorem Gone.serverStep {input : List Byte} {c : StopAndWaitClient.State C₁ C₂}
    {a : ServerAct} {l : Link C₁ C₂} (h : Gone input c)
    (hserver : c.link.serverStep .short a = some l) :
    Gone input { c with link := l } where
  complete := h.complete
  stdout := h.stdout
  link := h.link.serverStep hserver
  closed := (Link.serverStep_request_closed hserver).trans h.closed
  empty := (Link.serverStep_inFlight hserver).trans h.empty

theorem SessionOk.serverStep {input : List Byte} {ph : Phase}
    {c : StopAndWaitClient.State C₁ C₂} {a : ServerAct} {l : Link C₁ C₂}
    (h : SessionOk input ph c) (hph : ph ≠ .start)
    (hserver : c.link.serverStep .short a = some l) :
    SessionOk input ph { c with link := l } := by
  cases ph with
  | start => exact absurd rfl hph
  | running =>
      have hstep : (pair C₁ C₂ input).step c (.server a) = some { c with link := l } := by
        change (c.link.serverStep .short a).map _ = _
        rw [hserver]
        rfl
      exact System.Reachable.step h hstep
  | exited => exact Gone.serverStep h hserver

theorem gone_of_returned {input : List Byte} {c : StopAndWaitClient.State C₁ C₂}
    (h : (pair C₁ C₂ input).Reachable c) (hpc : c.pc = .returned) :
    Gone input { c with link := c.link.shutdown } := by
  have hinv := reachable_inv h
  obtain ⟨hout, hall⟩ := stdout_answered h (.inl hpc)
  have hex := hinv.exchange
  simp only [Exchange, hpc, returning, List.append_eq_nil_iff] at hex
  exact ⟨hall.mp hpc, hout, hinv.link.shutdown, rfl, hex.2.1.2⟩

structure Sessions (file : Fin n → List Byte) (s : State n C₁ C₂) : Prop where
  ok : ∀ i, SessionOk (file i) (s.phase i) (s.session i)
  reading : ∀ i, s.child i = none → (s.session i).link.server = .reading

theorem Sessions.step {s t : State n C₁ C₂} {l : Act n} (hplaced : Placed s)
    (h : Sessions file s) (hstep : (system C₁ C₂ file).step s l = some t) :
    Sessions file t := by
  obtain ⟨hok, hreading⟩ := h
  have hserve : ∀ i, s.child i ≠ none → s.phase i ≠ .start :=
    fun i hchild hphase => hchild (hplaced.started i hphase).1
  -- one session is replaced, and its phase stays
  have hone : ∀ i (c : StopAndWaitClient.State C₁ C₂), SessionOk (file i) (s.phase i) c →
      (s.child i = none → c.link.server = .reading) → Sessions file (s.setSession i c) := by
    intro i c hc hr
    constructor
    · intro j
      rcases eq_or_ne j i with rfl | hne
      · simpa using hc
      · simpa [hne] using hok j
    · intro j hj
      rcases eq_or_ne j i with rfl | hne
      · simpa using hr hj
      · simpa [hne] using hreading j hj
  cases step_move hstep with
  | @connect i hphase hended =>
      refine ⟨fun j => ?_, hreading⟩
      rcases eq_or_ne j i with rfl | hne
      · have hstart := hok j
        rw [hphase] at hstart
        change SessionOk (file j) (Function.update s.phase j .running j) _
        rw [Function.update_self]
        exact ⟨[], _, hstart, rfl⟩
      · simpa [hne] using hok j
  | @client i a c hphase hclient hclientStep =>
      refine hone i c ?_ fun hchild =>
        (link_of_client hclient hclientStep).trans (hreading i hchild)
      have hrun := hok i
      rw [hphase] at hrun ⊢
      exact System.Reachable.step hrun hclientStep
  | @quit i hphase hpc =>
      have hrun := hok i
      rw [hphase] at hrun
      have hreturned : (s.session i).pc = .returned := by
        refine hpc.resolve_right fun hquit => ?_
        have hex := (reachable_inv hrun).exchange
        rw [Exchange, hquit] at hex
        exact hex
      constructor
      · intro j
        rcases eq_or_ne j i with rfl | hne
        · simpa [SessionOk] using gone_of_returned hrun hreturned
        · simpa [hne] using hok j
      · intro j hj
        rcases eq_or_ne j i with rfl | hne
        · simpa [Link.shutdown] using hreading j hj
        · simpa [hne] using hreading j hj
  | @serve i a l hchild ha hserver =>
      exact hone i _ ((hok i).serverStep (hserve i hchild) hserver)
        fun hnone => absurd hnone hchild
  | @exit i p l hchild hserver =>
      have hne : s.child i ≠ none := by simp [hchild]
      obtain ⟨hok, hreading⟩ := hone i _ ((hok i).serverStep (hserve i hne) hserver)
        fun hnone => absurd hnone hne
      exact ⟨hok, hreading⟩
  | accept hbacklog hserver => exact ⟨hok, hreading⟩
  | @fork i p t hconnfd hserver =>
      refine ⟨hok, fun j hj => hreading j ?_⟩
      change Function.update s.child i (some p) j = none at hj
      rcases eq_or_ne j i with rfl | hne
      · simp at hj
      · simpa [hne] using hj
  | parent ha hserver => exact ⟨hok, hreading⟩

theorem reachable_sessions {s : State n C₁ C₂} (h : (system C₁ C₂ file).Reachable s) :
    Sessions file s := by
  refine h.invariant ?_ fun s l t hs hsess hstep => hsess.step (reachable_placed hs) hstep
  rintro s ⟨hphase, hsession, -, -, -, -⟩
  constructor
  · intro i
    rw [hphase i]
    exact hsession i
  · intro i _
    rw [hsession i]
    rfl

end Sessions

section Serving

def InUse (s : State n C₁ C₂) (i : Fin n) : Prop := (s.session i).link.server ≠ .exited

/-- While the parent runs, its living children are those that serve a connection,
each one of its own. -/
structure Serving (s : State n C₁ C₂) : Prop where
  live : s.server.pc ≠ .ended → ∀ p, p ∈ s.server.children.live ↔
    ∃ i, s.child i = some p ∧ InUse s i
  own : s.server.pc ≠ .ended → ∀ i j p, s.child i = some p → s.child j = some p →
    InUse s i → InUse s j → i = j
  nodup : s.server.children.live.Nodup

theorem Serving.congr {s t : State n C₁ C₂} (h : Serving s) (hchild : t.child = s.child)
    (hpc : t.server.pc ≠ .ended → s.server.pc ≠ .ended)
    (hlive : t.server.pc ≠ .ended → t.server.children.live = s.server.children.live)
    (hnodup : t.server.children.live.Nodup) (huse : ∀ i, InUse t i ↔ InUse s i) :
    Serving t := by
  refine ⟨fun ht p => ?_, fun ht i j p => ?_, hnodup⟩
  · rw [hlive ht, hchild, h.live (hpc ht)]
    simp only [huse]
  · rw [hchild, huse i, huse j]
    exact h.own (hpc ht) i j p

theorem inUse_setSession {s : State n C₁ C₂} {i : Fin n}
    {c : StopAndWaitClient.State C₁ C₂} (j : Fin n)
    (hc : c.link.server ≠ .exited ↔ InUse s i) :
    InUse (s.setSession i c) j ↔ InUse s j := by
  rcases eq_or_ne j i with rfl | hne
  · simpa [InUse] using hc
  · simp [InUse, hne]

theorem Serving.step {s t : State n C₁ C₂} {l : Act n} (hplaced : Placed s)
    (hsess : Sessions file s) (h : Serving s)
    (hstep : (system C₁ C₂ file).step s l = some t) : Serving t := by
  cases step_move hstep with
  | connect hphase hended => exact ⟨h.live, h.own, h.nodup⟩
  | @client i a c hphase hclient hclientStep =>
      have hsame := link_of_client hclient hclientStep
      exact h.congr rfl id (fun _ => rfl) h.nodup fun j =>
        inUse_setSession j (by rw [hsame, InUse])
  | @quit i hphase hpc =>
      exact h.congr rfl id (fun _ => rfl) h.nodup fun j =>
        inUse_setSession (s := s) j Iff.rfl
  | @serve i a l hchild ha hserver =>
      obtain ⟨hbefore, hafter⟩ := not_exited_of_serve ha hserver
      exact h.congr rfl id (fun _ => rfl) h.nodup fun j =>
        inUse_setSession j (iff_of_true hafter hbefore)
  | @exit i p l hchild hserver =>
      have hreturned : (s.session i).link.server = .returned ∧ l.server = .exited := by
        cases Link.serverStep_move hserver with
        | exit hreturned => exact ⟨hreturned, rfl⟩
      have huse : InUse s i := by simp [InUse, hreturned.1]
      have hinUse : ∀ j, InUse { s.setLink i l with server := childExit s.server p } j ↔
          j ≠ i ∧ InUse s j := by
        intro j
        rcases eq_or_ne j i with rfl | hne
        · simp [InUse, hreturned.2]
        · simp [InUse, hne]
      by_cases hp : p ∈ s.server.children.live
      · obtain ⟨c, hexit⟩ := Children.exit_of_mem hp
        obtain ⟨hnodup, hlive⟩ := Children.exit_live hexit h.nodup
        rw [childExit_of_exit hexit] at hinUse ⊢
        refine ⟨fun ht q => ?_, fun ht j k q hj hk hju hku => ?_, hnodup⟩
        · refine (hlive q).trans ?_
          rw [h.live ht q]
          constructor
          · rintro ⟨hne, j, hj, hju⟩
            refine ⟨j, hj, (hinUse j).mpr ⟨?_, hju⟩⟩
            rintro rfl
            rw [hchild] at hj
            exact hne (Option.some.inj hj).symm
          · rintro ⟨j, hj, hju⟩
            obtain ⟨hne, hju⟩ := (hinUse j).mp hju
            refine ⟨?_, j, hj, hju⟩
            rintro rfl
            exact hne (h.own ht j i q hj hchild hju huse)
        · exact h.own ht j k q hj hk ((hinUse j).mp hju).2 ((hinUse k).mp hku).2
      · rw [childExit_of_not_mem hp]
        have hended : s.server.pc = .ended := by
          by_contra hne
          exact hp ((h.live hne p).mpr ⟨i, hchild, huse⟩)
        exact ⟨fun ht => absurd hended ht, fun ht => absurd hended ht, h.nodup⟩
  | accept hbacklog hserver =>
      obtain ⟨haccept, rfl⟩ := accept_step hserver
      exact h.congr rfl (fun _ => by simp [haccept]) (fun _ => rfl) h.nodup fun _ => Iff.rfl
  | @fork i p t hconnfd hserver =>
      obtain ⟨hfork, hfresh, -, hlive⟩ := fork_step hserver
      have hpc : s.server.pc ≠ .ended := by simp [hfork]
      have hnone := hplaced.inHand i hconnfd
      have huse : InUse s i := by simp [InUse, hsess.reading i hnone]
      have hold : ∀ j, s.child j = some p → ¬InUse s j :=
        fun j hj hju => hfresh ((h.live hpc p).mpr ⟨j, hj, hju⟩)
      have hchild : ∀ j q, Function.update s.child i (some p) j = some q ↔
          j = i ∧ q = p ∨ j ≠ i ∧ s.child j = some q := by
        intro j q
        rcases eq_or_ne j i with rfl | hne
        · simp [eq_comm]
        · simp [hne]
      refine ⟨fun _ q => ?_, fun _ j k q hj hk hju hku => ?_, ?_⟩
      · change q ∈ t.children.live ↔
          ∃ j, Function.update s.child i (some p) j = some q ∧ InUse s j
        rw [hlive, List.mem_append, List.mem_singleton, h.live hpc q]
        constructor
        · rintro (⟨j, hj, hju⟩ | rfl)
          · refine ⟨j, (hchild j q).mpr (.inr ⟨?_, hj⟩), hju⟩
            rintro rfl
            rw [hnone] at hj
            cases hj
          · exact ⟨i, (hchild i q).mpr (.inl ⟨rfl, rfl⟩), huse⟩
        · rintro ⟨j, hj, hju⟩
          rcases (hchild j q).mp hj with ⟨-, rfl⟩ | ⟨-, hj⟩
          · exact .inr rfl
          · exact .inl ⟨j, hj, hju⟩
      · rcases (hchild j q).mp hj with ⟨rfl, rfl⟩ | ⟨-, hjq⟩
        · rcases (hchild k q).mp hk with ⟨rfl, -⟩ | ⟨-, hkq⟩
          · rfl
          · exact absurd hku (hold k hkq)
        · rcases (hchild k q).mp hk with ⟨-, rfl⟩ | ⟨-, hkq⟩
          · exact absurd hju (hold j hjq)
          · exact h.own hpc j k q hjq hkq hju hku
      · change t.children.live.Nodup
        rw [hlive]
        exact List.nodup_append.mpr ⟨h.nodup, List.nodup_singleton p, by
          rintro a ha b hb rfl
          rw [List.mem_singleton.mp hb] at ha
          exact hfresh ha⟩
  | parent ha hserver =>
      rcases parent_step ha hserver with ⟨hended, hempty⟩ | ⟨hlive, hended, -⟩
      · refine ⟨fun ht => absurd hended ht, fun ht => absurd hended ht, ?_⟩
        rw [hempty]
        exact List.nodup_nil
      · refine h.congr rfl (mt hended.mpr) (fun _ => hlive) ?_ fun _ => Iff.rfl
        rw [hlive]
        exact h.nodup

theorem reachable_serving {s : State n C₁ C₂} (h : (system C₁ C₂ file).Reachable s) :
    Serving s := by
  refine h.invariant ?_ fun s l t hs hserving hstep =>
    hserving.step (reachable_placed hs) (reachable_sessions hs) hstep
  rintro s ⟨-, -, -, -, hchild, errno, hserver⟩
  constructor <;> simp [hserver, hchild, ForkServer.State.start, Children.empty]

end Serving

end MyUnp.ForkEcho
