import MyUnp.SelectClient

namespace MyUnp.SelectClientEcho

open MyUnp.TransitionSystem
open MyUnp.Fifo
open MyUnp.Unp
open MyUnp.EchoServer
open MyUnp.SelectClient

variable {C₁ C₂ : Nat}

/-- Everything read from `fp` that is not on `stdout` yet, oldest first. -/
def content (s : State C₁ C₂) : List Byte :=
  s.pc.unwritten ++ s.link.inFlight ++ s.pc.unsent

def toPipe (s : State C₁ C₂) : Pipe Byte :=
  ⟨s.consumed, s.stdout, content s⟩

theorem exists_pipe_run {R : ReadRule} {s t : State C₁ C₂} {a : Act}
    (h : s.step R a = some t) :
    ∃ ks, (pipe Byte).run (toPipe s) ks = some (toPipe t) := by
  cases State.step_move h with
  | arm hpc => exact ⟨[], by simp [toPipe, content, hpc, Pc.unwritten, Pc.unsent]⟩
  | select hpc => exact ⟨[], by simp [toPipe, content, hpc, Pc.unwritten, Pc.unsent]⟩
  | skipSock hpc hset =>
      exact ⟨[], by simp [toPipe, content, hpc, Pc.unwritten, Pc.unsent]⟩
  | readSock hpc hrecv =>
      refine ⟨[], ?_⟩
      simp [toPipe, content, hpc, Pc.unwritten, Pc.unsent,
        ← Link.receive_inFlight hrecv]
  | readSockEof hpc heof =>
      refine ⟨[], ?_⟩
      cases s.stdineof <;> simp [toPipe, content, hpc, Pc.unwritten, Pc.unsent]
  | @write buf hpc =>
      refine ⟨[.leave buf.length], ?_⟩
      simp [pipe, toPipe, content, hpc, Pc.unwritten, Pc.unsent]
  | skipInput hpc =>
      exact ⟨[], by simp [toPipe, content, hpc, Pc.unwritten, Pc.unsent]⟩
  | @readInput k hpc hset hk =>
      refine ⟨[.enter (s.input.take k)], ?_⟩
      simp [pipe, toPipe, content, hpc, Pc.unwritten, Pc.unsent]
  | readInputEof hpc hset hinput =>
      exact ⟨[], by simp [toPipe, content, hpc, Pc.unwritten, Pc.unsent]⟩
  | shutdown hpc =>
      exact ⟨[], by simp [toPipe, content, hpc, Pc.unwritten, Pc.unsent]⟩
  | send hpc hsend =>
      refine ⟨[], ?_⟩
      simp [toPipe, content, hpc, Pc.unwritten, Pc.unsent,
        Link.send_inFlight hsend]
  | writenReturn hpc =>
      exact ⟨[], by simp [toPipe, content, hpc, Pc.unwritten, Pc.unsent]⟩
  | server hserver =>
      exact ⟨[], by simp [toPipe, content, Link.serverStep_inFlight hserver]⟩

def pipeRefinement (R : ReadRule) (input : List Byte) :
    Refinement (system C₁ C₂ R input) (pipe Byte) where
  abs := toPipe
  init := by
    rintro s rfl
    rfl
  step := fun _ _ _ _ h => exists_pipe_run h

/-- Which half of the connection is open, and whether `fp` is still armed, at
each program point. -/
def Control (s : State C₁ C₂) : Prop :=
  match s.pc with
  | .shutdown => s.stdineof = true ∧ s.link.request.closed = false
  | .writen _ => s.stdineof = false ∧ s.link.request.closed = false
  | .returned =>
      s.stdineof = true ∧ s.link.request.closed = true ∧ s.link.inFlight = []
  | .errQuit => False
  | _ =>
      s.link.request.closed = s.stdineof ∧
        (s.stdineof = true → s.rset.fp = false)

structure Inv (input : List Byte) (s : State C₁ C₂) : Prop where
  link : s.link.Ok
  supply : s.consumed ++ s.input = input
  sent : s.sent ++ s.pc.unsent = s.consumed
  eof : s.stdineof = true → s.input = []
  control : Control s

theorem inv_start (input : List Byte) :
    Inv input (State.start input : State C₁ C₂) where
  link := Link.start_ok
  supply := rfl
  sent := rfl
  eof h := nomatch h
  control := ⟨rfl, fun h => nomatch h⟩

theorem Inv.step {R : ReadRule} {input : List Byte} {s t : State C₁ C₂}
    {a : Act} (hs : Inv input s) (h : s.step R a = some t) : Inv input t := by
  obtain ⟨hlink, hsupply, hsent, heof, hctl⟩ := hs
  cases State.step_move h with
  | arm hpc =>
      simp only [hpc, Control] at hsent hctl
      refine ⟨hlink, hsupply, hsent, heof, hctl.1,
        fun (hstdin : s.stdineof = true) => ?_⟩
      simp [hctl.2 hstdin, hstdin]
  | select hpc =>
      simp only [hpc, Control] at hsent hctl
      refine ⟨hlink, hsupply, hsent, heof, hctl.1,
        fun (hstdin : s.stdineof = true) => ?_⟩
      simp [State.ready, hctl.2 hstdin]
  | skipSock hpc hset =>
      simp only [hpc, Control] at hsent hctl
      exact ⟨hlink, hsupply, hsent, heof, hctl⟩
  | readSock hpc hrecv =>
      simp only [hpc, Control] at hsent hctl
      obtain ⟨-, -, -, -, hrequest, -⟩ := Link.receive_eq_some hrecv
      exact ⟨hlink.receive hrecv, hsupply, hsent, heof, hrequest ▸ hctl.1, hctl.2⟩
  | readSockEof hpc hend =>
      simp only [hpc, Control] at hsent hctl
      -- the server has closed, so it had read our end of file
      obtain ⟨hempty, hclosed⟩ := hlink.reply_atEof hend
      have hstdin : s.stdineof = true := hctl.1 ▸ hclosed
      refine ⟨hlink, hsupply, ?_, heof, ?_⟩
      · simpa [hstdin, Pc.unsent] using hsent
      · simp [Control, hstdin, hclosed, hempty]
  | write hpc =>
      simp only [hpc, Control] at hsent hctl
      exact ⟨hlink, hsupply, hsent, heof, hctl⟩
  | skipInput hpc =>
      simp only [hpc, Control] at hsent hctl
      exact ⟨hlink, hsupply, hsent, heof, hctl⟩
  | readInput hpc hset hk =>
      simp only [hpc, Control, hset] at hsent hctl
      have hstdin : s.stdineof = false := by simpa using hctl.2
      refine ⟨hlink, ?_, ?_, ?_, hstdin, hctl.1.trans hstdin⟩
      · simpa using hsupply
      · simpa [Pc.unsent] using hsent
      · simp [hstdin]
  | readInputEof hpc hset hinput =>
      simp only [hpc, Control, hset] at hsent hctl
      have hstdin : s.stdineof = false := by simpa using hctl.2
      exact ⟨hlink, hsupply, hsent, fun _ => hinput, rfl, hctl.1.trans hstdin⟩
  | shutdown hpc =>
      simp only [hpc, Control] at hsent hctl
      exact ⟨hlink.shutdown, hsupply, hsent, heof, hctl.1.symm, fun _ => rfl⟩
  | send hpc hsend =>
      simp only [hpc, Control, Pc.unsent] at hsent hctl
      obtain ⟨-, -, -, hopen, -, -⟩ := Link.send_eq_some hsend
      refine ⟨hlink.send hsend, hsupply, ?_, heof, hctl.1, hopen⟩
      simpa [Pc.unsent] using hsent
  | writenReturn hpc =>
      simp only [hpc, Control] at hsent hctl
      refine ⟨hlink, hsupply, hsent, heof, hctl.2.trans hctl.1.symm, ?_⟩
      simp [hctl.1]
  | server hserver =>
      have hclosed := Link.serverStep_request_closed hserver
      have hflight := Link.serverStep_inFlight hserver
      refine ⟨hlink.serverStep hserver, hsupply, hsent, heof, ?_⟩
      simpa only [Control, hclosed, hflight] using hctl

theorem reachable_inv {R : ReadRule} {input : List Byte} {s : State C₁ C₂}
    (h : (system C₁ C₂ R input).Reachable s) : Inv input s := by
  refine h.invariant ?_ fun _ _ _ _ hs hstep => hs.step hstep
  rintro s rfl
  exact inv_start input

structure History (ls : List Act) (s : State C₁ C₂) : Prop where
  shutdowns : ls.count .shutdown = s.link.request.closed.toNat
  eof : Act.readInputEof ∈ ls → s.stdineof = true

theorem trace_history {R : ReadRule} {input : List Byte} {ls : List Act}
    {s : State C₁ C₂} (h : (system C₁ C₂ R input).Trace ls s) : History ls s := by
  refine h.induct ?_ ?_
  · rintro s rfl
    exact ⟨rfl, by simp⟩
  · intro ls s a t htrace hs hstep
    have hctl := (reachable_inv htrace.reachable).control
    obtain ⟨hcount, heof⟩ := hs
    cases State.step_move hstep with
    | shutdown hpc =>
        simp only [Control, hpc] at hctl
        refine ⟨?_, by simpa using heof⟩
        simp [hcount, hctl.2, Link.shutdown]
    | readInputEof hpc hset hinput => exact ⟨by simpa using hcount, fun _ => rfl⟩
    | readSock hpc hrecv =>
        obtain ⟨-, -, -, -, hrequest, -⟩ := Link.receive_eq_some hrecv
        exact ⟨by simpa [hrequest] using hcount, by simpa using heof⟩
    | send hpc hsend =>
        obtain ⟨hopen, -, -, hopen', -, -⟩ := Link.send_eq_some hsend
        exact ⟨by simpa [hopen, hopen'] using hcount, by simpa using heof⟩
    | server hserver =>
        have hclosed := Link.serverStep_request_closed hserver
        exact ⟨by simpa [hclosed] using hcount, by simpa using heof⟩
    | _ => exact ⟨by simpa using hcount, by simpa using heof⟩

theorem Inv.sent_of_shutdown {R : ReadRule} {input : List Byte}
    {s t : State C₁ C₂} (hs : Inv input s)
    (h : s.step R .shutdown = some t) : s.sent = input := by
  cases State.step_move h with
  | shutdown hpc =>
      have hctl := hs.control
      have hsent := hs.sent
      simp only [Control, hpc] at hctl hsent
      have hsupply := hs.supply
      rw [hs.eof hctl.1, List.append_nil] at hsupply
      rw [← hsupply, ← hsent]
      exact (List.append_nil _).symm

theorem Inv.no_readInput {R : ReadRule} {input : List Byte} {s : State C₁ C₂}
    (hs : Inv input s) (hstdin : s.stdineof = true) (k : Nat) :
    s.step R (.readInput k) = none ∧ s.step R .readInputEof = none := by
  have hctl := hs.control
  have hfp : s.pc = .testInput → s.rset.fp = false := by
    intro hpc
    simp only [Control, hpc] at hctl
    exact hctl.2 hstdin
  by_cases hpc : s.pc = .testInput
  · simp [State.step, hpc, hfp hpc]
  · simp [State.step, hpc]

theorem Inv.stdout_of_returned {R : ReadRule} {input : List Byte}
    {s : State C₁ C₂} (hs : Inv input s)
    (hreach : (system C₁ C₂ R input).Reachable s) (hpc : s.pc = .returned) :
    s.stdout = input := by
  have hctl := hs.control
  simp only [Control, hpc] at hctl
  have hempty : content s = [] := by
    simp [content, hpc, hctl.2.2, Pc.unwritten, Pc.unsent]
  have hdrained : s.stdout = s.consumed :=
    pipe_drained ((pipeRefinement R input).reachable hreach) hempty
  have hsupply := hs.supply
  rw [hs.eof hctl.1, List.append_nil] at hsupply
  exact hdrained.trans hsupply

/-- Every run of the select client against the echo server: output follows
input, and the half-close comes once, after the last byte and before the
return. -/
theorem strCli_endToEnd (C₁ C₂ : Nat) (input : List Byte) (ls : List Act)
    (s : State C₁ C₂) (h : (system C₁ C₂ .short input).Trace ls s) :
    s.stdout <+: input ∧
      ls.count .shutdown ≤ 1 ∧
      (∀ t, s.step .short .shutdown = some t → s.sent = input) ∧
      (Act.readInputEof ∈ ls → ∀ k,
        s.step .short (.readInput k) = none ∧ s.step .short .readInputEof = none) ∧
      s.pc ≠ .errQuit ∧
      (s.pc = .returned → Act.shutdown ∈ ls ∧ s.stdout = input) := by
  have hreach := h.reachable
  have hinv := reachable_inv hreach
  have hhist := trace_history h
  have hctl := hinv.control
  refine ⟨?_, ?_, fun t ht => hinv.sent_of_shutdown ht,
    fun heof k => hinv.no_readInput (hhist.eof heof) k, ?_, fun hpc => ⟨?_, ?_⟩⟩
  · have hprefix : s.stdout <+: s.consumed :=
      pipe_prefix ((pipeRefinement .short input).reachable hreach)
    exact hprefix.trans ⟨s.input, hinv.supply⟩
  · rw [hhist.shutdowns]
    exact Bool.toNat_le _
  · intro hpc
    simp only [Control, hpc] at hctl
  · simp only [Control, hpc] at hctl
    apply List.count_pos_iff.mp
    rw [hhist.shutdowns, hctl.2.1]
    decide
  · exact hinv.stdout_of_returned hreach hpc

def twoByteRun : List Act :=
  [.arm, .select true, .skipSock, .readInput 2, .send, .server (.read 1),
    .server .write, .send, .writenReturn, .arm, .select true, .readSock 1,
    .write, .readInputEof, .shutdown, .arm, .server .writenReturn,
    .server .readEintr, .server (.read 1), .server .write,
    .server .writenReturn, .server .readEof, .select false, .readSock 1,
    .write, .skipInput, .arm, .server .exit, .select false, .readSockEof]

theorem strCli_endToEnd_twoBytes : ∃ s : State 1 1,
    (system 1 1 .short [104, 105]).Trace twoByteRun s ∧ s.pc = .returned ∧
      s.stdout = [104, 105] := by
  obtain ⟨s, hrun⟩ : ∃ s : State 1 1,
      (system 1 1 .short [104, 105]).run (.start [104, 105]) twoByteRun = some s ∧
        s.pc = .returned := ⟨_, rfl, rfl⟩
  have htrace : (system 1 1 .short [104, 105]).Trace twoByteRun s :=
    ⟨_, rfl, hrun.1⟩
  have hfacts := strCli_endToEnd 1 1 [104, 105] twoByteRun s htrace
  exact ⟨s, htrace, hrun.2, (hfacts.2.2.2.2.2 hrun.2).2⟩

end MyUnp.SelectClientEcho
