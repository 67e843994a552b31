import MyUnp.ForkEcho

namespace MyUnp.ForkEcho

open MyUnp.ChildProcesses
open MyUnp.EchoServer
open MyUnp.Fifo
open MyUnp.ForkServer
open MyUnp.LinePieces
open MyUnp.StopAndWaitHang
open MyUnp.StopAndWaitProgress
open MyUnp.StopAndWaitSync
open MyUnp.TransitionSystem
open MyUnp.Unp

variable {n C₁ C₂ : Nat} {file : Fin n → List Byte}

section Rank

def pcRank (t : ForkServer.State) : Nat :=
  match t.pc with
  | .accept => if t.interrupted then 4 else 2
  | .testErrno _ => if t.errno = EINTR then 3 else 1
  | .fork => 4
  | .close => 3
  | .ended => 0

def handlerRank : HandlerPc → Nat
  | .idle => 0
  | .ret => 1
  | .wait => 2
  | .printf _ => 5

def serverRank (t : ForkServer.State) : Nat :=
  4 * t.children.zombies.length + 5 * t.children.pending.toNat +
    handlerRank t.handler + pcRank t

theorem serverRank_step {s t : ForkServer.State} {a : ForkServer.Act}
    (ha : isParent a = true) (h : s.step Tcpsrv04.sig_chld a = some t) :
    serverRank t + 1 ≤ serverRank s := by
  unfold serverRank
  cases ForkServer.State.step_move h with
  | exit hexit => cases ha
  | stop hstop => cases ha
  | @deliver c hidle hdeliver =>
      obtain ⟨hpending, rfl⟩ := guard_eq_some.mp hdeliver
      have hpc : pcRank { s with interrupted := s.interrupted || s.pc == .accept } ≤
          pcRank s + 2 := by
        unfold pcRank
        cases s.pc <;> simp
        split <;> omega
      have hhandler : handlerRank s.handler = 0 := congrArg handlerRank hidle
      change 4 * s.children.zombies.length + 0 + 2 +
        pcRank { s with interrupted := s.interrupted || s.pc == .accept } + 1 ≤ _
      rw [hpending, Bool.toNat_true]
      omega
  | @reap p c hwait hreap =>
      obtain ⟨hpending, hlen⟩ := Children.reap_eq_some hreap
      have hafter : Tcpsrv04.sig_chld.afterWait p.val = .printf p.val :=
        if_pos (Int.natCast_pos.mpr p.property)
      have hhandler : handlerRank s.handler = 2 := congrArg handlerRank hwait
      change 4 * c.zombies.length + 5 * c.pending.toNat +
        handlerRank (Tcpsrv04.sig_chld.afterWait p.val) + pcRank s + 1 ≤ _
      rw [hafter, hpending]
      change 4 * c.zombies.length + 5 * s.children.pending.toNat + 5 + pcRank s + 1 ≤ _
      omega
  | waitError hwait hzombies hlive =>
      have hpc : pcRank { s with errno := ECHILD } ≤ pcRank s := by
        unfold pcRank
        cases s.pc with
        | testErrno own =>
            change 1 ≤ if s.errno = EINTR then 3 else 1
            split <;> omega
        | _ => exact Nat.le_refl _
      have hhandler : handlerRank s.handler = 2 := congrArg handlerRank hwait
      change 4 * s.children.zombies.length + 5 * s.children.pending.toNat + 1 +
        pcRank { s with errno := ECHILD } + 1 ≤ _
      omega
  | waitZero hwait hzombies hlive hnohang =>
      have hhandler : handlerRank s.handler = 2 := congrArg handlerRank hwait
      change 4 * s.children.zombies.length + 5 * s.children.pending.toNat + 1 +
        pcRank s + 1 ≤ _
      omega
  | @printf errno pid hprintf =>
      have hpc : pcRank { s with errno := errno.getD s.errno } ≤ pcRank s + 2 := by
        unfold pcRank
        cases s.pc with
        | testErrno own =>
            simp only
            split <;> split <;> omega
        | _ => exact Nat.le_add_right _ _
      have hhandler : handlerRank s.handler = 5 := congrArg handlerRank hprintf
      change 4 * s.children.zombies.length + 5 * s.children.pending.toNat + 2 +
        pcRank { s with errno := errno.getD s.errno } + 1 ≤ _
      omega
  | ret hret =>
      have hhandler : handlerRank s.handler = 1 := congrArg handlerRank hret
      change 4 * s.children.zombies.length + 5 * s.children.pending.toNat + 0 +
        pcRank s + 1 ≤ _
      omega
  | acceptOk hidle hpc => cases ha
  | @acceptErr errno hidle hpc =>
      have hint := (guard_eq_some.mp h).1.2.2
      have hpc : (if errno = EINTR then 3 else 1) + 1 ≤ pcRank s := by
        rw [pcRank, hpc]
        dsimp only
        by_cases he : errno = EINTR
        · rw [if_pos he, hint he, if_pos rfl]
        · rw [if_neg he]
          split <;> omega
      change 4 * s.children.zombies.length + 5 * s.children.pending.toNat +
        handlerRank s.handler + (if errno = EINTR then 3 else 1) + 1 ≤ _
      omega
  | goOn hidle hpc herrno =>
      have hrank : pcRank s = 3 := by simp [pcRank, hpc, herrno]
      change 4 * s.children.zombies.length + 5 * s.children.pending.toNat +
        handlerRank s.handler + 2 + 1 ≤ _
      omega
  | giveUp hidle hpc herrno =>
      have hrank : pcRank s = 1 := by simp [pcRank, hpc, herrno]
      change 0 + 0 + handlerRank s.handler + 0 + 1 ≤ _
      omega
  | fork hidle hpc hfork => cases ha
  | close hidle hpc =>
      have hrank : pcRank s = 3 := by simp [pcRank, hpc]
      change 4 * s.children.zombies.length + 5 * s.children.pending.toNat +
        handlerRank s.handler + 2 + 1 ≤ _
      omega
  | errSys hidle =>
      have hrank : 0 < pcRank s := by
        obtain ⟨⟨-, hpc⟩, -⟩ := guard_eq_some.mp h
        rcases hpc with hpc | hpc <;> simp [pcRank, hpc]
      change 0 + 0 + handlerRank s.handler + 0 + 1 ≤ _
      omega

theorem serverRank_accept {s t : ForkServer.State}
    (h : s.step Tcpsrv04.sig_chld .acceptOk = some t) :
    serverRank t ≤ serverRank s + 2 := by
  obtain ⟨hpc, rfl⟩ := accept_step h
  have hrank : 2 ≤ pcRank s := by
    rw [pcRank, hpc]
    dsimp only
    split <;> omega
  change 4 * s.children.zombies.length + 5 * s.children.pending.toNat +
    handlerRank s.handler + 4 ≤ 4 * s.children.zombies.length +
      5 * s.children.pending.toNat + handlerRank s.handler + pcRank s + 2
  omega

theorem serverRank_fork {s t : ForkServer.State} {p : Pid}
    (h : s.step Tcpsrv04.sig_chld (.fork p) = some t) :
    serverRank t + 1 ≤ serverRank s := by
  cases ForkServer.State.step_move h with
  | @fork p c hidle hpc hfork =>
      obtain ⟨hzombies, hpending⟩ := Children.fork_eq_some hfork
      have hrank : pcRank s = 4 := by simp [pcRank, hpc]
      change 4 * c.zombies.length + 5 * c.pending.toNat + handlerRank s.handler + 3 + 1 ≤
        4 * s.children.zombies.length + 5 * s.children.pending.toNat +
          handlerRank s.handler + pcRank s
      rw [hzombies, hpending]
      omega

theorem serverRank_exit (s : ForkServer.State) (p : Pid) :
    serverRank (childExit s p) ≤ serverRank s + 9 := by
  by_cases hp : p ∈ s.children.live
  · obtain ⟨c, hexit⟩ := Children.exit_of_mem hp
    obtain ⟨hzombies, hpending⟩ := Children.exit_eq_some hexit
    rw [childExit_of_exit hexit]
    change 4 * c.zombies.length + 5 * c.pending.toNat + handlerRank s.handler + pcRank s ≤
      4 * s.children.zombies.length + 5 * s.children.pending.toNat +
        handlerRank s.handler + pcRank s + 9
    rw [hzombies, hpending, List.length_append, List.length_singleton, Bool.toNat_true]
    omega
  · rw [childExit_of_not_mem hp]
    omega

def phaseRank : Phase → Nat
  | .start => 12
  | .running => 1
  | .exited => 0

def State.clientRank (s : State n C₁ C₂) (i : Fin n) : Nat :=
  phaseRank (s.phase i) + rank (s.session i)

def State.rank (s : State n C₁ C₂) : Nat :=
  ∑ i, s.clientRank i + 10 * s.backlog.length + serverRank s.server

/-- The steps that make headway: not a call that is interrupted and made again, nor
one of the parent's that fails. -/
def works : Act n → Bool
  | .client _ a => StopAndWaitProgress.works a
  | .serve _ a => serverWorks a
  | .parent (.acceptErr _) => false
  | .parent .errSys => false
  | _ => true

theorem clientRank_setSession {s : State n C₁ C₂} {i : Fin n}
    {c : StopAndWaitClient.State C₁ C₂} :
    ∑ j, (s.setSession i c).clientRank j + StopAndWaitProgress.rank (s.session i) =
      ∑ j, s.clientRank j + StopAndWaitProgress.rank c := by
  have hsum := sum_rank_of_eq (f := (s.setSession i c).clientRank) (g := s.clientRank)
    (i := i) fun j hj => by simp [State.clientRank, hj]
  have hi : (s.setSession i c).clientRank i =
      phaseRank (s.phase i) + StopAndWaitProgress.rank c := by
    simp [State.clientRank]
  rw [hi, State.clientRank] at hsum
  omega

theorem clientRank_setLink {s : State n C₁ C₂} {i : Fin n} {l : Link C₁ C₂} :
    ∑ j, (s.setLink i l).clientRank j + linkRank (s.session i).link =
      ∑ j, s.clientRank j + linkRank l := by
  have hsum : ∑ j, (s.setLink i l).clientRank j + StopAndWaitProgress.rank (s.session i) =
      ∑ j, s.clientRank j + StopAndWaitProgress.rank { s.session i with link := l } :=
    clientRank_setSession
  simp only [StopAndWaitProgress.rank] at hsum
  omega

theorem clientRank_setPhase {s : State n C₁ C₂} {i : Fin n} (ph : Phase) :
    ∑ j, (s.setPhase i ph).clientRank j + phaseRank (s.phase i) =
      ∑ j, s.clientRank j + phaseRank ph := by
  have hsum := sum_rank_of_eq (f := (s.setPhase i ph).clientRank) (g := s.clientRank)
    (i := i) fun j hj => by simp [State.clientRank, hj]
  have hi : (s.setPhase i ph).clientRank i =
      phaseRank ph + StopAndWaitProgress.rank (s.session i) := by
    simp [State.clientRank]
  rw [hi, State.clientRank] at hsum
  omega

theorem rank_step {s t : State n C₁ C₂} {l : Act n}
    (hs : (system C₁ C₂ file).Reachable s)
    (hstep : (system C₁ C₂ file).step s l = some t) :
    t.rank + (if works l then 1 else 0) ≤ s.rank := by
  unfold State.rank
  cases step_move hstep with
  | @connect i hphase hended =>
      have hsum := clientRank_setPhase (s := s) (i := i) .running
      rw [hphase] at hsum
      change ∑ j, (s.setPhase i .running).clientRank j + 10 * (s.backlog ++ [i]).length +
        serverRank s.server + 1 ≤ _
      rw [List.length_append, List.length_singleton]
      simp only [phaseRank] at hsum
      omega
  | @client i a c hphase hclient hclientStep =>
      have hrun := (reachable_sessions hs).ok i
      rw [hphase] at hrun
      have hone := StopAndWaitProgress.rank_step (reachable_inv hrun) hclientStep
      have hsum := clientRank_setSession (s := s) (i := i) (c := c)
      change ∑ j, (s.setSession i c).clientRank j + 10 * s.backlog.length +
        serverRank s.server + (if StopAndWaitProgress.works a then 1 else 0) ≤ _
      omega
  | @quit i hphase hpc =>
      have hlink := clientRank_setLink (s := s) (i := i)
        (l := (s.session i).link.shutdown)
      have hsum := clientRank_setPhase (s := s.setLink i (s.session i).link.shutdown)
        (i := i) .exited
      have hrunning : (s.setLink i (s.session i).link.shutdown).phase i = .running := hphase
      have hsame : linkRank (s.session i).link.shutdown = linkRank (s.session i).link := rfl
      rw [hrunning] at hsum
      simp only [phaseRank] at hsum
      change ∑ j, ((s.setLink i (s.session i).link.shutdown).setPhase i
          .exited).clientRank j + 10 * s.backlog.length + serverRank s.server + 1 ≤ _
      omega
  | @serve i a l hchild ha hserver =>
      have hone := linkRank_step hserver
      have hsum := clientRank_setLink (s := s) (i := i) (l := l)
      change ∑ j, (s.setLink i l).clientRank j + 10 * s.backlog.length +
        serverRank s.server + (if serverWorks a then 1 else 0) ≤ _
      omega
  | @exit i p l hchild hserver =>
      have hone := linkRank_exit hserver
      have hparent := serverRank_exit s.server p
      have hsum := clientRank_setLink (s := s) (i := i) (l := l)
      change ∑ j, (s.setLink i l).clientRank j + 10 * s.backlog.length +
        serverRank (childExit s.server p) + 1 ≤ _
      omega
  | @accept i rest t hbacklog hserver =>
      have hparent := serverRank_accept hserver
      rw [hbacklog, List.length_cons]
      change ∑ j, s.clientRank j + 10 * rest.length + serverRank t + 1 ≤ _
      omega
  | @fork i p t hconnfd hserver =>
      have hparent := serverRank_fork hserver
      change ∑ j, s.clientRank j + 10 * s.backlog.length + serverRank t + 1 ≤ _
      omega
  | @parent a t ha hserver =>
      have hparent := serverRank_step ha hserver
      change ∑ j, s.clientRank j + 10 * s.backlog.length + serverRank t + _ ≤ _
      split <;> omega

end Rank

section Stuck

def Stuck (s : State n C₁ C₂) : Prop := ∀ l, works l = true → s.step l = none

variable {s : State n C₁ C₂}

theorem exists_fork (c : Children Pid) : ∃ p d, c.fork p = some d := by
  have hinj : Function.Injective nthPid := fun a b hab => by simpa [nthPid] using hab
  have : Infinite Pid := Infinite.of_injective nthPid hinj
  obtain ⟨p, hp⟩ := Infinite.exists_notMem_finset (c.live ++ c.zombies).toFinset
  rw [List.mem_toFinset, List.mem_append, not_or] at hp
  exact ⟨p, Children.fork_of_fresh hp.1 hp.2⟩

theorem Stuck.parent (h : Stuck s) {a : ForkServer.Act} (ha : isParent a = true)
    (hworks : works (.parent a : Act n) = true) :
    s.server.step Tcpsrv04.sig_chld a = none := by
  have hnone := h (.parent a) hworks
  rw [State.step, if_pos ha, Option.map_eq_none_iff] at hnone
  exact hnone

theorem Stuck.idle (h : Stuck s) : s.server.handler = .idle := by
  cases hhandler : s.server.handler with
  | idle => rfl
  | wait =>
      cases hzombies : s.server.children.zombies with
      | nil =>
          have hnone := h.parent (a := .waitNone) rfl rfl
          rw [ForkServer.State.step, if_pos ⟨hhandler, hzombies⟩] at hnone
          split at hnone
          · cases hnone
          · have hnohang : Tcpsrv04.sig_chld.nohang = true := rfl
            rw [if_pos hnohang] at hnone
            cases hnone
      | cons p rest =>
          have hp : p ∈ s.server.children.zombies := by simp [hzombies]
          have hnone := h.parent (a := .reap p) rfl rfl
          rw [ForkServer.State.step, if_pos hhandler, Children.reap_of_mem hp] at hnone
          cases hnone
  | printf pid =>
      have hnone := h.parent (a := .printf none) rfl rfl
      simp [ForkServer.State.step, hhandler] at hnone
  | ret =>
      have hnone := h.parent (a := .ret) rfl rfl
      simp [ForkServer.State.step, hhandler] at hnone

theorem Stuck.accept (h : Stuck s) (hplaced : Placed s) (hpc : s.server.pc ≠ .ended) :
    s.server.pc = .accept ∧ s.server.children.pending = false ∧ s.backlog = [] := by
  have hidle := h.idle
  have haccept : s.server.pc = .accept := by
    cases hat : s.server.pc with
    | accept => rfl
    | testErrno own =>
        have hnone := h.parent (a := .testErrno) rfl rfl
        simp [ForkServer.State.step, hat, hidle] at hnone
    | fork =>
        obtain ⟨i, hconnfd⟩ := Option.ne_none_iff_exists'.mp ((hplaced.pc hpc).mp hat)
        obtain ⟨p, c, hfork⟩ := exists_fork s.server.children
        have hnone := h (.fork p) rfl
        simp [State.step, hconnfd, ForkServer.State.step, hidle, hat, hfork] at hnone
    | close =>
        have hnone := h.parent (a := .close) rfl rfl
        simp [ForkServer.State.step, hat, hidle] at hnone
    | ended => exact absurd hat hpc
  refine ⟨haccept, ?_, ?_⟩
  · by_contra hpending
    have hnone := h.parent (a := .deliver) rfl rfl
    simp [ForkServer.State.step, haccept, hidle, Children.deliver, hpending] at hnone
  · cases hbacklog : s.backlog with
    | nil => rfl
    | cons i rest =>
        have hnone := h .accept rfl
        simp [State.step, hbacklog, ForkServer.State.step, haccept, hidle] at hnone

theorem Stuck.serverStuck (h : Stuck s) {i : Fin n} (hchild : s.child i ≠ none) :
    ServerStuck (s.session i).link := by
  intro a ha
  by_cases hexit : a = .exit
  · obtain ⟨p, hp⟩ := Option.ne_none_iff_exists'.mp hchild
    have hnone := h (.exit i) rfl
    simp only [State.step, hp, Option.map_eq_none_iff] at hnone
    rw [hexit]
    exact hnone
  · have hnone := h (.serve i a) ha
    rw [State.step, if_pos ⟨hchild, hexit⟩, Option.map_eq_none_iff] at hnone
    exact hnone

/-- A client that a child serves has exited, and so has the child, or it waits for the
newline of a line without one. -/
theorem Stuck.session (h : Stuck s) (hs : (system C₁ C₂ file).Reachable s)
    (hC₁ : 0 < C₁) (hC₂ : 0 < C₂) (hroom : MAXLINE ≤ C₁ + C₂ + 2) {i : Fin n}
    (hchild : s.child i ≠ none) :
    s.phase i = .exited ∧ (s.session i).link.server = .exited ∧
        Gone (file i) (s.session i) ∨
      s.phase i = .running ∧ Hang (s.session i) := by
  have hserver := h.serverStuck hchild
  have hok := (reachable_sessions hs).ok i
  cases hphase : s.phase i with
  | start => exact absurd ((reachable_placed hs).started i hphase).1 hchild
  | running =>
      rw [hphase] at hok
      have hclient : ClientStuck (s.session i) := by
        intro a ha hworks
        have hisClient : isClient a = true := by
          cases a with
          | server b => exact absurd rfl (ha b)
          | _ => rfl
        have hnone := h (.client i a) hworks
        rw [State.step, if_pos ⟨hphase, hisClient⟩, Option.map_eq_none_iff] at hnone
        exact hnone
      rcases returned_or_hang (reachable_inv hok) hC₁ hC₂ hroom hclient hserver
        with hreturned | hhang
      · have hnone := h (.quit i) rfl
        simp [State.step, hphase, hreturned] at hnone
      · exact .inr ⟨rfl, hhang⟩
  | exited =>
      rw [hphase] at hok
      have hgone : Gone (file i) (s.session i) := hok
      refine .inl ⟨rfl, ?_, hgone⟩
      rcases hserver.cases hgone.link with ⟨-, -, hopen⟩ | ⟨rest, hheld, hrest, -⟩ | hexited
      · rw [hgone.closed] at hopen
        cases hopen
      · have hempty := hgone.empty
        rw [Link.inFlight, hheld, Server.held_writen] at hempty
        simp [hrest] at hempty
      · exact hexited

end Stuck

structure Served (input : List Byte) (ph : Phase) (c : StopAndWaitClient.State C₁ C₂) :
    Prop where
  stdout : c.stdout = (answered input).flatten
  exited : (∀ x ∈ chunks input, Answered x = true) →
    ph = .exited ∧ c.link.server = .exited
  hangs : ¬(∀ x ∈ chunks input, Answered x = true) → ph = .running ∧ Hang c

theorem stdout_beginning {s : State n C₁ C₂} (hs : (system C₁ C₂ file).Reachable s)
    (i : Fin n) : (s.session i).stdout <+: (answered (file i)).flatten := by
  have hok := (reachable_sessions hs).ok i
  cases hphase : s.phase i with
  | start =>
      rw [hphase] at hok
      have hstart : s.session i = .start (file i) := hok
      rw [hstart]
      exact List.nil_prefix
  | running =>
      rw [hphase] at hok
      exact StopAndWaitProgress.stdout_beginning hok
  | exited =>
      rw [hphase] at hok
      rw [Gone.stdout hok]

/-- In every run, for any files and any interleaving: each client has printed a
beginning of its own answered lines; at most ten steps for each byte and 26 for each
client make headway; some run of such steps leads to where there is none left; and
there every client that a child serves has been answered up to a first line without a
newline, for which it waits, while all others have exited with their children. Unless
the parent has ended there, it has no connection left that a child does not serve, and
its children are those of the waiting clients: no zombie is left. -/
theorem fork_echo (hC₁ : 0 < C₁) (hC₂ : 0 < C₂) (hroom : MAXLINE ≤ C₁ + C₂ + 2)
    {ls : List (Act n)} {s : State n C₁ C₂} (h : (system C₁ C₂ file).Trace ls s) :
    (∀ i, (s.session i).stdout <+: (answered (file i)).flatten) ∧
      ls.countP works ≤ ∑ i, (10 * (file i).length + 26) + 2 ∧
      (∃ ms t, (∀ l ∈ ms, works l = true) ∧ (system C₁ C₂ file).run s ms = some t ∧
        Stuck t) ∧
      (Stuck s →
        (∀ i, s.child i ≠ none → Served (file i) (s.phase i) (s.session i)) ∧
        (s.server.pc ≠ .ended → s.server.pc = .accept ∧ (∀ i, s.child i ≠ none) ∧
          s.server.children.zombies = [] ∧
          ∀ p, p ∈ s.server.children.live ↔
            ∃ i, s.child i = some p ∧ Hang (s.session i))) := by
  have hs := h.reachable
  refine ⟨stdout_beginning hs, ?_, ?_, fun hstuck => ?_⟩
  · have hinit : ∀ s, (system C₁ C₂ file).init s →
        s.rank ≤ ∑ i, (10 * (file i).length + 26) + 2 := by
      rintro s ⟨hphase, hsession, hbacklog, -, -, errno, hserver⟩
      have hclient : ∀ i, s.clientRank i = 10 * (file i).length + 26 := by
        intro i
        rw [State.clientRank, hphase, hsession, StopAndWaitProgress.rank_start, phaseRank]
        omega
      have hparent : serverRank s.server = 2 := by rw [hserver]; rfl
      rw [State.rank, hbacklog, hparent, Finset.sum_congr rfl fun i _ => hclient i]
      exact Nat.le_refl _
    have hcount := h.countP_le hinit fun _ _ _ hs hstep => rank_step hs hstep
    exact Nat.le_trans (Nat.le_add_right _ _) hcount
  · have hnext : ∀ s l t, (system C₁ C₂ file).Reachable s → works l = true →
        (system C₁ C₂ file).step s l = some t →
          (system C₁ C₂ file).Reachable t ∧ t.rank < s.rank := by
      intro s l t hs hl hstep
      have hrank := rank_step hs hstep
      rw [hl, if_pos rfl] at hrank
      exact ⟨hs.step hstep, hrank⟩
    obtain ⟨ms, t, hms, hrun, -, hdone⟩ := System.exists_run_stuck hnext hs
    exact ⟨ms, t, hms, hrun, hdone⟩
  · have hplaced := reachable_placed hs
    refine ⟨fun i hchild => ?_, fun hpc => ?_⟩
    · rcases hstuck.session hs hC₁ hC₂ hroom hchild with
        ⟨hphase, hexited, hgone⟩ | ⟨hphase, hhang⟩
      · exact ⟨hgone.stdout, fun _ => ⟨hphase, hexited⟩,
          fun hnot => absurd hgone.complete hnot⟩
      · have hok := (reachable_sessions hs).ok i
        rw [hphase] at hok
        obtain ⟨hout, hall⟩ := stdout_answered hok (.inr hhang)
        refine ⟨hout, fun hcomplete => ?_, fun _ => ⟨hphase, hhang⟩⟩
        obtain ⟨acc, hacc⟩ := hhang.1
        rw [hall.mpr hcomplete] at hacc
        cases hacc
    · obtain ⟨haccept, hpending, hbacklog⟩ := hstuck.accept hplaced hpc
      have hconnfd : s.connfd = none := by
        have hfork := hplaced.pc hpc
        rw [haccept] at hfork
        simpa using hfork
      have hserved : ∀ i, s.child i ≠ none := by
        intro i
        have hstarted : s.phase i ≠ .start := by
          intro hphase
          have hnone := hstuck (.connect i) rfl
          simp [State.step, hphase, hpc] at hnone
        rcases hplaced.connected i hstarted with hmem | hmem | hmem
        · simp [hbacklog] at hmem
        · simp [hconnfd] at hmem
        · exact hmem
      have hattended := reachable_attended Tcpsrv04.sig_chld_drains
        ((toServer n C₁ C₂ file).reachable hs)
      have hzombies : s.server.children.zombies = [] := by
        rcases hattended with hcollects | hsignal | hnil
        · change s.server.handler.collects = true at hcollects
          rw [hstuck.idle] at hcollects
          cases hcollects
        · change s.server.children.pending = true at hsignal
          rw [hpending] at hsignal
          cases hsignal
        · exact hnil
      refine ⟨haccept, hserved, hzombies, fun p => ?_⟩
      rw [(reachable_serving hs).live hpc p]
      refine exists_congr fun i => and_congr_right fun hi => ?_
      rcases hstuck.session hs hC₁ hC₂ hroom (hserved i) with
        ⟨-, hexited, -⟩ | ⟨-, hhang⟩
      · refine iff_of_false (fun huse => huse hexited) fun hhang => ?_
        have hreading := hhang.2.2.2
        rw [hexited] at hreading
        cases hreading
      · refine iff_of_true ?_ hhang
        rw [InUse, hhang.2.2.2]
        simp

/-- The files `a\n` and `b` with room for two bytes less than a line: the second
client waits for a newline, and the first is not kept from its end. -/
def twoFiles (i : Fin 2) : List Byte := if i = 0 then [97, 10] else [98]

def twoClients : State 2 2047 2047 where
  phase _ := .start
  session i := .start (twoFiles i)
  backlog := []
  connfd := none
  child _ := none
  server := .start 0

theorem fork_echo_two : ∃ (ms : List (Act 2)) (t : State 2 2047 2047),
    (system 2047 2047 twoFiles).run twoClients ms = some t ∧ Stuck t ∧
      (t.child 0 ≠ none → (t.session 0).stdout = [97, 10] ∧ t.phase 0 = .exited) ∧
      (t.child 1 ≠ none → Hang (t.session 1)) := by
  have hC : 0 < 2047 := by decide
  have hroom : MAXLINE ≤ 2047 + 2047 + 2 := by decide
  have hstart : (system 2047 2047 twoFiles).Trace [] twoClients :=
    ⟨twoClients, ⟨fun _ => rfl, fun _ => rfl, rfl, rfl, fun _ => rfl, 0, rfl⟩, rfl⟩
  obtain ⟨-, -, ⟨ms, t, -, hrun, hstuck⟩, -⟩ := fork_echo hC hC hroom hstart
  obtain ⟨ls, hls⟩ := hstart.reachable.of_run hrun
  have hserved := ((fork_echo hC hC hroom hls).2.2.2 hstuck).1
  refine ⟨ms, t, hrun, hstuck, fun hchild => ?_, fun hchild => ?_⟩
  · have hdone := hserved 0 hchild
    have hall : ∀ x ∈ chunks (twoFiles 0), Answered x = true := by decide
    have hout : (answered (twoFiles 0)).flatten = [97, 10] := by decide
    exact ⟨hdone.stdout.trans hout, (hdone.exited hall).1⟩
  · have hnot : ¬∀ x ∈ chunks (twoFiles 1), Answered x = true := by decide
    exact ((hserved 1 hchild).hangs hnot).2

end MyUnp.ForkEcho
