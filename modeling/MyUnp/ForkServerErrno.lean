import MyUnp.ForkServer

namespace MyUnp.ForkServer

open MyUnp.TransitionSystem
open MyUnp.ChildProcesses

/-- A wait that finds nothing finds a child that is alive, unless `errno` is
`ECHILD` anyway, and `printf` leaves `errno` as it is. -/
def ErrnoKept (s : State) (a : Act) : Prop :=
  (a = .waitNone → s.children.live ≠ [] ∨ s.errno = ECHILD) ∧
    ∀ errno ∈ a.printfErrno, errno = s.errno

instance (s : State) (a : Act) : Decidable (ErrnoKept s a) :=
  inferInstanceAs (Decidable ((_ → _) ∧ ∀ errno ∈ _, _))

theorem errno_kept_iff {h : SigChld} {s t : State} {a : Act}
    (hrunning : s.handler ≠ .idle) (hstep : s.step h a = some t) :
    t.errno = s.errno ↔ ErrnoKept s a := by
  cases State.step_move hstep with
  | exit hexit => simp [ErrnoKept, Act.printfErrno]
  | stop hstop => simp [ErrnoKept, Act.printfErrno]
  | deliver hidle hdeliver => exact absurd hidle hrunning
  | reap hwait hreap => simp [ErrnoKept, Act.printfErrno]
  | waitError hwait hzombies hlive =>
      rw [eq_comm (b := s.errno)]
      simp [ErrnoKept, hlive, Act.printfErrno]
  | waitZero hwait hzombies hlive hnohang =>
      simp [ErrnoKept, hlive, Act.printfErrno]
  | @printf errno pid hprintf =>
      cases errno with
      | none => simp [ErrnoKept, Act.printfErrno]
      | some e => simp [ErrnoKept, Act.printfErrno]
  | ret hret => simp [ErrnoKept, Act.printfErrno]
  | acceptOk hidle hpc => exact absurd hidle hrunning
  | acceptErr hidle hpc => exact absurd hidle hrunning
  | goOn hidle hpc herrno => exact absurd hidle hrunning
  | giveUp hidle hpc herrno => exact absurd hidle hrunning
  | fork hidle hpc hfork => exact absurd hidle hrunning
  | close hidle hpc => exact absurd hidle hrunning
  | errSys hidle => exact absurd hidle hrunning

structure Kept (s : State) : Prop where
  saved : s.handler ≠ .idle → s.errno = s.saved
  own : ∀ own, s.pc = .testErrno own → s.errno = own

theorem Kept.step {h : SigChld} {s t : State} {a : Act} (hkeep : ErrnoKept s a)
    (hs : Kept s) (hstep : s.step h a = some t) : Kept t := by
  have herrno := fun hrunning => (errno_kept_iff hrunning hstep).mpr hkeep
  cases State.step_move hstep with
  | exit hexit => exact ⟨hs.saved, hs.own⟩
  | stop hstop => exact ⟨hs.saved, hs.own⟩
  | deliver hidle hdeliver => exact ⟨fun _ => rfl, hs.own⟩
  | reap hwait hreap =>
      have hsaved := hs.saved (by simp [hwait])
      exact ⟨fun _ => hsaved, hs.own⟩
  | waitError hwait hzombies hlive =>
      have hrunning : s.handler ≠ .idle := by simp [hwait]
      have hsame : ECHILD = s.errno := herrno hrunning
      rw [hsame]
      exact ⟨fun _ => hs.saved hrunning, hs.own⟩
  | waitZero hwait hzombies hlive hnohang =>
      have hsaved := hs.saved (by simp [hwait])
      exact ⟨fun _ => hsaved, hs.own⟩
  | @printf errno pid hprintf =>
      have hrunning : s.handler ≠ .idle := by simp [hprintf]
      have hsame : errno.getD s.errno = s.errno := herrno hrunning
      rw [hsame]
      exact ⟨fun _ => hs.saved hrunning, hs.own⟩
  | ret hret => exact ⟨fun hbad => absurd rfl hbad, hs.own⟩
  | acceptOk hidle hpc => exact ⟨fun hbad => absurd hidle hbad, nofun⟩
  | acceptErr hidle hpc =>
      refine ⟨fun hbad => absurd hidle hbad, ?_⟩
      rintro own ⟨⟩
      rfl
  | goOn hidle hpc herrno => exact ⟨fun hbad => absurd hidle hbad, nofun⟩
  | giveUp hidle hpc herrno => exact ⟨fun hbad => absurd hidle hbad, nofun⟩
  | fork hidle hpc hfork => exact ⟨fun hbad => absurd hidle hbad, nofun⟩
  | close hidle hpc => exact ⟨fun hbad => absurd hidle hbad, nofun⟩
  | errSys hidle => exact ⟨fun hbad => absurd hidle hbad, nofun⟩

theorem restrict_kept {h : SigChld} {s : State}
    (hs : ((system h).restrict ErrnoKept).Reachable s) : Kept s := by
  refine System.Reachable.restrict_invariant (P := Kept) ?_ ?_ hs
  · rintro s ⟨errno, rfl⟩
    exact ⟨fun hbad => absurd rfl hbad, nofun⟩
  · intro s a t _ hkeep hkept hstep
    exact hkept.step hkeep hstep

theorem testErrno_accept_iff {h : SigChld} {s t : State}
    (hstep : s.step h .testErrno = some t) :
    t.pc = .accept ↔ s.errno = EINTR := by
  cases State.step_move hstep with
  | goOn hidle hpc herrno => exact ⟨fun _ => herrno, fun _ => rfl⟩
  | giveUp hidle hpc herrno =>
      exact ⟨nofun, fun hbad => absurd hbad herrno⟩

/-- In a run in which no wait fails for want of children with another `errno`,
and no `printf` changes it, every run of the handler leaves `errno` as it found
it, and the loop decides by the error of `accept`: an interrupted `accept` is
called again. A step of the handler that does not meet this changes `errno`. -/
theorem sig_chld_errno (h : SigChld) :
    (∀ s : State, ((system h).restrict ErrnoKept).Reachable s →
      (s.handler ≠ .idle → s.errno = s.saved) ∧
        ∀ (own : Nat) (t : State), s.pc = .testErrno own →
          s.step h .testErrno = some t → (t.pc = .accept ↔ own = EINTR)) ∧
      ∀ (s t : State) (a : Act), (system h).Reachable s → s.handler ≠ .idle →
        s.step h a = some t → (t.errno = s.errno ↔ ErrnoKept s a) := by
  refine ⟨?_, fun s t a _ hrunning hstep => errno_kept_iff hrunning hstep⟩
  intro s hs
  obtain ⟨hsaved, hown⟩ := restrict_kept hs
  refine ⟨hsaved, ?_⟩
  intro own t hpc hstep
  rw [← hown own hpc]
  exact testErrno_accept_iff hstep

def AcceptsAgain (h : SigChld) : Prop :=
  ∀ s t : State, (system h).Reachable s → s.pc = .testErrno EINTR →
    s.step h .testErrno = some t → t.pc = .accept

/-- The first child ends while the server waits in `accept`, the last one when
`accept` has failed with `EINTR` and `errno` has not been looked at. `print` is
what the handler does for each child besides. -/
def lastChild (print : List Act) : List Act :=
  [.acceptOk, .fork (nthPid 0), .close, .acceptOk, .fork (nthPid 1),
    .close, .exit (nthPid 0), .deliver, .reap (nthPid 0)] ++ print ++
  [.waitNone, .ret, .acceptErr EINTR, .exit (nthPid 1), .deliver,
    .reap (nthPid 1)] ++ print ++ [.waitNone, .ret]

theorem not_acceptsAgain {h : SigChld} {acts : List Act}
    (hmap : ((system h).run (.start 0) acts).map (fun s =>
        (s.pc, (s.step h .testErrno).map State.pc)) =
      some (.testErrno EINTR, some .ended)) : ¬AcceptsAgain h := by
  intro hall
  obtain ⟨s, hrun, hfacts⟩ := Option.map_eq_some_iff.mp hmap
  obtain ⟨hpc, hnext⟩ := Prod.mk.inj hfacts
  obtain ⟨t, hstep, hended⟩ := Option.map_eq_some_iff.mp hnext
  have hgo := hall s t ⟨_, _, ⟨0, rfl⟩, hrun⟩ hpc hstep
  rw [hended] at hgo
  cases hgo

theorem interrupted_accept_ends_server :
    ¬AcceptsAgain Tcpsrv04.sig_chld ∧ ¬AcceptsAgain Paradigm1.sig_chld :=
  ⟨@not_acceptsAgain _ (lastChild [.printf none]) (by decide),
    @not_acceptsAgain _ (lastChild []) (by decide)⟩

end MyUnp.ForkServer
