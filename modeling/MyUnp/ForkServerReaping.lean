import MyUnp.ForkServer

namespace MyUnp.ForkServer

open MyUnp.TransitionSystem
open MyUnp.ChildProcesses

def HandlerPc.collects : HandlerPc → Bool
  | .wait => true
  | .printf _ => true
  | _ => false

structure SigChld.Drains (h : SigChld) : Prop where
  afterWait : ∀ p : Pid, (h.afterWait p.val).collects = true
  afterPrintf : h.afterPrintf.collects = true

theorem Tcpsrv04.sig_chld_drains : Tcpsrv04.sig_chld.Drains where
  afterWait p := by
    have hpos : (p.val : Int) > 0 := Int.natCast_pos.mpr p.property
    have hnext : Tcpsrv04.sig_chld.afterWait p.val = .printf p.val := if_pos hpos
    rw [hnext]
    rfl
  afterPrintf := rfl

def Attended (s : State) : Prop :=
  s.handler.collects = true ∨ s.children.pending = true ∨ s.children.zombies = []

theorem Attended.step {h : SigChld} (hdrains : h.Drains) {s t : State} {a : Act}
    (hs : Attended s) (hstep : s.step h a = some t) : Attended t := by
  cases State.step_move hstep with
  | exit hexit => exact .inr (.inl (Children.exit_eq_some hexit).2)
  | stop hstop => exact .inr (.inl (Children.stop_eq_some hstop).2.2)
  | deliver hidle hdeliver => exact .inl rfl
  | reap hwait hreap => exact .inl (hdrains.afterWait _)
  | waitError hwait hzombies hlive => exact .inr (.inr hzombies)
  | waitZero hwait hzombies hlive hnohang => exact .inr (.inr hzombies)
  | printf hprintf => exact .inl hdrains.afterPrintf
  | ret hret =>
      rw [Attended, hret] at hs
      rcases hs with hbad | hs
      · cases hbad
      · exact .inr hs
  | acceptOk hidle hpc => exact hs
  | acceptErr hidle hpc => exact hs
  | goOn hidle hpc herrno => exact hs
  | giveUp hidle hpc herrno => exact .inr (.inr rfl)
  | fork hidle hpc hfork =>
      obtain ⟨hzombies, hpending⟩ := Children.fork_eq_some hfork
      rw [Attended, ← hzombies, ← hpending] at hs
      exact hs
  | close hidle hpc => exact hs
  | errSys hidle => exact .inr (.inr rfl)

theorem reachable_attended {h : SigChld} (hdrains : h.Drains) {s : State}
    (hs : (system h).Reachable s) : Attended s := by
  apply hs.invariant
  · rintro s ⟨errno, rfl⟩
    exact .inr (.inr rfl)
  · intro s a t _ h hstep
    exact h.step hdrains hstep

/-- The loop of `tcpsrv04.c` leaves no zombie, however many children end at one
signal and wherever the handler is when they do. -/
theorem tcpsrv04_no_zombies {s : State}
    (hs : (system Tcpsrv04.sig_chld).Reachable s) (hquiet : Quiet s) :
    s.children.zombies = [] := by
  have hattended := reachable_attended Tcpsrv04.sig_chld_drains hs
  rw [Attended, hquiet.1, hquiet.2] at hattended
  rcases hattended with hbad | hbad | hzombies
  · cases hbad
  · cases hbad
  · exact hzombies

/-- Two children end while one signal is pending; one run of the handler
collects both. -/
def coalesced : List Act :=
  [.acceptOk, .fork (nthPid 0), .close, .acceptOk, .fork (nthPid 1),
    .close, .exit (nthPid 0), .exit (nthPid 1), .deliver,
    .reap (nthPid 1)]

theorem tcpsrv04_no_zombies_coalesced : ∃ s,
    (system Tcpsrv04.sig_chld).run (.start 0) (coalesced ++ [.printf none,
      .reap (nthPid 0), .printf none, .waitNone, .ret]) = some s ∧
      s.children.zombies = [] := by
  have hmap : ((system Tcpsrv04.sig_chld).run (.start 0) (coalesced ++
      [.printf none, .reap (nthPid 0), .printf none, .waitNone, .ret])).map
        (fun s => decide (Quiet s)) = some true := by decide
  obtain ⟨s, hrun, hquiet⟩ := Option.map_eq_some_iff.mp hmap
  exact ⟨s, hrun, tcpsrv04_no_zombies ⟨_, _, ⟨0, rfl⟩, hrun⟩
    (of_decide_eq_true hquiet)⟩

def Blocks (s : State) : Prop :=
  s.handler = .wait ∧ s.children.zombies = [] ∧ s.children.live ≠ []

/-- The signal stands for one terminated child, or no child is left at all. -/
def OneZombie (s : State) (a : Act) : Prop :=
  a = .deliver → s.children.zombies.length = 1 ∨
    s.children.zombies = [] ∧ s.children.live = []

instance (s : State) (a : Act) : Decidable (OneZombie s a) :=
  inferInstanceAs (Decidable (_ → _))

def HandlerPc.due : HandlerPc → Nat
  | .wait => 1
  | _ => 0

/-- Without a pending signal there are no more zombies than will be collected,
and a wait has something to find. -/
structure Matched (s : State) : Prop where
  zombies : s.children.pending = false →
    s.children.zombies.length ≤ s.handler.due
  live : s.handler = .wait → s.children.zombies = [] → s.children.live = []

theorem Matched.of_pending {s : State} (hpending : s.children.pending = true)
    (hlive : s.handler = .wait → s.children.zombies = [] →
      s.children.live = []) : Matched s where
  zombies hbad := by
    rw [hpending] at hbad
    cases hbad
  live := hlive

theorem Matched.of_nil {s : State} (hzombies : s.children.zombies = [])
    (hwait : s.handler ≠ .wait) : Matched s where
  zombies _ := by
    rw [hzombies]
    exact Nat.zero_le _
  live hbad := absurd hbad hwait

theorem Matched.step {s t : State} {a : Act} (hone : OneZombie s a)
    (hs : Matched s) (hstep : s.step UnixStrSrv01.sig_chld a = some t) :
    Matched t := by
  cases State.step_move hstep with
  | exit hexit =>
      obtain ⟨hzombies, hpending⟩ := Children.exit_eq_some hexit
      apply Matched.of_pending hpending
      intro _ hbad
      rw [hzombies] at hbad
      simp at hbad
  | stop hstop =>
      obtain ⟨hlive, hzombies, hpending⟩ := Children.stop_eq_some hstop
      apply Matched.of_pending hpending
      rw [hlive, hzombies]
      exact hs.live
  | deliver hidle hdeliver =>
      obtain ⟨hlive, hzombies, -⟩ := Children.deliver_eq_some hdeliver
      constructor
      · intro _
        change _ ≤ 1
        rw [hzombies]
        rcases hone rfl with hlen | ⟨hnil, -⟩
        · omega
        · simp [hnil]
      · intro _ hnil
        change _ = [] at hnil
        rw [hzombies] at hnil
        rw [hlive]
        rcases hone rfl with hlen | ⟨-, hnone⟩
        · simp [hnil] at hlen
        · exact hnone
  | @reap p c hwait hreap =>
      obtain ⟨hpending, hlen⟩ := Children.reap_eq_some hreap
      constructor
      · intro hclear
        have hle := hs.zombies (hpending.symm.trans hclear)
        rw [hwait, HandlerPc.due] at hle
        change c.zombies.length ≤ 0
        omega
      · nofun
  | waitError hwait hzombies hlive => exact .of_nil hzombies nofun
  | waitZero hwait hzombies hlive hnohang => cases hnohang
  | printf hprintf =>
      have hle := hs.zombies
      rw [hprintf] at hle
      exact ⟨hle, nofun⟩
  | ret hret =>
      have hle := hs.zombies
      rw [hret] at hle
      exact ⟨hle, nofun⟩
  | acceptOk hidle hpc => exact ⟨hs.zombies, hs.live⟩
  | acceptErr hidle hpc => exact ⟨hs.zombies, hs.live⟩
  | goOn hidle hpc herrno => exact ⟨hs.zombies, hs.live⟩
  | giveUp hidle hpc herrno =>
      refine .of_nil rfl ?_
      change s.handler ≠ .wait
      rw [hidle]
      nofun
  | fork hidle hpc hfork =>
      obtain ⟨hzombies, hpending⟩ := Children.fork_eq_some hfork
      have hle := hs.zombies
      rw [← hzombies, ← hpending] at hle
      refine ⟨hle, ?_⟩
      intro hbad
      change s.handler = .wait at hbad
      rw [hidle] at hbad
      cases hbad
  | close hidle hpc => exact ⟨hs.zombies, hs.live⟩
  | errSys hidle =>
      refine .of_nil rfl ?_
      change s.handler ≠ .wait
      rw [hidle]
      nofun

theorem restrict_matched {s : State}
    (hs : ((system UnixStrSrv01.sig_chld).restrict OneZombie).Reachable s) :
    Matched s := by
  refine System.Reachable.restrict_invariant (P := Matched) ?_ ?_ hs
  · rintro s ⟨errno, rfl⟩
    exact .of_nil rfl nofun
  · intro s a t _ hone h hstep
    exact h.step hone hstep

theorem collects_once {s : State} {p : Pid} (hwait : s.handler = .wait)
    (hp : p ∈ s.children.zombies) :
    ∃ u, (system UnixStrSrv01.sig_chld).run s [.reap p, .printf none, .ret] =
        some u ∧ u.handler = .idle ∧ u.children = s.children.collected p := by
  have hreap : (system UnixStrSrv01.sig_chld).step s (.reap p) = some
      { s with children := s.children.collected p, handler := .printf p.val } := by
    simp [system, State.step, hwait, Children.reap_of_mem hp,
      UnixStrSrv01.sig_chld]
  refine ⟨{ s with
      children := s.children.collected p
      handler := .idle
      printed := s.printed ++ [(p.val : Int)] }, ?_, rfl, rfl⟩
  rw [System.run_cons_of_step hreap]
  rfl

theorem not_oneZombie {s t : State}
    (hstep : s.step UnixStrSrv01.sig_chld .deliver = some t)
    (hmany : ¬OneZombie s .deliver) :
    Blocks t ∨ ∃ (p : Pid) (u : State),
      (system UnixStrSrv01.sig_chld).run t [.reap p, .printf none, .ret] =
        some u ∧ Quiet u ∧ u.children.zombies ≠ [] := by
  cases State.step_move hstep with
  | @deliver c hidle hdeliver =>
      obtain ⟨hlive, hzombies, hpending⟩ := Children.deliver_eq_some hdeliver
      simp only [OneZombie, true_implies, not_or, not_and] at hmany
      rw [← hzombies, ← hlive] at hmany
      cases hlist : c.zombies with
      | nil => exact .inl ⟨rfl, hlist, hmany.2 hlist⟩
      | cons p rest =>
          have hp : p ∈ c.zombies := by simp [hlist]
          obtain ⟨u, hrun, hret, hchildren⟩ := collects_once
            (s := { s with
              interrupted := s.interrupted || s.pc == .accept
              children := c
              handler := .wait
              saved := s.errno }) rfl hp
          refine .inr ⟨p, u, hrun, ⟨?_, hret⟩, ?_⟩
          · rw [hchildren]
            exact hpending
          · intro hnil
            have hlen := Children.length_collected hp
            rw [hchildren] at hnil
            change (c.collected p).zombies = [] at hnil
            rw [hnil] at hlen
            exact hmany.1 hlen.symm

/-- In a run in which every signal is delivered for one terminated child, or
when no child is left, `unix_str_srv01.c` leaves no zombie and its handler does
not block; and a signal delivered for something else ends in one or the
other. -/
theorem unix_str_srv01_reaps (s : State) :
    (((system UnixStrSrv01.sig_chld).restrict OneZombie).Reachable s →
      (Quiet s → s.children.zombies = []) ∧ ¬Blocks s) ∧
      ((system UnixStrSrv01.sig_chld).Reachable s → ∀ t : State,
        s.step UnixStrSrv01.sig_chld .deliver = some t →
          ¬OneZombie s .deliver →
            Blocks t ∨ ∃ (p : Pid) (u : State),
              (system UnixStrSrv01.sig_chld).run t
                [.reap p, .printf none, .ret] = some u ∧
                Quiet u ∧ u.children.zombies ≠ []) := by
  constructor
  · intro hs
    obtain ⟨hzombies, hlive⟩ := restrict_matched hs
    constructor
    · rintro ⟨hpending, hidle⟩
      have hle := hzombies hpending
      rw [hidle] at hle
      exact List.length_eq_zero_iff.mp (Nat.le_zero.mp hle)
    · rintro ⟨hwait, hnil, hleft⟩
      exact hleft (hlive hwait hnil)
  · intro _ t hstep hmany
    exact not_oneZombie hstep hmany

/-- Two children end while one signal is pending; the run of the handler for it
collects one of them. -/
theorem unix_str_srv01_zombie_left :
    ¬∀ s : State, (system UnixStrSrv01.sig_chld).Reachable s →
      (Quiet s → s.children.zombies = []) ∧ ¬Blocks s := by
  intro hall
  have hmap : ((system UnixStrSrv01.sig_chld).run (.start 0) (coalesced ++
      [.printf none, .ret])).map
        (fun s => (decide (Quiet s), s.children.zombies.length)) =
      some (true, 1) := by decide
  obtain ⟨s, hrun, hfacts⟩ := Option.map_eq_some_iff.mp hmap
  obtain ⟨hquiet, hlen⟩ := Prod.mk.inj hfacts
  have hnil := (hall s ⟨_, _, ⟨0, rfl⟩, hrun⟩).1 (of_decide_eq_true hquiet)
  rw [hnil] at hlen
  cases hlen

end MyUnp.ForkServer
