import MyUnp.PreforkAccounting

namespace MyUnp.PreforkShutdown

open MyUnp.PreforkAccounting
open MyUnp.PreforkServer
open MyUnp.Readline
open MyUnp.TransitionSystem

/-- The parent of `server.c` in `main`, or in `sig_int` before `kill(pids[i], SIGTERM)`, in the
loop around `wait`, before the `printf` for child `i`, or after `exit`. -/
inductive Pc (n : Nat) where
  | main
  | killing (i : Fin n)
  | waiting
  | printing (i : Fin n)
  | exited
  deriving DecidableEq

/-- The pool and the parent, and for each child whether a signal was sent to it,
has ended it, and whether `wait` has returned its pid. -/
structure State (n : Nat) where
  pool : PreforkServer.State n
  pc : Pc n
  signalled : Fin n → Bool
  killed : Fin n → Bool
  reaped : Fin n → Bool
  printed : List Nat

inductive Act (n : Nat) where
  | pool (a : PreforkServer.Act n)
  | interrupt
  | interruptChild (i : Fin n)
  | kill
  | terminate (i : Fin n)
  | reap (i : Fin n)
  | noChild
  | print

variable {n : Nat}

def State.start (n : Nat) : State n where
  pool := .start n
  pc := .main
  signalled _ := false
  killed _ := false
  reaped _ := false
  printed := []

def hasEnded : Child → Bool
  | .ended _ _ => true
  | _ => false

def State.dead (s : State n) (i : Fin n) : Bool :=
  s.killed i || hasEnded (s.pool.child i)

def afterKill (i : Nat) : Pc n :=
  if h : i < n then .killing ⟨i, h⟩ else .waiting

def afterPrint (i : Nat) : Pc n :=
  if h : i < n then .printing ⟨i, h⟩ else .exited

def actor : PreforkServer.Act n → Option (Fin n)
  | .fork => none
  | .arrive _ => none
  | .select i => some i
  | .accept i => some i
  | .count i => some i
  | .request i _ => some i
  | .close i => some i

/-- `main` forks, connections complete while the parent has the listening
socket, and a child runs until a signal ends it. -/
def State.mayRun (s : State n) (a : PreforkServer.Act n) : Bool :=
  match a, actor a with
  | .fork, _ => decide (s.pc = .main)
  | _, some i => !s.killed i
  | _, none => decide (s.pc ≠ .exited)

def State.step (s : State n) : Act n → Option (State n)
  | .pool a =>
      if s.mayRun a then (s.pool.step a).map fun p => { s with pool := p }
      else none
  -- the handler is installed after the last `child_make`
  | .interrupt =>
      if s.pc = .main ∧ s.pool.forked = n then some { s with pc := afterKill 0 }
      else none
  -- the terminal sends its SIGINT to the children as well
  | .interruptChild i =>
      if i.val < s.pool.forked then
        some { s with signalled := Function.update s.signalled i true }
      else none
  | .kill =>
      match s.pc with
      | .killing i => some { s with
          signalled := Function.update s.signalled i true
          pc := afterKill (i + 1) }
      | _ => none
  | .terminate i =>
      if s.signalled i = true ∧ s.dead i = false then
        some { s with killed := Function.update s.killed i true }
      else none
  | .reap i =>
      if s.pc = .waiting ∧ s.dead i = true ∧ s.reaped i = false then
        some { s with reaped := Function.update s.reaped i true }
      else none
  -- `wait` fails with `ECHILD`
  | .noChild =>
      if s.pc = .waiting ∧ ∀ i, s.reaped i = true then
        some { s with pc := afterPrint 0 }
      else none
  | .print =>
      match s.pc with
      | .printing i => some { s with
          printed := s.printed ++ [s.pool.cptr i]
          pc := afterPrint (i + 1) }
      | _ => none

def system (n : Nat) : System (State n) (Act n) where
  init s := s = .start n
  step := State.step

inductive Move (s : State n) : Act n → State n → Prop where
  | pool {a : PreforkServer.Act n} {p : PreforkServer.State n}
      (hrun : s.mayRun a = true)
      (hstep : (PreforkServer.system n).step s.pool a = some p) :
      Move s (.pool a) { s with pool := p }
  | interrupt (hpc : s.pc = .main) (hforked : s.pool.forked = n) :
      Move s .interrupt { s with pc := afterKill 0 }
  | interruptChild {i : Fin n} (hi : i.val < s.pool.forked) :
      Move s (.interruptChild i)
        { s with signalled := Function.update s.signalled i true }
  | kill {i : Fin n} (hpc : s.pc = .killing i) :
      Move s .kill { s with
        signalled := Function.update s.signalled i true
        pc := afterKill (i + 1) }
  | terminate {i : Fin n} (hsignalled : s.signalled i = true)
      (hdead : s.dead i = false) :
      Move s (.terminate i)
        { s with killed := Function.update s.killed i true }
  | reap {i : Fin n} (hpc : s.pc = .waiting) (hdead : s.dead i = true)
      (hreaped : s.reaped i = false) :
      Move s (.reap i) { s with reaped := Function.update s.reaped i true }
  | noChild (hpc : s.pc = .waiting) (hall : ∀ i, s.reaped i = true) :
      Move s .noChild { s with pc := afterPrint 0 }
  | print {i : Fin n} (hpc : s.pc = .printing i) :
      Move s .print { s with
        printed := s.printed ++ [s.pool.cptr i]
        pc := afterPrint (i + 1) }

theorem step_move {s t : State n} {l : Act n}
    (h : (system n).step s l = some t) : Move s l t := by
  change s.step l = some t at h
  cases l with
  | pool a =>
      rw [State.step, Option.ite_none_right_eq_some, Option.map_eq_some_iff] at h
      obtain ⟨hrun, p, hp, rfl⟩ := h
      exact .pool hrun hp
  | interrupt =>
      obtain ⟨⟨hpc, hforked⟩, rfl⟩ := guard_eq_some.mp h
      exact .interrupt hpc hforked
  | interruptChild i =>
      obtain ⟨hi, rfl⟩ := guard_eq_some.mp h
      exact .interruptChild hi
  | kill =>
      rw [State.step] at h
      split at h
      · rename_i hpc
        obtain rfl := Option.some.inj h
        exact .kill hpc
      · simp at h
  | terminate i =>
      obtain ⟨⟨hsignalled, hdead⟩, rfl⟩ := guard_eq_some.mp h
      exact .terminate hsignalled hdead
  | reap i =>
      obtain ⟨⟨hpc, hdead, hreaped⟩, rfl⟩ := guard_eq_some.mp h
      exact .reap hpc hdead hreaped
  | noChild =>
      obtain ⟨⟨hpc, hall⟩, rfl⟩ := guard_eq_some.mp h
      exact .noChild hpc hall
  | print =>
      rw [State.step] at h
      split at h
      · rename_i hpc
        obtain rfl := Option.some.inj h
        exact .print hpc
      · simp at h

def Pc.sent : Pc n → Nat
  | .main => 0
  | .killing i => i
  | _ => n

def Pc.waited : Pc n → Bool
  | .printing _ => true
  | .exited => true
  | _ => false

def Pc.shown : Pc n → Nat
  | .printing i => i
  | .exited => n
  | _ => 0

@[simp] theorem afterKill_sent (i : Nat) (h : i ≤ n) :
    (afterKill i : Pc n).sent = i := by
  rw [afterKill]
  split
  · rfl
  · show n = i
    omega

@[simp] theorem afterKill_waited (i : Nat) :
    (afterKill i : Pc n).waited = false := by
  rw [afterKill]
  split <;> rfl

@[simp] theorem afterKill_shown (i : Nat) : (afterKill i : Pc n).shown = 0 := by
  rw [afterKill]
  split <;> rfl

@[simp] theorem afterPrint_sent (i : Nat) : (afterPrint i : Pc n).sent = n := by
  rw [afterPrint]
  split <;> rfl

@[simp] theorem afterPrint_waited (i : Nat) :
    (afterPrint i : Pc n).waited = true := by
  rw [afterPrint]
  split <;> rfl

@[simp] theorem afterPrint_shown (i : Nat) (h : i ≤ n) :
    (afterPrint i : Pc n).shown = i := by
  rw [afterPrint]
  split
  · rfl
  · show n = i
    omega

theorem step_of_hasEnded {s : PreforkServer.State n} {a : PreforkServer.Act n}
    {i : Fin n} (ha : actor a = some i) (hi : hasEnded (s.child i) = true) :
    s.step a = none := by
  cases hchild : s.child i with
  | notForked =>
      rw [hchild] at hi
      simp [hasEnded] at hi
  | running stage =>
      rw [hchild] at hi
      simp [hasEnded] at hi
  | ended c x =>
      cases a <;> simp only [actor, Option.some_inj, reduceCtorEq] at ha <;>
        subst ha <;> simp [PreforkServer.State.step, hchild]

theorem pool_blocked {s : State n} {a : PreforkServer.Act n} {i : Fin n}
    (ha : actor a = some i) (hi : s.dead i = true) :
    (system n).step s (.pool a) = none := by
  show s.step (.pool a) = none
  rw [State.step]
  rcases Bool.or_eq_true_iff.mp hi with hkilled | hended
  · have hstuck : s.mayRun a = false := by
      cases a <;> simp_all [State.mayRun, actor]
    rw [hstuck]
    rfl
  · rw [step_of_hasEnded ha hended]
    simp

theorem pool_step {s t : PreforkServer.State n} {a : PreforkServer.Act n}
    (h : (PreforkServer.system n).Reachable s)
    (hstep : (PreforkServer.system n).step s a = some t) (j : Fin n) :
    (hasEnded (s.child j) = true → hasEnded (t.child j) = true) ∧
      (actor a ≠ some j → t.cptr j = s.cptr j) := by
  have hkeep : ∀ (i : Fin n) (ch : Child), hasEnded (s.child i) = false →
      hasEnded (s.child j) = true →
        hasEnded (Function.update s.child i ch j) = true := by
    intro i ch hi hj
    rcases eq_or_ne j i with rfl | hji
    · rw [hj] at hi
      simp at hi
    · rw [Function.update_of_ne hji]
      exact hj
  cases PreforkServer.step_move hstep with
  | fork hlt =>
      have hnew := ((reachable_inv h).forked ⟨s.forked, hlt⟩).mpr (Nat.le_refl _)
      exact ⟨hkeep _ _ (by rw [hnew]; rfl), fun _ => rfl⟩
  | arrive script => exact ⟨id, fun _ => rfl⟩
  | select hi hqueue => exact ⟨hkeep _ _ (by rw [hi]; rfl), fun _ => rfl⟩
  | accept hi hqueue => exact ⟨hkeep _ _ (by rw [hi]; rfl), fun _ => rfl⟩
  | @count i c hi =>
      refine ⟨hkeep _ _ (by rw [hi]; rfl), fun ha => ?_⟩
      have hji : j ≠ i := by
        rintro rfl
        exact ha rfl
      exact Function.update_of_ne hji ..
  | request hi => exact ⟨hkeep _ _ (by rw [hi]; rfl), fun _ => rfl⟩
  | close hi => exact ⟨hkeep _ _ (by rw [hi]; rfl), fun _ => rfl⟩

/-- Without its parent the pool is the preforked server. -/
def toPool (n : Nat) : Refinement (system n) (PreforkServer.system n) where
  abs := State.pool
  init := by
    rintro s rfl
    rfl
  step := by
    intro s l t _ hstep
    cases step_move hstep with
    | @pool a p hrun hp => exact ⟨[a], by simp [hp]⟩
    | interrupt hpc hforked => exact ⟨[], rfl⟩
    | interruptChild hi => exact ⟨[], rfl⟩
    | kill hpc => exact ⟨[], rfl⟩
    | terminate hsignalled hdead => exact ⟨[], rfl⟩
    | reap hpc hdead hreaped => exact ⟨[], rfl⟩
    | noChild hpc hall => exact ⟨[], rfl⟩
    | print hpc => exact ⟨[], rfl⟩

structure Inv (s : State n) : Prop where
  forked : s.pc ≠ .main → s.pool.forked = n
  sent : ∀ i : Fin n, i.val < s.pc.sent → s.signalled i = true
  killed : ∀ i, s.killed i = true → s.signalled i = true
  reaped : ∀ i, s.reaped i = true → s.dead i = true ∧ s.pc.sent = n
  waited : s.pc.waited = true → ∀ i, s.reaped i = true
  printed : s.printed = ((List.finRange n).take s.pc.shown).map s.pool.cptr

theorem inv_start (n : Nat) : Inv (.start n) := by
  constructor <;> simp [State.start, Pc.sent, Pc.waited, Pc.shown]

theorem Inv.nothing_printed {s : State n} (h : Inv s) (hshown : s.pc.shown = 0) :
    s.printed = [] := by
  rw [h.printed, hshown, List.take_zero, List.map_nil]

theorem Inv.pool {s : State n} {a : PreforkServer.Act n}
    {p : PreforkServer.State n} (h : Inv s) (hreach : (system n).Reachable s)
    (hrun : s.mayRun a = true)
    (hstep : (PreforkServer.system n).step s.pool a = some p) :
    Inv { s with pool := p } := by
  have hpool := (toPool n).reachable hreach
  constructor
  · intro hpc
    have hforked := h.forked hpc
    cases PreforkServer.step_move hstep with
    | fork hlt => exact absurd hforked (Nat.ne_of_lt hlt)
    | arrive script => exact hforked
    | select hi hqueue => exact hforked
    | accept hi hqueue => exact hforked
    | count hi => exact hforked
    | request hi => exact hforked
    | close hi => exact hforked
  · exact h.sent
  · exact h.killed
  · intro i hi
    obtain ⟨hdead, hsent⟩ := h.reaped i hi
    refine ⟨?_, hsent⟩
    rcases Bool.or_eq_true_iff.mp hdead with hkilled | hended
    · exact Bool.or_eq_true_iff.mpr (.inl hkilled)
    · exact Bool.or_eq_true_iff.mpr (.inr ((pool_step hpool hstep i).1 hended))
  · exact h.waited
  · show s.printed = ((List.finRange n).take s.pc.shown).map p.cptr
    rw [h.printed]
    cases hwaited : s.pc.waited with
    | false =>
        have hshown : s.pc.shown = 0 := by
          cases hpc : s.pc <;> simp_all [Pc.shown, Pc.waited]
        rw [hshown, List.take_zero, List.map_nil, List.map_nil]
    | true =>
        apply List.map_congr_left
        intro j _
        refine ((pool_step hpool hstep j).2 fun ha => ?_).symm
        have hblocked := pool_blocked ha (h.reaped j (h.waited hwaited j)).1
        have hgoes : (system n).step s (.pool a) = some { s with pool := p } := by
          show s.step (.pool a) = _
          rw [State.step, if_pos hrun, show s.pool.step a = some p from hstep]
          rfl
        rw [hgoes] at hblocked
        simp at hblocked

theorem update_true {f : Fin n → Bool} {i j : Fin n} (h : f j = true) :
    Function.update f i true j = true := by
  rcases eq_or_ne j i with rfl | hji
  · exact Function.update_self ..
  · rw [Function.update_of_ne hji, h]

theorem Inv.step {s t : State n} {l : Act n} (h : Inv s)
    (hreach : (system n).Reachable s) (hstep : (system n).step s l = some t) :
    Inv t := by
  cases step_move hstep with
  | pool hrun hp => exact h.pool hreach hrun hp
  | interrupt hpc hforked =>
      have hnone : ∀ i, s.reaped i = false ∨ n = 0 := by
        intro i
        cases hi : s.reaped i with
        | false => exact .inl rfl
        | true =>
            have hsent := (h.reaped i hi).2
            rw [hpc] at hsent
            exact .inr hsent.symm
      constructor
      · exact fun _ => hforked
      · intro i hi
        simp at hi
      · exact h.killed
      · intro i hi
        refine ⟨(h.reaped i hi).1, ?_⟩
        rcases hnone i with hfalse | hzero
        · rw [show s.reaped i = true from hi] at hfalse
          simp at hfalse
        · simp [hzero]
      · simp
      · simpa using h.nothing_printed (by rw [hpc]; rfl)
  | interruptChild hi =>
      exact ⟨h.forked, fun j hj => update_true (h.sent j hj),
        fun j hj => update_true (h.killed j hj), h.reaped, h.waited, h.printed⟩
  | @kill i hpc =>
      have hnone : ∀ j, s.reaped j ≠ true := by
        intro j hj
        have hsent := (h.reaped j hj).2
        rw [hpc] at hsent
        exact absurd hsent (Nat.ne_of_lt i.isLt)
      constructor
      · exact fun _ => h.forked (by simp [hpc])
      · intro j hj
        simp only [afterKill_sent (i.val + 1) i.isLt] at hj
        rcases eq_or_ne j i with rfl | hji
        · exact Function.update_self ..
        · apply update_true
          apply h.sent j
          have hval : j.val ≠ i.val := fun heq => hji (Fin.ext heq)
          rw [hpc]
          show j.val < i.val
          omega
      · exact fun j hj => update_true (h.killed j hj)
      · exact fun j hj => absurd hj (hnone j)
      · simp
      · simpa using h.nothing_printed (by rw [hpc]; rfl)
  | @terminate i hsignalled hdead =>
      refine ⟨h.forked, h.sent, ?_, ?_, h.waited, h.printed⟩
      · intro j hj
        rcases eq_or_ne j i with rfl | hji
        · exact hsignalled
        · simp only [Function.update_of_ne hji] at hj
          exact h.killed j hj
      · intro j hj
        obtain ⟨hold, hsent⟩ := h.reaped j hj
        refine ⟨?_, hsent⟩
        rcases Bool.or_eq_true_iff.mp hold with hkilled | hended
        · exact Bool.or_eq_true_iff.mpr (.inl (update_true hkilled))
        · exact Bool.or_eq_true_iff.mpr (.inr hended)
  | @reap i hpc hdead hreaped =>
      refine ⟨h.forked, h.sent, h.killed, ?_, ?_, h.printed⟩
      · intro j hj
        refine ⟨?_, by rw [hpc]; rfl⟩
        rcases eq_or_ne j i with rfl | hji
        · exact hdead
        · simp only [Function.update_of_ne hji] at hj
          exact (h.reaped j hj).1
      · simp [hpc, Pc.waited]
  | noChild hpc hall =>
      refine ⟨fun _ => h.forked (by simp [hpc]), ?_, h.killed, ?_,
        fun _ => hall, ?_⟩
      · intro j _
        apply h.sent j
        rw [hpc]
        exact j.isLt
      · exact fun j hj => ⟨(h.reaped j hj).1, afterPrint_sent 0⟩
      · simpa using h.nothing_printed (by rw [hpc]; rfl)
  | @print i hpc =>
      refine ⟨fun _ => h.forked (by simp [hpc]), ?_, h.killed, ?_, ?_, ?_⟩
      · intro j _
        apply h.sent j
        rw [hpc]
        exact j.isLt
      · exact fun j hj => ⟨(h.reaped j hj).1, afterPrint_sent _⟩
      · exact fun _ => h.waited (by rw [hpc]; rfl)
      · show s.printed ++ [s.pool.cptr i] = _
        have hshown : (afterPrint (i.val + 1) : Pc n).shown = i.val + 1 :=
          afterPrint_shown _ i.isLt
        rw [hshown, h.printed, hpc, List.take_add_one, List.map_append]
        simp [Pc.shown]

theorem reachable_inv {s : State n} (h : (system n).Reachable s) : Inv s := by
  refine h.invariant (P := Inv) ?_ ?_
  · rintro s rfl
    exact inv_start n
  · intro s l t hreach hs hstep
    exact hs.step hreach hstep

/-- What the shutdown guarantees: `kill` goes only to children whose pid `wait`
has not returned; once `wait` has failed every child is gone and nothing more
happens in the pool but that connections arrive; so the counters printed are the
last ones, and at the exit all of them, each the connections its child accepted
but for one that a signal caught before `cptr[i]++`; and a connection that no
child has accepted is still in the queue. -/
structure ShutdownLaw (s : State n) : Prop where
  pids : ∀ i, s.pc = .killing i → s.pool.forked = n ∧ ∀ j, s.reaped j = false
  quiet : s.pc.waited = true → (∀ i, s.reaped i = true ∧ s.dead i = true) ∧
    ∀ a, (∀ script, a ≠ .arrive script) → (system n).step s (.pool a) = none
  printed : s.printed = ((List.finRange n).map s.pool.cptr).take s.printed.length
  counted : s.pc = .exited →
    s.printed.length = n ∧ ∀ (i : Fin n) (k : Nat), s.printed[i.val]? = some k →
      k + (uncounted (s.pool.child i)).toNat = (s.pool.taken.map Prod.fst).count i
  total : s.pc = .exited →
    s.printed.sum + (Finset.univ.filter fun i => uncounted (s.pool.child i)).card =
        s.pool.taken.length ∧
      s.pool.taken.map Prod.snd ++ s.pool.queue = s.pool.arrived

theorem Inv.printed_exited {s : State n} (h : Inv s) (hpc : s.pc = .exited) :
    s.printed = (List.finRange n).map s.pool.cptr := by
  rw [h.printed, hpc]
  show ((List.finRange n).take n).map _ = _
  rw [List.take_of_length_le (by simp)]

theorem reachable_shutdownLaw {s : State n} (h : (system n).Reachable s) :
    ShutdownLaw s := by
  have hinv := reachable_inv h
  have hpool : (PreforkServer.system n).Reachable s.pool := (toPool n).reachable h
  constructor
  · intro i hpc
    refine ⟨hinv.forked (by simp [hpc]), fun j => ?_⟩
    by_contra hj
    have hsent := (hinv.reaped j (Bool.eq_true_of_not_eq_false hj)).2
    rw [hpc] at hsent
    exact absurd hsent (Nat.ne_of_lt i.isLt)
  · intro hwaited
    have hreaped := hinv.waited hwaited
    refine ⟨fun i => ⟨hreaped i, (hinv.reaped i (hreaped i)).1⟩, fun a ha => ?_⟩
    cases hactor : actor a with
    | some i => exact pool_blocked hactor (hinv.reaped i (hreaped i)).1
    | none =>
        cases a with
        | fork =>
            have hpc : s.pc ≠ .main := by
              intro hmain
              simp [hmain, Pc.waited] at hwaited
            show s.step (.pool .fork) = none
            simp [State.step, State.mayRun, hpc]
        | arrive script => exact absurd rfl (ha script)
        | select i => simp [actor] at hactor
        | accept i => simp [actor] at hactor
        | count i => simp [actor] at hactor
        | request i writeOk => simp [actor] at hactor
        | close i => simp [actor] at hactor
  · rw [hinv.printed, List.length_map, List.length_take, List.length_finRange,
      ← List.map_take, List.take_eq_take_iff.mpr]
    simp
  · intro hpc
    have hall := hinv.printed_exited hpc
    refine ⟨by rw [hall]; simp, fun i k hk => ?_⟩
    rw [hall, List.getElem?_map, List.getElem?_eq_getElem (by simp)] at hk
    obtain rfl : s.pool.cptr i = k := by simpa using hk
    exact (PreforkAccounting.reachable_inv hpool).counts i
  · intro hpc
    refine ⟨?_, taken_append_queue hpool⟩
    rw [hinv.printed_exited hpc, ← sum_cptr hpool, Fin.sum_univ_def]

theorem reachable_shutdownLaw_two : ∃ s : State 2, ShutdownLaw s ∧
    s.pc = .exited ∧ s.printed = [1, 0] ∧ s.pool.taken.length = 2 := by
  obtain ⟨s, hrun, hfacts⟩ : ∃ s, (system 2).run (.start 2)
      [.pool .fork, .pool .fork, .pool (.arrive ⟨[], .eof⟩), .pool (.select 0),
        .pool (.accept 0), .pool (.count 0), .pool (.arrive ⟨[], .eof⟩),
        .pool (.select 1), .pool (.accept 1), .interrupt, .kill, .kill,
        .terminate 0, .terminate 1, .reap 1, .reap 0, .noChild, .print,
        .print] = some s ∧
          s.pc = .exited ∧ s.printed = [1, 0] ∧ s.pool.taken.length = 2 :=
    ⟨_, rfl, rfl, rfl, rfl⟩
  exact ⟨s, reachable_shutdownLaw ⟨_, _, rfl, hrun⟩, hfacts⟩

def shuts : Act n → Bool
  | .pool _ => false
  | .interruptChild _ => false
  | _ => true

def Pc.todo : Pc n → Nat
  | .main => 2 * n + 2
  | .killing i => (n - i) + (n + 1)
  | .waiting => n + 1
  | .printing i => n - i
  | .exited => 0

theorem afterKill_todo (i : Nat) :
    (afterKill i : Pc n).todo = (n - i) + (n + 1) := by
  rw [afterKill]
  split
  · rfl
  · show n + 1 = _
    omega

theorem afterPrint_todo (i : Nat) : (afterPrint i : Pc n).todo = n - i := by
  rw [afterPrint]
  split
  · rfl
  · show 0 = _
    omega

def State.alive (s : State n) : Nat :=
  (Finset.univ.filter fun i => s.dead i = false).card

def State.unreaped (s : State n) : Nat :=
  (Finset.univ.filter fun i => s.reaped i = false).card

def State.rank (s : State n) : Nat := s.pc.todo + s.alive + s.unreaped

theorem rank_le {s : State n} (hpc : s.pc ≠ .main) : s.rank ≤ 4 * n + 1 := by
  have hdead := Finset.card_le_univ (Finset.univ.filter fun i => s.dead i = false)
  have hreaped :=
    Finset.card_le_univ (Finset.univ.filter fun i => s.reaped i = false)
  have htodo : s.pc.todo ≤ 2 * n + 1 := by
    cases h : s.pc with
    | main => exact absurd h hpc
    | killing i => simp only [Pc.todo]; omega
    | waiting => simp only [Pc.todo]; omega
    | printing i => simp only [Pc.todo]; omega
    | exited => simp only [Pc.todo]; omega
  rw [Fintype.card_fin] at hdead hreaped
  rw [State.rank, State.alive, State.unreaped]
  omega

theorem card_update_lt {f : Fin n → Bool} {i : Fin n} (h : f i = false) :
    (Finset.univ.filter fun j => Function.update f i true j = false).card + 1 ≤
      (Finset.univ.filter fun j => f j = false).card := by
  apply Finset.card_lt_card
  refine Finset.ssubset_iff_of_subset ?_ |>.mpr ⟨i, by simpa using h, by simp⟩
  intro j hj
  simp only [Finset.mem_filter, Finset.mem_univ, true_and] at hj ⊢
  rcases eq_or_ne j i with rfl | hji
  · exact h
  · rwa [Function.update_of_ne hji] at hj

theorem alive_pool {s : State n} {a : PreforkServer.Act n}
    {p : PreforkServer.State n} (h : (PreforkServer.system n).Reachable s.pool)
    (hstep : (PreforkServer.system n).step s.pool a = some p) :
    State.alive { s with pool := p } ≤ s.alive := by
  apply Finset.card_le_card
  intro i hi
  simp only [Finset.mem_filter, Finset.mem_univ, true_and, State.dead,
    Bool.or_eq_false_iff] at hi ⊢
  refine ⟨hi.1, ?_⟩
  by_contra hended
  have hlater := (pool_step h hstep i).1 (Bool.eq_true_of_not_eq_false hended)
  rw [hi.2] at hlater
  simp at hlater

theorem alive_terminate {s : State n} {i : Fin n} (hdead : s.dead i = false) :
    State.alive { s with killed := Function.update s.killed i true } + 1 ≤
      s.alive := by
  refine Nat.le_trans (Nat.add_le_add_right (Finset.card_le_card ?_) 1)
    (card_update_lt hdead)
  intro j hj
  simp only [Finset.mem_filter, Finset.mem_univ, true_and, State.dead] at hj ⊢
  rcases eq_or_ne j i with rfl | hji
  · simp at hj
  · simpa [hji, State.dead] using hj

theorem rank_step {s t : State n} {l : Act n} (h : (system n).Reachable s)
    (hstep : (system n).step s l = some t) :
    t.rank + (if shuts l then 1 else 0) ≤ s.rank := by
  cases step_move hstep with
  | @pool a p hrun hp =>
      have halive := alive_pool ((toPool n).reachable h) hp
      show s.pc.todo + _ + s.unreaped + 0 ≤ s.pc.todo + s.alive + s.unreaped
      omega
  | interrupt hpc hforked =>
      show (afterKill 0 : Pc n).todo + s.alive + s.unreaped + 1 ≤ s.rank
      rw [State.rank, afterKill_todo, hpc]
      show n - 0 + (n + 1) + s.alive + s.unreaped + 1 ≤
        2 * n + 2 + s.alive + s.unreaped
      omega
  | interruptChild hi => exact Nat.le_refl _
  | @kill i hpc =>
      show (afterKill (i.val + 1) : Pc n).todo + s.alive + s.unreaped + 1 ≤ s.rank
      rw [State.rank, afterKill_todo, hpc]
      show n - (i.val + 1) + (n + 1) + s.alive + s.unreaped + 1 ≤
        n - i.val + (n + 1) + s.alive + s.unreaped
      omega
  | terminate hsignalled hdead =>
      have halive := alive_terminate hdead
      show s.pc.todo + _ + s.unreaped + 1 ≤ s.pc.todo + s.alive + s.unreaped
      omega
  | reap hpc hdead hreaped =>
      have hlt := card_update_lt hreaped
      change State.unreaped { s with reaped := Function.update s.reaped _ true } + 1
        ≤ s.unreaped at hlt
      show s.pc.todo + s.alive + _ + 1 ≤ s.pc.todo + s.alive + s.unreaped
      omega
  | noChild hpc hall =>
      show (afterPrint 0 : Pc n).todo + s.alive + s.unreaped + 1 ≤ s.rank
      rw [State.rank, afterPrint_todo, hpc]
      show n - 0 + s.alive + s.unreaped + 1 ≤ n + 1 + s.alive + s.unreaped
      omega
  | @print i hpc =>
      show (afterPrint (i.val + 1) : Pc n).todo + s.alive + s.unreaped + 1 ≤ s.rank
      rw [State.rank, afterPrint_todo, hpc]
      show n - (i.val + 1) + s.alive + s.unreaped + 1 ≤
        n - i.val + s.alive + s.unreaped
      omega

/-- The handler is never stuck: a signalled child can end, one that has ended can
be waited for, and without children `wait` fails. -/
theorem shutdown_step {s : State n} (h : (system n).Reachable s)
    (hmain : s.pc ≠ .main) (hexited : s.pc ≠ .exited) :
    ∃ l t, shuts l = true ∧ (system n).step s l = some t ∧ t.pc ≠ .main := by
  have hinv := reachable_inv h
  cases hpc : s.pc with
  | main => exact absurd hpc hmain
  | killing i =>
      refine ⟨.kill, { s with
        signalled := Function.update s.signalled i true
        pc := afterKill (i + 1) }, rfl, ?_, ?_⟩
      · show s.step .kill = _
        rw [State.step, hpc]
      · simp only [afterKill]
        split <;> simp
  | waiting =>
      by_cases hall : ∀ i, s.reaped i = true
      · refine ⟨.noChild, { s with pc := afterPrint 0 }, rfl,
          guard_eq_some.mpr ⟨⟨hpc, hall⟩, rfl⟩, ?_⟩
        simp only [afterPrint]
        split <;> simp
      · obtain ⟨i, hi⟩ := not_forall.mp hall
        have hreaped := Bool.eq_false_of_not_eq_true hi
        cases hdead : s.dead i with
        | true =>
            exact ⟨.reap i, _, rfl, guard_eq_some.mpr ⟨⟨hpc, hdead, hreaped⟩, rfl⟩,
              by simp [hpc]⟩
        | false =>
            have hsignalled := hinv.sent i (by rw [hpc]; exact i.isLt)
            exact ⟨.terminate i, _, rfl,
              guard_eq_some.mpr ⟨⟨hsignalled, hdead⟩, rfl⟩, by simp [hpc]⟩
  | printing i =>
      refine ⟨.print, { s with
        printed := s.printed ++ [s.pool.cptr i]
        pc := afterPrint (i + 1) }, rfl, ?_, ?_⟩
      · show s.step .print = _
        rw [State.step, hpc]
      · simp only [afterPrint]
        split <;> simp
  | exited => exact absurd hpc hexited

/-- From the first `kill` on the shutdown always comes to its end, whatever the
children and their clients do meanwhile: no run holds more than `4n + 1` of its
steps, before the exit there is always one that can be taken, and steps of the
shutdown alone lead to the exit. -/
theorem shutdown_completes {s : State n} (h : (system n).Reachable s)
    (hmain : s.pc ≠ .main) :
    (∀ ls t, (system n).run s ls = some t → ls.countP shuts ≤ 4 * n + 1 ∧
      ((∀ l, shuts l = true → (system n).step t l = none) → t.pc = .exited)) ∧
      ∃ ls t, (∀ l ∈ ls, shuts l = true) ∧ (system n).run s ls = some t ∧
        t.pc = .exited := by
  have hleave : ∀ s l t, (system n).step s l = some t → s.pc ≠ .main →
      t.pc ≠ .main := by
    intro s l t hstep hs
    have hto : ∀ i, (afterKill i : Pc n) ≠ .main ∧ (afterPrint i : Pc n) ≠ .main := by
      intro i
      rw [afterKill, afterPrint]
      constructor <;> split <;> simp
    cases step_move hstep with
    | pool hrun hp => exact hs
    | interrupt hpc hforked => exact (hto 0).1
    | interruptChild hi => exact hs
    | @kill i hpc => exact (hto _).1
    | terminate hsignalled hdead => exact hs
    | reap hpc hdead hreaped => exact hs
    | noChild hpc hall => exact (hto 0).2
    | @print i hpc => exact (hto _).2
  constructor
  · intro ls t hrun
    have hcount := h.run_countP_le (fun _ _ _ hr hst => rank_step hr hst) hrun
    refine ⟨Nat.le_trans (Nat.le_add_right _ _) (Nat.le_trans hcount (rank_le hmain)),
      fun hstuck => ?_⟩
    have ht : t.pc ≠ .main := h.run_invariant (C := fun _ => True)
      (fun s l u _ _ hs hst => hleave s l u hst hs) hmain (fun _ _ => trivial) hrun
    by_contra hexited
    obtain ⟨l, u, hl, hst, -⟩ := shutdown_step (h.of_run hrun) ht hexited
    rw [hstuck l hl] at hst
    simp at hst
  · have hnext : ∀ s, ((system n).Reachable s ∧ s.pc ≠ .main) → ¬s.pc = .exited →
        ∃ l t, shuts l = true ∧ (system n).step s l = some t ∧
          ((system n).Reachable t ∧ t.pc ≠ .main) ∧ t.rank < s.rank := by
      rintro s ⟨hs, hpc⟩ hexited
      obtain ⟨l, t, hl, hst, ht⟩ := shutdown_step hs hpc hexited
      have hrank := rank_step hs hst
      rw [hl, if_pos rfl] at hrank
      exact ⟨l, t, hl, hst, ⟨hs.step hst, ht⟩, hrank⟩
    obtain ⟨ls, t, hls, hrun, -, hdone⟩ := System.exists_run_done hnext ⟨h, hmain⟩
    exact ⟨ls, t, hls, hrun, hdone⟩

theorem shutdown_completes_one : ∃ s : State 1, s.pc = .killing 0 ∧
    ∃ ls t, (∀ l ∈ ls, shuts l = true) ∧ (system 1).run s ls = some t ∧
      t.pc = .exited := by
  obtain ⟨s, hrun, hpc⟩ : ∃ s, (system 1).run (.start 1)
      [.pool .fork, .interrupt] = some s ∧ s.pc = .killing 0 := ⟨_, rfl, rfl⟩
  exact ⟨s, hpc, (shutdown_completes ⟨_, _, rfl, hrun⟩ (by simp [hpc])).2⟩

end MyUnp.PreforkShutdown
