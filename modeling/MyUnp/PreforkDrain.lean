import MyUnp.PreforkPool

namespace MyUnp.PreforkDrain

open MyUnp.PreforkAccounting
open MyUnp.PreforkPool
open MyUnp.PreforkServer
open MyUnp.Readline
open MyUnp.TransitionSystem
open MyUnp.WebChild
open MyUnp.WebChildProtocol

variable {n : Nat}

/-- The rounds of `web_child` on what is left of a stream: one for each reply,
and the last. -/
def rounds (rb : ReadBuf) (src : Source) : Nat :=
  (outstanding rb src).replies.length + 1

/-- The steps of a child up to its next `Accept`. -/
def todo (rb : ReadBuf) : Child → Nat
  | .notForked => 2
  | .running .select => 1
  | .running .accept => 0
  | .running (.accepted c) => rounds rb c.script + 3
  | .running (.serving _ src) => rounds rb src + 2
  | .running (.closing _) => 2
  | .ended _ _ => 0

def cost (c : Conn) : Nat := (outcome c).replies.length + 5

def work (s : State n) : Nat := ∑ i, todo (s.readBuf i) (s.child i)

def costs (cs : List Conn) : Nat := (cs.map cost).sum

@[simp] theorem costs_cons (c : Conn) (cs : List Conn) :
    costs (c :: cs) = cost c + costs cs := by
  rw [costs, List.map_cons, List.sum_cons, costs]

@[simp] theorem costs_snoc (cs : List Conn) (c : Conn) :
    costs (cs ++ [c]) = costs cs + cost c := by
  simp [costs]

def works : Act n → Bool
  | .arrive _ => false
  | _ => true

theorem rounds_next (rb : ReadBuf) (c : Conn) (src : Source) (writeOk : Bool) :
    let r := nextRequest rb src
    todo r.2.1 (afterRequest c r.2.2 writeOk r.1) + 1 ≤
      todo rb (.running (.serving c src)) := by
  have hround := outstanding_next rb src
  rcases hnext : nextRequest rb src with ⟨req, rb', src'⟩
  simp only [hnext] at hround ⊢
  cases req with
  | closed => exact Nat.add_le_add_right (Nat.succ_pos _) 2
  | readError => simp only [afterRequest, todo]; omega
  | refused k => simp only [afterRequest, todo]; omega
  | reply k =>
      cases writeOk with
      | true =>
          simp only [afterRequest, todo, rounds, hround.1, List.length_cons, if_true]
          omega
      | false =>
          simp only [afterRequest, todo, Bool.false_eq_true, if_false]
          omega

theorem work_update {s t : State n} {i : Fin n} {ch : Child} {rb : ReadBuf}
    (hchild : t.child = Function.update s.child i ch)
    (hbuf : t.readBuf = Function.update s.readBuf i rb) :
    work t + todo (s.readBuf i) (s.child i) = work s + todo rb ch := by
  have hself : todo (t.readBuf i) (t.child i) = todo rb ch := by
    rw [hchild, hbuf, Function.update_self, Function.update_self]
  rw [← hself]
  refine sum_rank_of_eq (f := fun j => todo (t.readBuf j) (t.child j))
    (g := fun j => todo (s.readBuf j) (s.child j)) fun j hj => ?_
  rw [hchild, hbuf, Function.update_of_ne hj, Function.update_of_ne hj]

theorem work_step {s t : State n} {i : Fin n} {old ch : Child}
    (hi : s.child i = old) (hchild : t.child = Function.update s.child i ch)
    (hbuf : t.readBuf = s.readBuf) :
    work t + todo (s.readBuf i) old = work s + todo (s.readBuf i) ch := by
  rw [← hi]
  apply work_update hchild
  rw [hbuf, Function.update_eq_self]

theorem rank_step {s t : State n} {l : Act n} (h : (system n).Reachable s)
    (hstep : (system n).step s l = some t) :
    work t + costs t.queue + (if works l then 1 else 0) + (2 * n + costs s.arrived) ≤
      work s + costs s.queue + (2 * n + costs t.arrived) := by
  cases step_move hstep with
  | fork hlt =>
      have hnew := ((reachable_inv h).forked ⟨s.forked, hlt⟩).mpr (Nat.le_refl _)
      have hwork := work_step
        (t := { s.setChild ⟨s.forked, hlt⟩ (.running .select) with
          forked := s.forked + 1 }) hnew rfl rfl
      change _ + 2 = _ + 1 at hwork
      show work { s.setChild ⟨s.forked, hlt⟩ (.running .select) with
          forked := s.forked + 1 } + costs s.queue + 1 + (2 * n + costs s.arrived) ≤
        work s + costs s.queue + (2 * n + costs s.arrived)
      omega
  | arrive script =>
      show work s + costs (s.queue ++ [_]) + 0 + (2 * n + costs s.arrived) ≤
        work s + costs s.queue + (2 * n + costs (s.arrived ++ [_]))
      rw [costs_snoc, costs_snoc]
      omega
  | @select i hi hqueue =>
      have hwork := work_step (t := s.setChild i (.running .accept)) hi rfl rfl
      simp only [todo] at hwork
      show _ + costs s.queue + 1 + (2 * n + costs s.arrived) ≤
        work s + costs s.queue + (2 * n + costs s.arrived)
      omega
  | @accept i c queue hi hqueue =>
      have hwork := work_step (t := s.accept i c queue) hi rfl rfl
      have hempty : s.readBuf i = .empty := by
        have hok := (reachable_childrenOk h).ok i
        rw [hi] at hok
        exact hok
      rw [hempty] at hwork
      change work _ + 0 = work s + ((outcome c).replies.length + 1 + 3) at hwork
      show _ + costs queue + 1 + (2 * n + costs s.arrived) ≤
        work s + costs s.queue + (2 * n + costs s.arrived)
      rw [hqueue, costs_cons, cost]
      omega
  | @count i c hi =>
      have hwork := work_step (t := s.count i c) hi rfl rfl
      simp only [todo] at hwork
      show _ + costs s.queue + 1 + (2 * n + costs s.arrived) ≤
        work s + costs s.queue + (2 * n + costs s.arrived)
      omega
  | @request i c src writeOk hi =>
      have hwork := work_update (t := s.request i c src writeOk) rfl rfl
      have hround := rounds_next (s.readBuf i) c src writeOk
      rw [hi] at hwork
      show _ + costs s.queue + 1 + (2 * n + costs s.arrived) ≤
        work s + costs s.queue + (2 * n + costs s.arrived)
      omega
  | @close i c hi =>
      have hwork := work_step (t := s.setChild i (.running .select)) hi rfl rfl
      simp only [todo] at hwork
      show _ + costs s.queue + 1 + (2 * n + costs s.arrived) ≤
        work s + costs s.queue + (2 * n + costs s.arrived)
      omega

/-- Nothing is left to do: every child has been forked and waits for a
connection or has been ended by one, and if one waits, no connection does; the
counters are the connections that were accepted, on each of which `web_child`
has returned unless it has ended its child. -/
structure Drained (s : State n) : Prop where
  forked : s.forked = n
  children : ∀ i, Idle s i ∨ ∃ c x, s.child i = .ended c x
  queue : ∀ i, Idle s i → s.queue = []
  counted : ∀ i, s.cptr i = (s.taken.map Prod.fst).count i
  total : ∑ i, s.cptr i = s.taken.length
  served : ∀ i c, (i, c) ∈ s.taken →
    (outcome c).ended = .returned ∨ ∃ x, s.child i = .ended c x

def Stuck (s : State n) : Prop :=
  ∀ l, works l = true → (system n).step s l = none

theorem forked_le {s : State n} (h : (system n).Reachable s) : s.forked ≤ n := by
  refine h.invariant (P := fun s => s.forked ≤ n) ?_ ?_
  · rintro s rfl
    exact Nat.zero_le n
  · intro s l t _ hs hstep
    cases step_move hstep with
    | fork hlt => exact hlt
    | arrive script => exact hs
    | select hi hqueue => exact hs
    | accept hi hqueue => exact hs
    | count hi => exact hs
    | request hi => exact hs
    | close hi => exact hs

theorem Stuck.forked {s : State n} (h : Stuck s) (hreach : (system n).Reachable s) :
    s.forked = n := by
  apply Nat.le_antisymm (forked_le hreach)
  by_contra hlt
  have hfork := h .fork rfl
  change s.step .fork = none at hfork
  simp [State.step, Nat.lt_of_not_le hlt] at hfork

theorem Stuck.child {s : State n} (h : Stuck s) (hreach : (system n).Reachable s)
    (i : Fin n) : (Idle s i ∧ s.queue = []) ∨ ∃ c x, s.child i = .ended c x := by
  cases hi : s.child i with
  | notForked =>
      have hle := ((reachable_inv hreach).forked i).mp hi
      have hforked := h.forked hreach
      exact absurd i.isLt (by omega)
  | running stage =>
      cases stage with
      | select =>
          refine .inl ⟨.inl hi, ?_⟩
          by_contra hqueue
          have hnone := h (.select i) rfl
          change s.step (.select i) = none at hnone
          simp [State.step, hi, hqueue] at hnone
      | accept =>
          refine .inl ⟨.inr hi, ?_⟩
          by_contra hqueue
          obtain ⟨c, queue, hcons⟩ := List.exists_cons_of_ne_nil hqueue
          have hnone := h (.accept i) rfl
          rw [accept_eq_some hi hcons] at hnone
          simp at hnone
      | accepted c =>
          have hnone := h (.count i) rfl
          change s.step (.count i) = none at hnone
          simp [State.step, hi] at hnone
      | serving c src =>
          have hnone := h (.request i true) rfl
          change s.step (.request i true) = none at hnone
          simp [State.step, hi] at hnone
      | closing c =>
          have hnone := h (.close i) rfl
          change s.step (.close i) = none at hnone
          simp [State.step, hi] at hnone
  | ended c x => exact .inr ⟨c, x, rfl⟩

theorem Stuck.drained {s : State n} (h : Stuck s) (hreach : (system n).Reachable s) :
    Drained s := by
  have hcounted : ∀ i, uncounted (s.child i) = false := by
    intro i
    rcases h.child hreach i with ⟨hi | hi, -⟩ | ⟨c, x, hi⟩
    all_goals rw [hi]; rfl
  constructor
  · exact h.forked hreach
  · intro i
    exact (h.child hreach i).imp And.left id
  · intro i hidle
    rcases h.child hreach i with ⟨-, hqueue⟩ | ⟨c, x, hi⟩
    · exact hqueue
    · rcases hidle with hidle | hidle <;> simp [hi] at hidle
  · intro i
    have hcounts := (reachable_inv hreach).counts i
    rwa [hcounted i] at hcounts
  · have hsum := sum_cptr hreach
    simpa [hcounted] using hsum
  · intro i c hmem
    refine (reachable_childrenOk hreach).past i c hmem |>.elim (fun hhand => ?_) .inl
    rcases h.child hreach i with ⟨hi | hi, -⟩ | ⟨c', x, hi⟩
    · simp [hi, inHand] at hhand
    · simp [hi, inHand] at hhand
    · rw [hi] at hhand
      obtain rfl := Option.some.inj hhand
      exact .inr ⟨x, hi⟩

theorem works_arrived {s t : State n} {l : Act n} (hl : works l = true)
    (hstep : (system n).step s l = some t) : t.arrived = s.arrived := by
  cases step_move hstep with
  | arrive script => simp [works] at hl
  | fork hlt => rfl
  | select hi hqueue => rfl
  | accept hi hqueue => rfl
  | count hi => rfl
  | request hi => rfl
  | close hi => rfl

theorem exists_drained {s : State n} (h : (system n).Reachable s) :
    ∃ ls t, (∀ l ∈ ls, works l = true) ∧ (system n).run s ls = some t ∧ Stuck t := by
  have hnext : ∀ s l t, (system n).Reachable s → works l = true →
      (system n).step s l = some t →
        (system n).Reachable t ∧ work t + costs t.queue < work s + costs s.queue := by
    intro s l t hs hl hstep
    have hrank := rank_step hs hstep
    rw [hl, if_pos rfl, works_arrived hl hstep] at hrank
    exact ⟨hs.step hstep, by omega⟩
  obtain ⟨ls, t, hls, hrun, -, hdone⟩ := System.exists_run_stuck hnext h
  exact ⟨ls, t, hls, hrun, hdone⟩

theorem writenError_step {s t : State n} {l : Act n} {i : Fin n} {c : Conn}
    (hstep : (system n).step s l = some t)
    (hended : t.child i = .ended c .writenError) :
    s.child i = .ended c .writenError ∨ l = .request i false := by
  have hkeep : ∀ (j : Fin n) (stage : Stage),
      Function.update s.child j (.running stage) i = .ended c .writenError →
        s.child i = .ended c .writenError := by
    intro j stage hi
    rcases eq_or_ne i j with rfl | hij
    · simp at hi
    · rwa [Function.update_of_ne hij] at hi
  cases step_move hstep with
  | fork hlt => exact .inl (hkeep _ _ hended)
  | arrive script => exact .inl hended
  | select hi hqueue => exact .inl (hkeep _ _ hended)
  | accept hi hqueue => exact .inl (hkeep _ _ hended)
  | count hi => exact .inl (hkeep _ _ hended)
  | @request j c' src writeOk hj =>
      change Function.update s.child j _ i = _ at hended
      rcases eq_or_ne i j with rfl | hij
      · rw [Function.update_self] at hended
        cases hreq : (nextRequest (s.readBuf i) src).1 with
        | closed => simp [afterRequest, hreq] at hended
        | readError => simp [afterRequest, hreq] at hended
        | refused k => simp [afterRequest, hreq] at hended
        | reply k =>
            cases writeOk with
            | true => simp [afterRequest, hreq] at hended
            | false => exact .inr rfl
      · rw [Function.update_of_ne hij] at hended
        exact .inl hended
  | close hi => exact .inl (hkeep _ _ hended)

theorem ended_of_writesOk {ls : List (Act n)} {s : State n}
    (h : (system n).Trace ls s) (hwrites : ∀ i, .request i false ∉ ls)
    {i : Fin n} {c : Conn} {x : Cause} (hi : s.child i = .ended c x) :
    (outcome c).ended ≠ .returned := by
  have hcause : ∀ i c, s.child i ≠ .ended c .writenError := by
    refine h.induct (P := fun ls s => (∀ i, .request i false ∉ ls) →
      ∀ i c, s.child i ≠ .ended c .writenError) ?_ ?_ hwrites
    · rintro s rfl _ i c hi
      simp [State.start] at hi
    · intro ls s l t _ ih hstep hls i c hended
      rcases writenError_step hstep hended with hi | rfl
      · exact ih (fun j hj => hls j (List.mem_append_left _ hj)) i c hi
      · exact hls i (List.mem_append_right _ (List.mem_singleton_self _))
  have hfatal := ((reachable_poolLaw h.reachable).fatal i c x hi).2
  cases x with
  | errQuit k =>
      rw [show (outcome c).ended = .errQuit k from hfatal]
      simp
  | readError =>
      rw [show (outcome c).ended = .errSys from hfatal]
      simp
  | writenError => exact absurd hi (hcause i c)

theorem ended_le {s : State n} (h : (system n).Reachable s)
    (hended : ∀ i, ∃ c x, s.child i = .ended c x ∧ (outcome c).ended ≠ .returned) :
    n ≤ (s.arrived.filter fun c => decide ((outcome c).ended ≠ .returned)).length := by
  choose f x hf using hended
  have hlaw := reachable_poolLaw h
  have hinj : Function.Injective f := by
    intro i j hij
    have hj := (hf j).1
    rw [← hij] at hj
    exact hlaw.one i j (f i) (x i) (x j) (hf i).1 hj
  have hsub : List.ofFn f ⊆
      s.arrived.filter fun c => decide ((outcome c).ended ≠ .returned) := by
    intro c hc
    obtain ⟨i, rfl⟩ := List.mem_ofFn.mp hc
    have htaken := (hlaw.fatal i (f i) (x i) (hf i).1).1
    rw [List.mem_filter, ← taken_append_queue h]
    exact ⟨List.mem_append_left _ (List.mem_map.mpr ⟨_, htaken, rfl⟩),
      decide_eq_true (hf i).2⟩
  have hle := ((List.nodup_ofFn.mpr hinj).subperm hsub).length_le
  rwa [List.length_ofFn] at hle

/-- In every run: the pool takes at most two steps for each child and five for
each client and one more for each reply to it; some run of such steps empties
it; when none is left to take it is drained; and if then no write has failed and
the clients whose requests end a child are fewer than the children, every client
has been accepted and counted. -/
theorem pool_drains {ls : List (Act n)} {s : State n}
    (h : (system n).Trace ls s) :
    ls.countP works ≤
        2 * n + (s.arrived.map fun c => (outcome c).replies.length + 5).sum ∧
      (∃ ms t, (∀ l ∈ ms, works l = true) ∧ (system n).run s ms = some t ∧
        Stuck t) ∧
      (Stuck s → Drained s ∧ ((∀ i, .request i false ∉ ls) →
        (s.arrived.filter fun c => decide ((outcome c).ended ≠ .returned)).length < n →
          s.queue = [] ∧ ∑ i, s.cptr i = s.arrived.length)) := by
  have hstart : work (.start n) = 2 * n := by
    simp [work, State.start, todo, Nat.mul_comm]
  refine ⟨?_, exists_drained h.reachable, fun hstuck => ?_⟩
  · have hinit : ∀ s, (system n).init s →
        work s + costs s.queue ≤ 2 * n + costs s.arrived := by
      rintro s rfl
      exact Nat.le_of_eq (congrArg (· + 0) hstart)
    have hcount := h.countP_le_budget hinit fun s l t hs hst => rank_step hs hst
    exact Nat.le_trans (Nat.le_add_right _ _) hcount
  · have hdrained := hstuck.drained h.reachable
    refine ⟨hdrained, fun hwrites hfew => ?_⟩
    obtain ⟨i, hidle⟩ : ∃ i, Idle s i := by
      by_contra hnone
      rw [not_exists] at hnone
      have hle := ended_le h.reachable fun i => by
        obtain ⟨c, x, hi⟩ := (hdrained.children i).resolve_left (hnone i)
        exact ⟨c, x, hi, ended_of_writesOk h hwrites hi⟩
      omega
    have hqueue := hdrained.queue i hidle
    have htaken := taken_append_queue h.reachable
    rw [hqueue, List.append_nil] at htaken
    refine ⟨hqueue, ?_⟩
    rw [hdrained.total, ← htaken, List.length_map]

theorem pool_drains_two : ∃ (ls : List (Act 2)) (s : State 2),
    (system 2).Trace ls s ∧ s.child 0 ≠ .running .select ∧ s.queue = [] ∧
      ls.countP works ≤ 2 * 2 +
        (s.arrived.map fun c => (outcome c).replies.length + 5).sum := by
  have hmap : ((system 2).run (.start 2)
      [.fork, .arrive ⟨[.data ⟨48, [10], by decide⟩], .eof⟩, .fork, .select 0,
        .accept 0, .arrive ⟨[], .eof⟩, .count 0, .request 0 true, .select 1,
        .accept 1]).map (fun s => (s.child 0, s.queue)) =
      some (.ended ⟨0, ⟨[.data ⟨48, [10], by decide⟩], .eof⟩⟩ (.errQuit 0), []) := by
    decide +kernel
  obtain ⟨s, hrun, hfacts⟩ := Option.map_eq_some_iff.mp hmap
  obtain ⟨hended, hqueue⟩ := Prod.mk.inj hfacts
  have htrace : (system 2).Trace _ s := ⟨_, rfl, hrun⟩
  exact ⟨_, s, htrace, by simp [hended], hqueue, (pool_drains htrace).1⟩

end MyUnp.PreforkDrain
