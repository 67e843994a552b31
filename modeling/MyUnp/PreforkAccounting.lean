import Mathlib.Algebra.BigOperators.Fin
import MyUnp.Fifo
import MyUnp.PreforkServer

namespace MyUnp.PreforkAccounting

open MyUnp.Fifo
open MyUnp.PreforkServer
open MyUnp.TransitionSystem

variable {n : Nat}

/-- As far as the connections go, the pool is a pipe. -/
def poolPipe (n : Nat) : Refinement (system n) (pipe Conn) where
  abs s := ⟨s.arrived, s.taken.map Prod.snd, s.queue⟩
  init := by
    rintro s rfl
    rfl
  step := by
    intro s l t _ hstep
    cases step_move hstep with
    | fork h => exact ⟨[], rfl⟩
    | arrive script => exact ⟨[.enter [⟨s.arrived.length, script⟩]], rfl⟩
    | select hi hqueue => exact ⟨[], rfl⟩
    | accept hi hqueue =>
        refine ⟨[.leave 1], ?_⟩
        simp [pipe, State.accept, State.setChild, hqueue]
    | count hi => exact ⟨[], rfl⟩
    | request hi => exact ⟨[], rfl⟩
    | close hi => exact ⟨[], rfl⟩

def uncounted : Child → Bool
  | .running (.accepted _) => true
  | _ => false

structure Inv (s : State n) : Prop where
  forked : ∀ i, s.child i = .notForked ↔ s.forked ≤ i.val
  ids : s.arrived.map Conn.id = List.range s.arrived.length
  counts : ∀ i, s.cptr i + (uncounted (s.child i)).toNat =
    (s.taken.map Prod.fst).count i

theorem inv_start (n : Nat) : Inv (.start n) := by
  constructor
  · intro i
    simp [State.start]
  · rfl
  · intro i
    rfl

theorem Inv.childStep {s t : State n} (h : Inv s) {i : Fin n} {stage : Stage}
    {ch : Child} (hi : s.child i = .running stage)
    (hchild : t.child = Function.update s.child i ch)
    (hforked : t.forked = s.forked) (harrived : t.arrived = s.arrived)
    (hto : ch ≠ .notForked)
    (hcount : s.cptr i + (uncounted (.running stage)).toNat =
        (s.taken.map Prod.fst).count i →
      t.cptr i + (uncounted ch).toNat = (t.taken.map Prod.fst).count i)
    (hother : ∀ j, j ≠ i → t.cptr j = s.cptr j ∧
      (t.taken.map Prod.fst).count j = (s.taken.map Prod.fst).count j) :
    Inv t := by
  constructor
  · intro j
    rw [hchild, hforked, ← h.forked j]
    rcases eq_or_ne j i with rfl | hji
    · simp [hi, hto]
    · simp [hji]
  · rw [harrived, h.ids]
  · intro j
    rw [hchild]
    rcases eq_or_ne j i with rfl | hji
    · rw [Function.update_self]
      apply hcount
      rw [← hi]
      exact h.counts j
    · obtain ⟨hcptr, htaken⟩ := hother j hji
      rw [Function.update_of_ne hji, hcptr, htaken]
      exact h.counts j

theorem afterRequest_running (c : Conn) (src : Readline.Source) (writeOk : Bool)
    (r : WebChild.Request) :
    afterRequest c src writeOk r ≠ .notForked ∧
      uncounted (afterRequest c src writeOk r) = false := by
  cases r with
  | closed => exact ⟨by simp [afterRequest], rfl⟩
  | readError => exact ⟨by simp [afterRequest], rfl⟩
  | refused k => exact ⟨by simp [afterRequest], rfl⟩
  | reply k => cases writeOk <;> exact ⟨by simp [afterRequest], rfl⟩

theorem Inv.step {s t : State n} {l : Act n} (h : Inv s)
    (hstep : (system n).step s l = some t) : Inv t := by
  cases step_move hstep with
  | fork hlt =>
      have hnew : s.child ⟨s.forked, hlt⟩ = .notForked :=
        (h.forked _).mpr (Nat.le_refl _)
      constructor
      · intro j
        rcases eq_or_ne j ⟨s.forked, hlt⟩ with rfl | hj
        · simp [State.setChild]
        · have hval : j.val ≠ s.forked := fun heq => hj (Fin.ext heq)
          simp only [State.setChild, Function.update_of_ne hj, h.forked]
          omega
      · exact h.ids
      · intro j
        rcases eq_or_ne j ⟨s.forked, hlt⟩ with rfl | hj
        · have hcounts := h.counts ⟨s.forked, hlt⟩
          rw [hnew] at hcounts
          simpa [State.setChild, uncounted] using hcounts
        · simpa [State.setChild, hj] using h.counts j
  | arrive script =>
      refine ⟨h.forked, ?_, h.counts⟩
      simp [State.arrive, h.ids, List.range_succ]
  | select hi hqueue =>
      exact h.childStep hi rfl rfl rfl (by simp) id fun j _ => ⟨rfl, rfl⟩
  | @accept i c queue hi hqueue =>
      refine h.childStep hi rfl rfl rfl (by simp) (fun hcount => ?_) ?_
      · simp only [State.accept, State.setChild, List.map_append, List.map_cons,
          List.map_nil, List.count_append, List.count_singleton_self, ← hcount,
          uncounted, Bool.toNat_true, Bool.toNat_false]
      · intro j hj
        refine ⟨rfl, ?_⟩
        simp [State.accept, Ne.symm hj]
  | @count i c hi =>
      refine h.childStep hi rfl rfl rfl (by simp) (fun hcount => ?_) ?_
      · simpa [State.count, State.setChild, uncounted] using hcount
      · intro j hj
        exact ⟨Function.update_of_ne hj .., rfl⟩
  | @request i c src writeOk hi =>
      obtain ⟨hto, hcounted⟩ := afterRequest_running c
        (WebChild.nextRequest (s.readBuf i) src).2.2 writeOk
        (WebChild.nextRequest (s.readBuf i) src).1
      refine h.childStep hi rfl rfl rfl hto (fun hcount => ?_) fun j _ => ⟨rfl, rfl⟩
      rw [hcounted]
      exact hcount
  | close hi =>
      exact h.childStep hi rfl rfl rfl (by simp) id fun j _ => ⟨rfl, rfl⟩

theorem reachable_inv {s : State n} (h : (system n).Reachable s) : Inv s := by
  refine h.invariant (P := Inv) ?_ ?_
  · rintro s rfl
    exact inv_start n
  · intro s l t _ hs hstep
    exact hs.step hstep

theorem taken_append_queue {s : State n} (h : (system n).Reachable s) :
    s.taken.map Prod.snd ++ s.queue = s.arrived :=
  pipe_law ((poolPipe n).reachable h)

theorem arrived_nodup {s : State n} (h : (system n).Reachable s) :
    s.arrived.Nodup := by
  apply List.Nodup.of_map Conn.id
  rw [(reachable_inv h).ids]
  exact List.nodup_range

theorem eq_of_mem_taken {s : State n} (h : (system n).Reachable s) {i j : Fin n}
    {c : Conn} (hi : (i, c) ∈ s.taken) (hj : (j, c) ∈ s.taken) : i = j := by
  have hnodup := arrived_nodup h
  rw [← taken_append_queue h] at hnodup
  have heq := List.inj_on_of_nodup_map (List.nodup_append.mp hnodup).1 hi hj rfl
  exact congrArg Prod.fst heq

theorem exists_unique_taker {s : State n} (h : (system n).Reachable s) {c : Conn}
    (hc : c ∈ s.arrived) (hqueue : c ∉ s.queue) :
    ∃! i, (i, c) ∈ s.taken := by
  rw [← taken_append_queue h, List.mem_append] at hc
  obtain ⟨⟨i, c'⟩, hmem, rfl⟩ := List.mem_map.mp (hc.resolve_right hqueue)
  exact ⟨i, hmem, fun j hj => eq_of_mem_taken h hj hmem⟩

/-- The counters add up to the accepted connections, less the children that
have not counted theirs yet. -/
theorem sum_cptr {s : State n} (h : (system n).Reachable s) :
    ∑ i, s.cptr i + (Finset.univ.filter fun i => uncounted (s.child i)).card =
      s.taken.length := by
  have hcounts := (reachable_inv h).counts
  have hsum : ∑ i, (s.taken.map Prod.fst).count i = s.taken.length := by
    have hcard := Multiset.sum_count_eq_card (s := Finset.univ)
      (m := (s.taken.map Prod.fst : Multiset (Fin n))) fun a _ => Finset.mem_univ a
    simpa using hcard
  rw [← hsum, Finset.card_filter, ← Finset.sum_add_distrib]
  apply Finset.sum_congr rfl
  intro i _
  rw [← hcounts i]
  cases uncounted (s.child i) <;> rfl

theorem accept_eq_some {s : State n} {i : Fin n} {c : Conn} {queue : List Conn}
    (hi : s.child i = .running .accept) (hqueue : s.queue = c :: queue) :
    (system n).step s (.accept i) = some (s.accept i c queue) := by
  simp [system, State.step, hi, hqueue]

theorem accept_blocked {s : State n} (hqueue : s.queue = []) (i : Fin n) :
    (system n).step s (.accept i) = none := by
  show s.step (.accept i) = none
  rw [State.step]
  split
  · rename_i hcons
    simp [hqueue] at hcons
  · rfl

theorem accept_step {s t : State n} {l : Act n} (h : (system n).Reachable s)
    {i : Fin n} (hi : s.child i = .running .accept) (hl : l ≠ .accept i)
    (hstep : (system n).step s l = some t) : t.child i = .running .accept := by
  have hkeep : ∀ (j : Fin n) (ch : Child), s.child j ≠ .running .accept →
      Function.update s.child j ch i = .running .accept := by
    intro j ch hj
    have hij : i ≠ j := by
      rintro rfl
      exact hj hi
    rw [Function.update_of_ne hij, hi]
  cases step_move hstep with
  | fork hlt =>
      apply hkeep
      rw [((reachable_inv h).forked _).mpr (Nat.le_refl s.forked)]
      simp
  | arrive script => exact hi
  | select hj hqueue =>
      apply hkeep
      rw [hj]
      simp
  | @accept j c queue hj hqueue =>
      have hij : i ≠ j := by
        rintro rfl
        exact hl rfl
      show Function.update s.child j _ i = _
      rw [Function.update_of_ne hij, hi]
  | count hj =>
      apply hkeep
      rw [hj]
      simp
  | request hj =>
      apply hkeep
      rw [hj]
      simp
  | close hj =>
      apply hkeep
      rw [hj]
      simp

theorem accept_run {s t : State n} {ls : List (Act n)}
    (h : (system n).Reachable s) {i : Fin n}
    (hi : s.child i = .running .accept) (hls : .accept i ∉ ls)
    (hrun : (system n).run s ls = some t) : t.child i = .running .accept := by
  refine System.Reachable.run_invariant
    (P := fun s => s.child i = .running .accept) (C := (· ≠ Act.accept i))
    ?_ h hi (fun l hl => ne_of_mem_of_not_mem hl hls) hrun
  intro s l t hs hl hi hstep
  exact accept_step hs hi hl hstep

def Idle (s : State n) (i : Fin n) : Prop :=
  s.child i = .running .select ∨ s.child i = .running .accept

theorem idle_takes {s : State n} {i : Fin n} {c : Conn} {queue : List Conn}
    (hidle : Idle s i) (hqueue : s.queue = c :: queue) :
    ∃ ls t, (∀ l ∈ ls, l = .select i ∨ l = .accept i) ∧
      (system n).run s ls = some t ∧ t.queue = queue ∧
        t.taken = s.taken ++ [(i, c)] := by
  rcases hidle with hi | hi
  · have hselect : (system n).step s (.select i) =
        some (s.setChild i (.running .accept)) := by
      simp [system, State.step, hi, hqueue]
    have haccept : (system n).step (s.setChild i (.running .accept)) (.accept i) =
        some ((s.setChild i (.running .accept)).accept i c queue) :=
      accept_eq_some (by simp [State.setChild]) hqueue
    refine ⟨[.select i, .accept i],
      (s.setChild i (.running .accept)).accept i c queue, by simp, ?_, rfl, rfl⟩
    simp [hselect, haccept]
  · refine ⟨[.accept i], s.accept i c queue, by simp, ?_, rfl, rfl⟩
    simp [accept_eq_some hi hqueue]

/-- Exactly-once accounting: each connection that arrived is in the queue or
was accepted by one child; `cptr[i]` is what child `i` has accepted and counted,
and the sum lags by the children before their increment; whoever is in `Accept`
stays there until it takes a connection, and can take any that waits later; and
no connection waits that an idle child could not take. -/
structure Accounts (s : State n) : Prop where
  once : s.taken.map Prod.snd ++ s.queue = s.arrived ∧ s.arrived.Nodup
  taker : ∀ c ∈ s.arrived, c ∉ s.queue → ∃! i, (i, c) ∈ s.taken
  counted : ∀ i, s.cptr i + (uncounted (s.child i)).toNat =
    (s.taken.map Prod.fst).count i
  total : ∑ i, s.cptr i +
    (Finset.univ.filter fun i => uncounted (s.child i)).card = s.taken.length
  waiting : ∀ i, s.child i = .running .accept → ∀ ls t, .accept i ∉ ls →
    (system n).run s ls = some t →
      t.child i = .running .accept ∧
        (t.queue = [] → (system n).step t (.accept i) = none) ∧
        ∀ c queue, t.queue = c :: queue → ∃ u,
          (system n).step t (.accept i) = some u ∧ u.taken = t.taken ++ [(i, c)]
  progress : ∀ i c queue, s.queue = c :: queue → Idle s i →
    ∃ ls t, (∀ l ∈ ls, l = .select i ∨ l = .accept i) ∧
      (system n).run s ls = some t ∧ t.queue = queue ∧
        t.taken = s.taken ++ [(i, c)]

/-- For any number of children, the accounts are right in every state of every
run. -/
theorem reachable_accounts {s : State n} (h : (system n).Reachable s) :
    Accounts s := by
  constructor
  · exact ⟨taken_append_queue h, arrived_nodup h⟩
  · intro c hc hqueue
    exact exists_unique_taker h hc hqueue
  · exact (reachable_inv h).counts
  · exact sum_cptr h
  · intro i hi ls t hls hrun
    have ht := accept_run h hi hls hrun
    refine ⟨ht, fun hnil => accept_blocked hnil i, ?_⟩
    intro c queue hqueue
    exact ⟨_, accept_eq_some ht hqueue, rfl⟩
  · intro i c queue hqueue hidle
    exact idle_takes hidle hqueue

theorem reachable_accounts_two :
    ∃ s : State 2, Accounts s ∧ s.queue = [] ∧ s.taken.length = 1 ∧
      s.cptr 0 = 0 ∧ uncounted (s.child 0) = true ∧
        s.child 1 = .running .accept := by
  obtain ⟨s, hrun, hfacts⟩ : ∃ s, (system 2).run (.start 2)
      [.fork, .fork, .arrive ⟨[], .eof⟩, .select 0, .select 1, .accept 0] =
        some s ∧ s.queue = [] ∧ s.taken.length = 1 ∧ s.cptr 0 = 0 ∧
          uncounted (s.child 0) = true ∧ s.child 1 = .running .accept :=
    ⟨_, rfl, rfl, rfl, rfl, rfl, rfl⟩
  exact ⟨s, reachable_accounts ⟨_, _, rfl, hrun⟩, hfacts⟩

end MyUnp.PreforkAccounting
