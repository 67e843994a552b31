import Mathlib.Data.List.Infix
import MyUnp.PollServerClients

namespace MyUnp.PollServerStarvation

open MyUnp.PollServer hiding State system
open MyUnp.PollServerClients
open MyUnp.PollServerEcho (received echoed)
open MyUnp.PollServerRule
open MyUnp.PollServerService
open MyUnp.PollServerTable (closes small)
open MyUnp.TransitionSystem
open MyUnp.Unp

variable {cfg : Config} {s t : State} {i c : Nat}

def isPass : Act → Bool
  | .connect => false
  | .send _ _ => false
  | .close _ => false
  | .reset _ => false
  | .pass _ => true

def passes (ls : List Act) : Nat := ls.countP isPass

theorem loop_of_not_pass {l : Act} (h : (system cfg).step s l = some t) (hl : isPass l = false) :
    t.loop = s.loop := by
  cases step_move h with
  | connect => rfl
  | send => rfl
  | close => rfl
  | reset => rfl
  | pass => cases hl

theorem peer_of_not_pass {l : Act} (h : (system cfg).step s l = some t) (hl : isPass l = false)
    (c : Nat) :
    ((s.peer c).status ≠ .sending → (t.peer c).status ≠ .sending ∧
        (t.peer c).arrived.length ≤ (s.peer c).arrived.length) ∧
      (l ≠ .reset c → (s.peer c).arrived <+: (t.peer c).arrived) ∧
      ((s.peer c).Readable → (t.peer c).Readable) := by
  cases step_move h with
  | connect => exact ⟨fun hs => ⟨hs, Nat.le_refl _⟩, fun _ => List.prefix_rfl, id⟩
  | @send d b hd hstatus =>
      rcases eq_or_ne c d with rfl | hcd
      · have hpeer : (s.send c b).peer c = ⟨(s.peer c).arrived ++ [b], (s.peer c).status⟩ :=
          Function.update_self ..
        rw [hpeer]
        exact ⟨fun hs => absurd hstatus hs, fun _ => List.prefix_append .., fun _ =>
          .inl (List.append_ne_nil_of_right_ne_nil _ (List.cons_ne_nil b []))⟩
      · have hpeer : (s.send d b).peer c = s.peer c := Function.update_of_ne hcd ..
        rw [hpeer]
        exact ⟨fun hs => ⟨hs, Nat.le_refl _⟩, fun _ => List.prefix_rfl, id⟩
  | @close d hd hstatus =>
      rcases eq_or_ne c d with rfl | hcd
      · have hpeer : (s.setPeer c ⟨(s.peer c).arrived, .closed⟩).peer c =
            ⟨(s.peer c).arrived, .closed⟩ := Function.update_self ..
        rw [hpeer]
        exact ⟨fun hs => absurd hstatus hs, fun _ => List.prefix_rfl, fun _ => .inr nofun⟩
      · have hpeer : (s.setPeer d ⟨(s.peer d).arrived, .closed⟩).peer c = s.peer c :=
          Function.update_of_ne hcd ..
        rw [hpeer]
        exact ⟨fun hs => ⟨hs, Nat.le_refl _⟩, fun _ => List.prefix_rfl, id⟩
  | @reset d hd =>
      rcases eq_or_ne c d with rfl | hcd
      · have hpeer : (s.setPeer c ⟨[], .reset⟩).peer c = ⟨[], .reset⟩ := Function.update_self ..
        rw [hpeer]
        exact ⟨fun _ => ⟨by decide, Nat.zero_le _⟩, fun hl => absurd rfl hl,
          fun _ => .inr (by decide)⟩
      · have hpeer : (s.setPeer d ⟨[], .reset⟩).peer c = s.peer c := Function.update_of_ne hcd ..
        rw [hpeer]
        exact ⟨fun hs => ⟨hs, Nat.le_refl _⟩, fun _ => List.prefix_rfl, id⟩
  | pass => cases hl

structure Passed (s t : State) (cfg : Config) (i c : Nat) (r : List Byte) : Prop where
  received : received c t.loop.log = received c s.loop.log ++ r
  arrived : (s.peer c).arrived = r ++ (t.peer c).arrived
  status : (t.peer c).status = (s.peer c).status
  maxi : s.loop.server.maxi ≤ t.loop.server.maxi
  missed : t.loop.server.maxi ≤ i → r = [] ∧ Holds cfg t.loop.server i c
  reached : i < t.loop.server.maxi → (s.peer c).arrived ≠ [] →
    r ≠ [] ∧ Holds cfg t.loop.server i c
  ended : i < t.loop.server.maxi → (s.peer c).arrived = [] → (s.peer c).status ≠ .sending →
    c ∈ closes t.loop.log

theorem passed (h : (system cfg).Reachable s) {a : Answers}
    (hstep : (system cfg).step s (.pass a) = some t) (hgo : t.loop.exited = none)
    (hold : Holds cfg s.loop.server i c) : ∃ r, Passed s t cfg i c r := by
  have hinv := (loop_inv h).1
  have hpeers := reachable_inv h
  cases step_move hstep with
  | pass hrun hlegal hready =>
      rw [hrun] at hinv
      have hprefix := (pass_peer hinv hlegal c).1
      have hread := received_pass hinv hlegal hgo hold
      have hcloses := mem_closes_pass hinv hlegal hgo hold
      have hnext := fun hopen => hold.pass hinv hlegal hopen
      have hworks : i < (PollServer.pass cfg (s.env a) s.loop.server).server.maxi →
          (s.peer c).Readable → ∃ k, a.read c = some k := by
        intro hi hreadable
        have hnot := not_fails_of_go hinv hlegal hgo hold hi ((reported_iff hold).mpr hreadable)
        rw [fails_iff hold, not_or] at hnot
        exact Option.ne_none_iff_exists'.mp hnot.1
      rw [(env_holds hold).2.1] at hread hcloses
      rw [reported_iff hold] at hcloses
      have harrived := List.prefix_iff_eq_append.mp hprefix
      refine ⟨_, received_append .., harrived.symm, rfl, maxi_le_pass hgo, ?_, ?_, ?_⟩
      · intro hi
        refine ⟨?_, hnext fun hc => ?_⟩
        · rw [hread, if_neg fun h => Nat.not_le.mpr h.1 hi]
        · exact Nat.not_le.mpr (hcloses.mp hc).1.1 hi
      · intro hi hsome
        have hreset : (s.peer c).status ≠ .reset := fun hr => hsome (hpeers.reset c hr)
        obtain ⟨k, hk⟩ := hworks hi (.inl hsome)
        rw [hk] at hread hcloses
        refine ⟨?_, hnext fun hc => ?_⟩
        · rw [hread, if_pos ⟨hi, (reported_iff hold).mpr (.inl hsome)⟩, Peer.bytesRead_read hreset]
          simpa using hsome
        · exact ((Peer.read_ends ..).mp (hcloses.mp hc).2).elim hreset hsome
      · intro hi hnone hstatus
        obtain ⟨k, hk⟩ := hworks hi (.inr hstatus)
        rw [hk, Peer.read_ends] at hcloses
        exact mem_closes_append.mpr (.inr (hcloses.mpr ⟨⟨hi, .inr hstatus⟩, .inr hnone⟩))

theorem step_exited {l : Act} (h : (system cfg).step s l = some t) (hgo : t.loop.exited = none) :
    s.loop.exited = none := by
  cases step_move h with
  | connect => exact hgo
  | send => exact hgo
  | close => exact hgo
  | reset => exact hgo
  | pass hrun => exact hrun

theorem run_exited {ls : List Act} (h : (system cfg).run s ls = some t)
    (hgo : t.loop.exited = none) : s.loop.exited = none := by
  induction ls generalizing s with
  | nil =>
      obtain rfl := Option.some.inj h
      exact hgo
  | cons l ls ih =>
      obtain ⟨u, hstep, hrun⟩ := Option.bind_eq_some_iff.mp h
      exact step_exited hstep (ih hrun)

theorem step_grows {l : Act} (h : (system cfg).step s l = some t) (hgo : t.loop.exited = none) :
    s.loop.log <+: t.loop.log ∧ s.loop.server.maxi ≤ t.loop.server.maxi := by
  cases step_move h with
  | connect => exact ⟨List.prefix_rfl, Nat.le_refl _⟩
  | send => exact ⟨List.prefix_rfl, Nat.le_refl _⟩
  | close => exact ⟨List.prefix_rfl, Nat.le_refl _⟩
  | reset => exact ⟨List.prefix_rfl, Nat.le_refl _⟩
  | pass => exact ⟨List.prefix_append .., maxi_le_pass hgo⟩

theorem run_grows {ls : List Act} (h : (system cfg).run s ls = some t)
    (hgo : t.loop.exited = none) :
    s.loop.log <+: t.loop.log ∧ s.loop.server.maxi ≤ t.loop.server.maxi := by
  induction ls generalizing s with
  | nil =>
      obtain rfl := Option.some.inj h
      exact ⟨List.prefix_rfl, Nat.le_refl _⟩
  | cons l ls ih =>
      obtain ⟨u, hstep, hrun⟩ := Option.bind_eq_some_iff.mp h
      obtain ⟨hlog, hmaxi⟩ := step_grows hstep (run_exited hrun hgo)
      obtain ⟨hlog', hmaxi'⟩ := ih hrun
      exact ⟨hlog.trans hlog', Nat.le_trans hmaxi hmaxi'⟩

theorem received_mono {l l' : List Op} (h : l <+: l') (c : Nat) :
    received c l <+: received c l' := by
  obtain ⟨l'', rfl⟩ := h
  rw [received_append]
  exact List.prefix_append ..

theorem closes_mono {l l' : List Op} (h : l <+: l') (hc : c ∈ closes l) : c ∈ closes l' := by
  obtain ⟨l'', rfl⟩ := h
  exact mem_closes_append.mpr (.inl hc)

theorem take_prefix_read {r rest received : List Byte} {n : Nat} (hr : r ≠ []) :
    received ++ (r ++ rest).take (n + 1) <+: received ++ r ++ rest.take n := by
  rw [List.append_assoc, List.prefix_append_right_inj, List.take_append]
  have hpos := List.length_pos_of_ne_nil hr
  by_cases hlen : r.length ≤ n + 1
  · rw [List.take_of_length_le hlen, List.prefix_append_right_inj]
    exact List.take_prefix_take_left (by omega)
  · rw [Nat.sub_eq_zero_of_le (by omega), List.take_zero, List.append_nil]
    exact (List.take_prefix _ r).trans (List.prefix_append ..)

theorem run_served {ls : List Act} (h : (system cfg).Reachable s)
    (hrun : (system cfg).run s ls = some t) (hgo : t.loop.exited = none)
    (hold : Holds cfg s.loop.server i c) (hi : i < s.loop.server.maxi)
    (hreset : .reset c ∉ ls) :
    received c s.loop.log ++ (s.peer c).arrived.take (passes ls) <+: received c t.loop.log := by
  induction ls generalizing s with
  | nil =>
      obtain rfl := Option.some.inj hrun
      rw [passes, List.countP_nil, List.take_zero, List.append_nil]
  | cons l ls ih =>
      obtain ⟨u, hstep, hrest⟩ := Option.bind_eq_some_iff.mp hrun
      rw [List.mem_cons, not_or] at hreset
      have hu := h.step hstep
      have hgrows := (run_grows hrest hgo).1
      cases hl : isPass l with
      | false =>
          have hloop := loop_of_not_pass hstep hl
          have harrived := (peer_of_not_pass hstep hl c).2.1 (Ne.symm hreset.1)
          have hserved := ih hu hrest (hloop ▸ hold) (hloop ▸ hi) hreset.2
          rw [hloop] at hserved
          rw [passes, List.countP_cons_of_neg (by simp [hl])]
          exact ((List.prefix_append_right_inj _).mpr (harrived.take _)).trans hserved
      | true =>
          cases l with
          | connect => cases hl
          | send => cases hl
          | close => cases hl
          | reset => cases hl
          | pass a =>
              obtain ⟨r, hpassed⟩ := passed h hstep (run_exited hrest hgo) hold
              have hmono := received_mono hgrows c
              rw [passes, List.countP_cons_of_pos rfl, ← passes]
              by_cases hnone : (s.peer c).arrived = []
              · rw [hnone, List.take_nil, List.append_nil]
                rw [hpassed.received] at hmono
                exact (List.prefix_append ..).trans hmono
              · have hi' := Nat.lt_of_lt_of_le hi hpassed.maxi
                obtain ⟨hr, hold'⟩ := hpassed.reached hi' hnone
                have hserved := ih hu hrest hold' hi' hreset.2
                rw [hpassed.received] at hserved
                rw [hpassed.arrived]
                exact (take_prefix_read hr).trans hserved

theorem run_closed {ls : List Act} (h : (system cfg).Reachable s)
    (hrun : (system cfg).run s ls = some t) (hgo : t.loop.exited = none)
    (hold : Holds cfg s.loop.server i c) (hi : i < s.loop.server.maxi)
    (hstatus : (s.peer c).status ≠ .sending)
    (hlen : (s.peer c).arrived.length < passes ls) : c ∈ closes t.loop.log := by
  induction ls generalizing s with
  | nil => exact absurd hlen (Nat.not_lt_zero _)
  | cons l ls ih =>
      obtain ⟨u, hstep, hrest⟩ := Option.bind_eq_some_iff.mp hrun
      have hu := h.step hstep
      have hgrows := (run_grows hrest hgo).1
      cases hl : isPass l with
      | false =>
          have hloop := loop_of_not_pass hstep hl
          obtain ⟨hstatus', hlen'⟩ := (peer_of_not_pass hstep hl c).1 hstatus
          rw [passes, List.countP_cons_of_neg (by simp [hl]), ← passes] at hlen
          exact ih hu hrest (hloop ▸ hold) (hloop ▸ hi) hstatus' (by omega)
      | true =>
          cases l with
          | connect => cases hl
          | send => cases hl
          | close => cases hl
          | reset => cases hl
          | pass a =>
              obtain ⟨r, hpassed⟩ := passed h hstep (run_exited hrest hgo) hold
              have hi' := Nat.lt_of_lt_of_le hi hpassed.maxi
              rw [passes, List.countP_cons_of_pos rfl, ← passes] at hlen
              by_cases hnone : (s.peer c).arrived = []
              · exact closes_mono hgrows (hpassed.ended hi' hnone hstatus)
              · obtain ⟨hr, hold'⟩ := hpassed.reached hi' hnone
                have hpos := List.length_pos_of_ne_nil hr
                have hsum := congrArg List.length hpassed.arrived
                rw [List.length_append] at hsum
                exact ih hu hrest hold' hi' (hpassed.status ▸ hstatus) (by omega)

theorem run_starved {ls : List Act} (h : (system cfg).Reachable s)
    (hrun : (system cfg).run s ls = some t) (hgo : t.loop.exited = none)
    (hold : Holds cfg s.loop.server s.loop.server.maxi c)
    (hmaxi : t.loop.server.maxi = s.loop.server.maxi) :
    received c t.loop.log = received c s.loop.log ∧
      Holds cfg t.loop.server t.loop.server.maxi c ∧
      ((s.peer c).Readable → (t.peer c).Readable) := by
  induction ls generalizing s with
  | nil =>
      obtain rfl := Option.some.inj hrun
      exact ⟨rfl, hold, id⟩
  | cons l ls ih =>
      obtain ⟨u, hstep, hrest⟩ := Option.bind_eq_some_iff.mp hrun
      have hu := h.step hstep
      have hgo' := run_exited hrest hgo
      have hle := (step_grows hstep hgo').2
      have hle' := (run_grows hrest hgo).2
      have hsame : u.loop.server.maxi = s.loop.server.maxi := by omega
      cases hl : isPass l with
      | false =>
          have hloop := loop_of_not_pass hstep hl
          have hreadable := (peer_of_not_pass hstep hl c).2.2
          obtain ⟨hreceived, hold', hread⟩ := ih hu hrest (hloop ▸ hold) (hloop ▸ hmaxi)
          exact ⟨hloop ▸ hreceived, hold', fun hs => hread (hreadable hs)⟩
      | true =>
          cases l with
          | connect => cases hl
          | send => cases hl
          | close => cases hl
          | reset => cases hl
          | pass a =>
              obtain ⟨r, hpassed⟩ := passed h hstep hgo' hold
              obtain ⟨rfl, hold'⟩ := hpassed.missed (Nat.le_of_eq hsame)
              rw [← hsame] at hold'
              obtain ⟨hreceived, hold'', hread⟩ := ih hu hrest hold' (by omega)
              refine ⟨hreceived.trans (hpassed.received.trans (List.append_nil _)), hold'', ?_⟩
              rintro (harrived | hstatus)
              · rw [hpassed.arrived] at harrived
                exact hread (.inl harrived)
              · exact hread (.inr (hpassed.status ▸ hstatus))

/-- What the iterations of a run do for the clients that were there when it
started: one iteration a byte is enough for each of them but the last, who gets
nothing while it is the last, and whose bytes keep `Poll` from blocking. -/
structure Service (cfg : Config) (s t : State) (ls : List Act) : Prop where
  served : ∀ i c, Holds cfg s.loop.server i c → i < s.loop.server.maxi → .reset c ∉ ls →
    echoed c s.loop.log ++ (s.peer c).arrived.take (passes ls) <+: echoed c t.loop.log
  closed : ∀ i c, Holds cfg s.loop.server i c → i < s.loop.server.maxi →
    (s.peer c).status ≠ .sending → (s.peer c).arrived.length < passes ls →
      c ∈ closes t.loop.log
  starved : ∀ c, Holds cfg s.loop.server s.loop.server.maxi c →
    t.loop.server.maxi = s.loop.server.maxi →
      echoed c t.loop.log = echoed c s.loop.log ∧ c ∉ closes t.loop.log ∧
        ((s.peer c).Readable → ∀ a, t.nready a ≠ 0)

theorem run_service {ls : List Act} (h : (system cfg).Reachable s)
    (hrun : (system cfg).run s ls = some t) (hgo : t.loop.exited = none) :
    Service cfg s t ls := by
  have ht : (system cfg).Reachable t := h.of_run hrun
  have hs := run_exited hrun hgo
  have hinv := (loop_inv ht).1
  rw [hgo] at hinv
  constructor
  · intro i c hold hi hreset
    rw [echoed_eq h hs, echoed_eq ht hgo]
    exact run_served h hrun hgo hold hi hreset
  · intro i c hold hi hstatus hlen
    exact run_closed h hrun hgo hold hi hstatus hlen
  · intro c hold hmaxi
    obtain ⟨hreceived, hlast, hreadable⟩ := run_starved h hrun hgo hold hmaxi
    rw [echoed_eq h hs, echoed_eq ht hgo]
    exact ⟨hreceived, hlast.not_closed hinv,
      fun hread => nready_ne_zero (hinv.table rfl) hlast (hreadable hread)⟩

theorem run_service_two :
    ∃ s t : State, Service small s t [.pass (.fine 6), .pass (.fine 6)] ∧
      echoed 0 t.loop.log = [104, 105] ∧ echoed 1 t.loop.log = [] ∧
      (t.peer 1).arrived = [106] := by
  have hmap : ((system small).run (.start small fun _ => ⟨0, 0, 0⟩)
      [.connect, .connect, .pass (.fine 4), .pass (.fine 5), .send 0 104, .send 0 105,
        .send 1 106]).bind
      (fun s => ((system small).run s [.pass (.fine 6), .pass (.fine 6)]).map fun t =>
        (t.loop.exited, echoed 0 t.loop.log, echoed 1 t.loop.log, (t.peer 1).arrived)) =
      some (none, [104, 105], [], [106]) := by decide
  obtain ⟨s, hrun, hmap⟩ := Option.bind_eq_some_iff.mp hmap
  obtain ⟨t, hrun', hfacts⟩ := Option.map_eq_some_iff.mp hmap
  simp only [Prod.mk.injEq] at hfacts
  have hreach : (system small).Reachable s := ⟨_, _, ⟨_, rfl⟩, hrun⟩
  exact ⟨s, t, run_service hreach hrun' hfacts.1, hfacts.2⟩

end MyUnp.PollServerStarvation
