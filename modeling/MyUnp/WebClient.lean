import Mathlib.Data.List.Nodup
import MyUnp.WebExchange

namespace MyUnp.WebClient

open MyUnp.TransitionSystem MyUnp.WebExchange

/-- The parent of `client.c` in its `for` loop, in the loop around `wait`, and behind it. -/
inductive Parent where
  | forking (i : Nat)
  | waiting
  | exited
  deriving DecidableEq

/-- A child before its `Fork`, at the head of its loop, in the body of it, or
gone. -/
inductive Child where
  | notForked
  | head (j : Nat)
  | busy (j : Nat)
  | done
  | errQuit (n : Int)
  deriving DecidableEq

def Child.ended : Child → Bool
  | .done => true
  | .errQuit _ => true
  | _ => false

/-- `conn i j` is the connection that child `i` opens in round `j` of its loop,
and `opened` the order in which there have been connections. -/
structure State where
  parent : Parent
  child : Nat → Child
  conn : Nat → Nat → Option Conn
  opened : List (Nat × Nat)

def State.start : State := ⟨.forking 0, fun _ => .notForked, fun _ _ => none, []⟩

inductive Act where
  | fork
  | wait
  | loop (i : Nat)
  | client (i : Nat) (a : ClientAct)
  | server (i j : Nat) (a : ServerAct)
  deriving DecidableEq

def Act.interrupted : Act → Bool
  | .client _ a => a.interrupted
  | .server _ _ a => a.interrupted
  | _ => false

def State.setConn (s : State) (i j : Nat) (c : Conn) : State :=
  { s with conn := Function.update s.conn i (Function.update (s.conn i) j (some c)) }

def State.setChild (s : State) (i : Nat) (ch : Child) : State :=
  { s with child := Function.update s.child i ch }

def Child.after (j : Nat) : ClientPc → Child
  | .closed => .head (j + 1)
  | .errQuit n => .errQuit n
  | _ => .busy j

variable (cfg : Config)

def State.step (s : State) : Act → Option State
  -- `for (i = 0; i < nchildren; i++)`
  | .fork =>
      match s.parent with
      | .forking i =>
          some (if i < cfg.nchildren then
            { s.setChild i (.head 0) with parent := .forking (i + 1) }
          else { s with parent := .waiting })
      | _ => none
  | .wait =>
      if s.parent = .waiting ∧ ∀ i < cfg.nchildren.toNat, (s.child i).ended = true then
        some { s with parent := .exited }
      else none
  -- `for (j = 0; j < nloops; j++)`, and `Tcp_connect`
  | .loop i =>
      match s.child i with
      | .head j =>
          some (if j < cfg.nloops then
            { (s.setConn i j .start).setChild i (.busy j) with
              opened := s.opened ++ [(i, j)] }
          else s.setChild i .done)
      | _ => none
  | .client i a =>
      match s.child i with
      | .busy j =>
          (s.conn i j).bind fun c =>
            (c.clientStep cfg a).map fun d =>
              (s.setConn i j d).setChild i (.after j d.clientPc)
      | _ => none
  | .server i j a =>
      (s.conn i j).bind fun c => (c.serverStep cfg a).map fun d => s.setConn i j d

def system : System State Act where
  init s := s = .start
  step := State.step cfg

variable {cfg} {s t : State}

inductive Move (cfg : Config) (s : State) : Act → State → Prop
  | fork {i : Nat} (hparent : s.parent = .forking i) (hi : i < cfg.nchildren) :
      Move cfg s .fork { s.setChild i (.head 0) with parent := .forking (i + 1) }
  | forked {i : Nat} (hparent : s.parent = .forking i) (hi : ¬i < cfg.nchildren) :
      Move cfg s .fork { s with parent := .waiting }
  | wait (hparent : s.parent = .waiting)
      (hended : ∀ i < cfg.nchildren.toNat, (s.child i).ended = true) :
      Move cfg s .wait { s with parent := .exited }
  | connect {i j : Nat} (hchild : s.child i = .head j) (hj : j < cfg.nloops) :
      Move cfg s (.loop i)
        { (s.setConn i j .start).setChild i (.busy j) with opened := s.opened ++ [(i, j)] }
  | finish {i j : Nat} (hchild : s.child i = .head j) (hj : ¬j < cfg.nloops) :
      Move cfg s (.loop i) (s.setChild i .done)
  | client {i j : Nat} {a : ClientAct} {c d : Conn} (hchild : s.child i = .busy j)
      (hconn : s.conn i j = some c) (hstep : c.clientStep cfg a = some d) :
      Move cfg s (.client i a) ((s.setConn i j d).setChild i (.after j d.clientPc))
  | server {i j : Nat} {a : ServerAct} {c d : Conn} (hconn : s.conn i j = some c)
      (hstep : c.serverStep cfg a = some d) :
      Move cfg s (.server i j a) (s.setConn i j d)

theorem step_move {l : Act} (h : (system cfg).step s l = some t) : Move cfg s l t := by
  change s.step cfg l = some t at h
  cases l with
  | fork =>
      rw [State.step] at h
      split at h
      · rename_i i hparent
        obtain rfl := Option.some_inj.mp h
        by_cases hi : i < cfg.nchildren
        · rw [if_pos hi]
          exact .fork hparent hi
        · rw [if_neg hi]
          exact .forked hparent hi
      · cases h
  | wait =>
      obtain ⟨⟨hparent, hended⟩, rfl⟩ := guard_eq_some.mp h
      exact .wait hparent hended
  | loop i =>
      rw [State.step] at h
      split at h
      · rename_i j hchild
        obtain rfl := Option.some_inj.mp h
        by_cases hj : j < cfg.nloops
        · rw [if_pos hj]
          exact .connect hchild hj
        · rw [if_neg hj]
          exact .finish hchild hj
      · cases h
  | client i a =>
      rw [State.step] at h
      split at h
      · rename_i j hchild
        obtain ⟨c, hconn, hmap⟩ := Option.bind_eq_some_iff.mp h
        obtain ⟨d, hstep, rfl⟩ := Option.map_eq_some_iff.mp hmap
        exact .client hchild hconn hstep
      · cases h
  | server i j a =>
      obtain ⟨c, hconn, hmap⟩ := Option.bind_eq_some_iff.mp h
      obtain ⟨d, hstep, rfl⟩ := Option.map_eq_some_iff.mp hmap
      exact .server hconn hstep

def forks (cfg : Config) : Parent → Nat
  | .forking i => i
  | _ => cfg.nchildren.toNat

def loops (cfg : Config) : Child → Nat
  | .notForked => 0
  | .head j => j
  | .busy j => j + 1
  | .done => cfg.nloops.toNat
  | .errQuit _ => 0

structure Served (cfg : Config) (ch : Child) (row : Nat → Option Conn) : Prop where
  phase : ∀ j c, row j = some c → Phase cfg c
  opened : ∀ j, row j = none ↔ loops cfg ch ≤ j
  loops_le : loops cfg ch ≤ cfg.nloops.toNat
  busy : ∀ j c, row j = some c → (c.clientPc = .closed ↔ ch ≠ .busy j)
  alive : ∀ n, ch ≠ .errQuit n

section Served

variable {ch : Child} {row : Nat → Option Conn} {j : Nat}

theorem Served.lt (h : Served cfg ch row) {c : Conn} (hconn : row j = some c) :
    j < loops cfg ch ∧ j < cfg.nloops.toNat := by
  have hle := h.loops_le
  have hlt : j < loops cfg ch := by
    by_contra hge
    have hnone := (h.opened j).mpr (by omega)
    rw [hnone] at hconn
    cases hconn
  exact ⟨hlt, by omega⟩

theorem Served.fork (h : Served cfg .notForked row) : Served cfg (.head 0) row := by
  refine ⟨h.phase, h.opened, h.loops_le, ?_, by simp⟩
  intro j c hconn
  exact absurd (h.lt hconn).1 (Nat.not_lt_zero j)

theorem forall_update {P : Nat → Conn → Prop} {d : Conn} (hd : P j d)
    (hrow : ∀ k c, k ≠ j → row k = some c → P k c) :
    ∀ k c, Function.update row j (some d) k = some c → P k c := by
  have hself : ∀ c, some d = some c → P j c := by
    rintro c ⟨⟩
    exact hd
  rw [Function.forall_update_iff row fun k o => ∀ c, o = some c → P k c]
  exact ⟨hself, fun k hkj c => hrow k c hkj⟩

theorem Served.connect (h : Served cfg (.head j) row) (hj : j < cfg.nloops) :
    Served cfg (.busy j) (Function.update row j (some .start)) := by
  constructor
  · exact forall_update .opened fun k c _ => h.phase k c
  · intro k
    have hopened : row k = none ↔ j ≤ k := h.opened k
    rcases eq_or_ne k j with rfl | hkj
    · simp [loops]
    · rw [Function.update_of_ne hkj, hopened, loops]
      omega
  · rw [loops]
    omega
  · apply forall_update
    · simp [Conn.start]
    · intro k c hkj hconn
      simp [h.busy k c hconn, Ne.symm hkj]
  · simp

theorem Served.finish (h : Served cfg (.head j) row) (hj : ¬j < cfg.nloops) :
    Served cfg .done row := by
  have hle : j ≤ cfg.nloops.toNat := h.loops_le
  obtain rfl : j = cfg.nloops.toNat := by omega
  refine ⟨h.phase, h.opened, Nat.le_refl _, ?_, by simp⟩
  intro k c hconn
  simp [h.busy k c hconn]

theorem after_eq_busy {d : Conn} (h : Phase cfg d) {k : Nat} :
    Child.after j d.clientPc = .busy k ↔ k = j ∧ d.clientPc ≠ .closed := by
  have halive := h.exchange.client
  cases hpc : d.clientPc with
  | errQuit n => exact absurd hpc (halive n)
  | _ => simp [Child.after, eq_comm]

theorem loops_after {d : Conn} (h : Phase cfg d) :
    loops cfg (.after j d.clientPc) = j + 1 := by
  have halive := h.exchange.client
  cases hpc : d.clientPc with
  | errQuit n => exact absurd hpc (halive n)
  | _ => rfl

theorem Served.client (h : Served cfg (.busy j) row) {d : Conn} (hphase : Phase cfg d) :
    Served cfg (.after j d.clientPc) (Function.update row j (some d)) := by
  have hloops := loops_after (j := j) hphase
  constructor
  · exact forall_update hphase fun k e _ => h.phase k e
  · intro k
    rw [hloops]
    rcases eq_or_ne k j with rfl | hkj
    · simp
    · rw [Function.update_of_ne hkj]
      exact h.opened k
  · rw [hloops]
    exact h.loops_le
  · apply forall_update
    · simp [after_eq_busy hphase]
    · intro k e hkj hconn
      simp [after_eq_busy hphase, h.busy k e hconn, hkj, Ne.symm hkj]
  · intro n hquit
    rw [hquit, loops] at hloops
    cases hloops

theorem Served.server (h : Served cfg ch row) {c d : Conn} (hconn : row j = some c)
    (hphase : Phase cfg d) (hpc : d.clientPc = c.clientPc) :
    Served cfg ch (Function.update row j (some d)) := by
  constructor
  · exact forall_update hphase fun k e _ => h.phase k e
  · intro k
    rcases eq_or_ne k j with rfl | hkj
    · rw [← h.opened, hconn]
      simp
    · rw [Function.update_of_ne hkj]
      exact h.opened k
  · exact h.loops_le
  · apply forall_update
    · rw [hpc]
      exact h.busy j c hconn
    · exact fun k e _ => h.busy k e
  · exact h.alive

end Served

structure Inv (cfg : Config) (s : State) : Prop where
  forked : ∀ i, s.child i = .notForked ↔ forks cfg s.parent ≤ i
  forks_le : forks cfg s.parent ≤ cfg.nchildren.toNat
  exited : s.parent = .exited → ∀ i < cfg.nchildren.toNat, (s.child i).ended = true
  served : ∀ i, Served cfg (s.child i) (s.conn i)
  nodup : s.opened.Nodup
  mem_opened : ∀ i j, (i, j) ∈ s.opened ↔ s.conn i j ≠ none

theorem inv_start (cfg : Config) : Inv cfg .start where
  forked i := by simp [State.start, forks]
  forks_le := Nat.zero_le _
  exited h := nomatch h
  served i := ⟨by simp [State.start], by simp [State.start, loops], Nat.zero_le _,
    by simp [State.start], by simp [State.start]⟩
  nodup := List.nodup_nil
  mem_opened i j := by simp [State.start]

theorem forall_served (h : ∀ k, Served cfg (s.child k) (s.conn k)) {i : Nat}
    (hchild : ∀ k, k ≠ i → t.child k = s.child k)
    (hconn : ∀ k, k ≠ i → t.conn k = s.conn k)
    (hi : Served cfg (t.child i) (t.conn i)) (k : Nat) :
    Served cfg (t.child k) (t.conn k) := by
  rcases eq_or_ne k i with rfl | hki
  · exact hi
  · rw [hchild k hki, hconn k hki]
    exact h k

theorem Inv.lt_nchildren (h : Inv cfg s) {i : Nat} (hi : s.child i ≠ .notForked) :
    i < cfg.nchildren.toNat := by
  have hle := h.forks_le
  rw [Ne, h.forked i] at hi
  omega

theorem Inv.not_exited (h : Inv cfg s) {i : Nat} {ch : Child} (hchild : s.child i = ch)
    (hforked : ch ≠ .notForked) (hended : ch.ended = false) : s.parent ≠ .exited := by
  intro hexited
  have hlt := h.lt_nchildren (hchild ▸ hforked)
  have htrue := h.exited hexited i hlt
  rw [hchild, hended] at htrue
  cases htrue

theorem Inv.update (h : Inv cfg s) {i : Nat} {ch ch' : Child} (hchild : s.child i = ch)
    (hforked : ch ≠ .notForked) (hended : ch.ended = false) (hforked' : ch' ≠ .notForked)
    (hparent : t.parent = s.parent) (hchildren : t.child = Function.update s.child i ch')
    (hconn : ∀ k, k ≠ i → t.conn k = s.conn k) (hi : Served cfg ch' (t.conn i))
    (hnodup : t.opened.Nodup)
    (hmem : ∀ k j, (k, j) ∈ t.opened ↔ t.conn k j ≠ none) : Inv cfg t where
  forked k := by
    rw [hparent, hchildren, ← h.forked k]
    rcases eq_or_ne k i with rfl | hki
    · simp [hchild, hforked, hforked']
    · rw [Function.update_of_ne hki]
  forks_le := by
    rw [hparent]
    exact h.forks_le
  exited hexited := by
    rw [hparent] at hexited
    exact absurd hexited (h.not_exited hchild hforked hended)
  served := by
    apply forall_served h.served (fun k hki => ?_) hconn
    · rw [hchildren, Function.update_self]
      exact hi
    · rw [hchildren, Function.update_of_ne hki]
  nodup := hnodup
  mem_opened := hmem

theorem after_ne_notForked (j : Nat) (pc : ClientPc) : Child.after j pc ≠ .notForked := by
  cases pc <;> simp [Child.after]

theorem setConn_conn_self (s : State) (i j : Nat) (c : Conn) :
    (s.setConn i j c).conn i = Function.update (s.conn i) j (some c) :=
  Function.update_self ..

theorem setConn_conn_ne (s : State) {i k : Nat} (j : Nat) (c : Conn) (h : k ≠ i) :
    (s.setConn i j c).conn k = s.conn k := Function.update_of_ne h ..

theorem Inv.mem_setConn (h : Inv cfg s) {i j : Nat} {c : Conn} (hconn : s.conn i j = some c)
    (d : Conn) (k m : Nat) :
    (k, m) ∈ s.opened ↔ (s.setConn i j d).conn k m ≠ none := by
  rw [h.mem_opened]
  rcases eq_or_ne k i with rfl | hki
  · rw [setConn_conn_self]
    rcases eq_or_ne m j with rfl | hmj
    · simp [hconn]
    · rw [Function.update_of_ne hmj]
  · rw [setConn_conn_ne s j d hki]

theorem Inv.fork (h : Inv cfg s) {i : Nat} (hparent : s.parent = .forking i)
    (hi : i < cfg.nchildren) :
    Inv cfg { s.setChild i (.head 0) with parent := .forking (i + 1) } := by
  have hforks : ∀ k, s.child k = .notForked ↔ i ≤ k := by
    intro k
    rw [h.forked, hparent, forks]
  refine ⟨?_, ?_, (fun hexited => nomatch hexited), ?_, h.nodup, h.mem_opened⟩
  · intro k
    rw [forks]
    rcases eq_or_ne k i with rfl | hki
    · simp [State.setChild]
    · simp only [State.setChild, Function.update_of_ne hki, hforks]
      omega
  · rw [forks]
    omega
  · refine forall_served (i := i) h.served ?_ ?_ ?_
    · exact fun k hki => Function.update_of_ne hki ..
    · exact fun k hki => rfl
    · have hserved := h.served i
      rw [(hforks i).mpr (Nat.le_refl i)] at hserved
      simpa [State.setChild] using hserved.fork

theorem Inv.connect (h : Inv cfg s) {i j : Nat} (hchild : s.child i = .head j)
    (hj : j < cfg.nloops) :
    Inv cfg { (s.setConn i j .start).setChild i (.busy j) with
      opened := s.opened ++ [(i, j)] } := by
  have hserved := h.served i
  rw [hchild] at hserved
  have hnone : s.conn i j = none := (hserved.opened j).mpr (Nat.le_refl j)
  have hnew : (i, j) ∉ s.opened := by
    rw [h.mem_opened]
    exact not_not_intro hnone
  refine h.update hchild (by simp) rfl (by simp) rfl rfl ?_ ?_ ?_ ?_
  · exact fun k hki => setConn_conn_ne s j _ hki
  · change Served cfg (.busy j) ((s.setConn i j .start).conn i)
    rw [setConn_conn_self]
    exact hserved.connect hj
  · rw [← List.concat_eq_append]
    exact List.Nodup.concat hnew h.nodup
  · intro k m
    change (k, m) ∈ s.opened ++ [(i, j)] ↔ (s.setConn i j .start).conn k m ≠ none
    rw [List.mem_append, h.mem_opened, List.mem_singleton, Prod.mk.injEq]
    rcases eq_or_ne k i with rfl | hki
    · rw [setConn_conn_self]
      rcases eq_or_ne m j with rfl | hmj
      · simp
      · simp [hmj]
    · rw [setConn_conn_ne s j _ hki]
      simp [hki]

theorem Inv.client (h : Inv cfg s) {i j : Nat} {c d : Conn} (hchild : s.child i = .busy j)
    (hconn : s.conn i j = some c) (hphase : Phase cfg d) :
    Inv cfg ((s.setConn i j d).setChild i (.after j d.clientPc)) := by
  have hserved := h.served i
  rw [hchild] at hserved
  refine h.update hchild (by simp) rfl (after_ne_notForked j d.clientPc) rfl rfl ?_ ?_
    h.nodup (h.mem_setConn hconn d)
  · exact fun k hki => setConn_conn_ne s j d hki
  · change Served cfg _ ((s.setConn i j d).conn i)
    rw [setConn_conn_self]
    exact hserved.client hphase

theorem Inv.server (h : Inv cfg s) {i j : Nat} {c d : Conn} (hconn : s.conn i j = some c)
    (hphase : Phase cfg d) (hpc : d.clientPc = c.clientPc) : Inv cfg (s.setConn i j d) := by
  refine ⟨h.forked, h.forks_le, h.exited, ?_, h.nodup, h.mem_setConn hconn d⟩
  refine forall_served (i := i) h.served ?_ ?_ ?_
  · exact fun k hki => rfl
  · exact fun k hki => setConn_conn_ne s j d hki
  · rw [setConn_conn_self]
    exact (h.served i).server hconn hphase hpc

theorem Inv.step (h : Inv cfg s) {l : Act} (hstep : (system cfg).step s l = some t) :
    Inv cfg t := by
  cases step_move hstep with
  | fork hparent hi => exact h.fork hparent hi
  | @forked i hparent hi =>
      have hle := h.forks_le
      have hforked := h.forked
      rw [hparent, forks] at hle hforked
      obtain rfl : i = cfg.nchildren.toNat := by omega
      exact ⟨hforked, Nat.le_refl _, (fun hexited => nomatch hexited), h.served, h.nodup,
        h.mem_opened⟩
  | wait hparent hended =>
      have hforked := h.forked
      rw [hparent] at hforked
      exact ⟨hforked, Nat.le_refl _, fun _ => hended, h.served, h.nodup, h.mem_opened⟩
  | connect hchild hj => exact h.connect hchild hj
  | @finish i j hchild hj =>
      have hserved := h.served i
      rw [hchild] at hserved
      exact h.update hchild (by simp) rfl (by simp) rfl rfl (fun k hki => rfl)
        (hserved.finish hj) h.nodup h.mem_opened
  | @client i j a c d hchild hconn hcall =>
      exact h.client hchild hconn (((h.served i).phase j c hconn).clientStep hcall).1
  | @server i j a c d hconn hcall =>
      exact h.server hconn (((h.served i).phase j c hconn).serverStep hcall).1
        (serverStep_clientPc hcall)

theorem reachable_inv (h : (system cfg).Reachable s) : Inv cfg s := by
  refine h.invariant (P := Inv cfg) ?_ ?_
  · rintro s rfl
    exact inv_start cfg
  · intro s l t _ hs hstep
    exact hs.step hstep

end MyUnp.WebClient
