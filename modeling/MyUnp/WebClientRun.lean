import Mathlib.Algebra.BigOperators.Fin
import Mathlib.Data.Finset.Prod
import MyUnp.WebClient

namespace MyUnp.WebClientRun

open MyUnp.TransitionSystem MyUnp.WebClient MyUnp.WebExchange

variable {cfg : Config} {s t : State}

def parentWork (cfg : Config) : Parent → Nat
  | .forking i => cfg.nchildren.toNat - i + 2
  | .waiting => 1
  | .exited => 0

def childWork (cfg : Config) : Child → Nat
  | .notForked => 2 * cfg.nloops.toNat + 1
  | .head j => 2 * (cfg.nloops.toNat - j) + 1
  | .busy j => 2 * (cfg.nloops.toNat - j)
  | .done => 0
  | .errQuit _ => 0

def connWork (cfg : Config) (c : Option Conn) : Nat := work cfg (c.getD .start)

def rowWork (cfg : Config) (row : Nat → Option Conn) : Nat :=
  ∑ j ∈ Finset.range cfg.nloops.toNat, connWork cfg (row j)

def servedWork (cfg : Config) (s : State) (i : Nat) : Nat :=
  childWork cfg (s.child i) + rowWork cfg (s.conn i)

def totalWork (cfg : Config) (s : State) : Nat :=
  parentWork cfg s.parent + ∑ i ∈ Finset.range cfg.nchildren.toNat, servedWork cfg s i

theorem sum_add_of_eq {n i : Nat} (hi : i < n) {f g : Nat → Nat}
    (h : ∀ k, k ≠ i → g k = f k) :
    ∑ k ∈ Finset.range n, g k + f i = ∑ k ∈ Finset.range n, f k + g i := by
  have hmem : i ∈ Finset.range n := Finset.mem_range.mpr hi
  have hrest : ∑ k ∈ (Finset.range n).erase i, g k = ∑ k ∈ (Finset.range n).erase i, f k :=
    Finset.sum_congr rfl fun k hk => h k (Finset.ne_of_mem_erase hk)
  rw [← Finset.add_sum_erase _ g hmem, ← Finset.add_sum_erase _ f hmem, hrest]
  omega

theorem rowWork_update {row : Nat → Option Conn} {j : Nat} (hj : j < cfg.nloops.toNat)
    (c : Conn) :
    rowWork cfg (Function.update row j (some c)) + connWork cfg (row j) =
      rowWork cfg row + work cfg c := by
  have hsum := sum_add_of_eq hj (f := fun k => connWork cfg (row k))
    (g := fun k => connWork cfg (Function.update row j (some c) k)) fun k hkj => by
      rw [Function.update_of_ne hkj]
  rw [Function.update_self] at hsum
  exact hsum

theorem totalWork_lt {i : Nat} (hi : i < cfg.nchildren.toNat)
    (hchild : ∀ k, k ≠ i → t.child k = s.child k)
    (hconn : ∀ k, k ≠ i → t.conn k = s.conn k)
    (hlt : parentWork cfg t.parent + servedWork cfg t i <
      parentWork cfg s.parent + servedWork cfg s i) :
    totalWork cfg t < totalWork cfg s := by
  have hsum := sum_add_of_eq hi (f := servedWork cfg s) (g := servedWork cfg t)
    fun k hki => by rw [servedWork, servedWork, hchild k hki, hconn k hki]
  rw [totalWork, totalWork]
  omega

theorem childWork_after {j : Nat} (hj : j < cfg.nloops.toNat) {d : Conn} (h : Phase cfg d) :
    childWork cfg (.after j d.clientPc) ≤ childWork cfg (.busy j) := by
  have halive := h.exchange.client
  cases hpc : d.clientPc with
  | errQuit n => exact absurd hpc (halive n)
  | closed =>
      rw [Child.after, childWork, childWork]
      omega
  | _ => exact Nat.le_refl _

theorem rowWork_of_some {row : Nat → Option Conn} {j : Nat} (hj : j < cfg.nloops.toNat)
    {c d : Conn} (hconn : row j = some c) (hwork : work cfg d < work cfg c) :
    rowWork cfg (Function.update row j (some d)) < rowWork cfg row := by
  have hupdate : rowWork cfg (Function.update row j (some d)) + connWork cfg (row j) =
      rowWork cfg row + work cfg d := rowWork_update hj d
  rw [hconn, connWork, Option.getD_some] at hupdate
  omega

theorem setConn_self {i j : Nat} {c : Conn} (hconn : s.conn i j = some c) :
    s.setConn i j c = s := by
  rw [State.setConn, ← hconn, Function.update_eq_self, Function.update_eq_self]

theorem setChild_self {i : Nat} {ch : Child} (hchild : s.child i = ch) :
    s.setChild i ch = s := by
  rw [State.setChild, ← hchild, Function.update_eq_self]

theorem fork_work {i : Nat} (h : Inv cfg s) (hparent : s.parent = .forking i)
    (hi : i < cfg.nchildren) :
    totalWork cfg { s.setChild i (.head 0) with parent := .forking (i + 1) } <
      totalWork cfg s := by
  have hnew : s.child i = .notForked := by
    rw [h.forked, hparent]
    exact Nat.le_refl i
  apply totalWork_lt (i := i) (by omega)
  · exact fun k hki => Function.update_of_ne hki ..
  · exact fun k hki => rfl
  · have hwork : childWork cfg (.head 0) = childWork cfg .notForked := rfl
    simp only [servedWork, State.setChild, Function.update_self, hnew, hparent, hwork,
      parentWork]
    omega

theorem connect_work {i j : Nat} (h : Inv cfg s) (hchild : s.child i = .head j)
    (hj : j < cfg.nloops) :
    totalWork cfg { (s.setConn i j .start).setChild i (.busy j) with
      opened := s.opened ++ [(i, j)] } < totalWork cfg s := by
  have hserved := h.served i
  rw [hchild] at hserved
  have hnone : s.conn i j = none := (hserved.opened j).mpr (Nat.le_refl j)
  have hlt : j < cfg.nloops.toNat := by omega
  have hupdate : rowWork cfg (Function.update (s.conn i) j (some .start)) +
      connWork cfg (s.conn i j) = rowWork cfg (s.conn i) + work cfg .start :=
    rowWork_update hlt .start
  rw [hnone, connWork, Option.getD_none] at hupdate
  apply totalWork_lt (i := i) (h.lt_nchildren (by simp [hchild]))
  · exact fun k hki => Function.update_of_ne hki ..
  · exact fun k hki => setConn_conn_ne s j _ hki
  · simp only [servedWork, State.setChild, Function.update_self, hchild, childWork]
    rw [setConn_conn_self]
    change parentWork cfg s.parent + _ < _
    omega

theorem finish_work {i j : Nat} (h : Inv cfg s) (hchild : s.child i = .head j) :
    totalWork cfg (s.setChild i .done) < totalWork cfg s := by
  apply totalWork_lt (i := i) (h.lt_nchildren (by simp [hchild]))
  · exact fun k hki => Function.update_of_ne hki ..
  · exact fun k hki => rfl
  · simp only [servedWork, State.setChild, Function.update_self, hchild, childWork]
    omega

theorem client_work {i j : Nat} {c d : Conn} (h : Inv cfg s) (hchild : s.child i = .busy j)
    (hconn : s.conn i j = some c) (hphase : Phase cfg d) (hwork : work cfg d < work cfg c) :
    totalWork cfg ((s.setConn i j d).setChild i (.after j d.clientPc)) < totalWork cfg s := by
  have hj := ((h.served i).lt hconn).2
  have hrow := rowWork_of_some hj hconn hwork
  have hafter := childWork_after hj hphase
  apply totalWork_lt (i := i) (h.lt_nchildren (by simp [hchild]))
  · exact fun k hki => Function.update_of_ne hki ..
  · exact fun k hki => setConn_conn_ne s j _ hki
  · simp only [servedWork, State.setChild, Function.update_self, hchild]
    rw [setConn_conn_self]
    change parentWork cfg s.parent + _ < _
    omega

theorem server_work {i j : Nat} {c d : Conn} (h : Inv cfg s) (hconn : s.conn i j = some c)
    (hwork : work cfg d < work cfg c) :
    totalWork cfg (s.setConn i j d) < totalWork cfg s := by
  have hlt := (h.served i).lt hconn
  have hrow := rowWork_of_some hlt.2 hconn hwork
  have hforked : s.child i ≠ .notForked := by
    intro hnot
    rw [hnot] at hlt
    exact Nat.not_lt_zero j hlt.1
  apply totalWork_lt (h.lt_nchildren hforked)
  · exact fun k hki => rfl
  · exact fun k hki => setConn_conn_ne s j _ hki
  · rw [servedWork, servedWork, setConn_conn_self]
    change parentWork cfg s.parent + (childWork cfg (s.child i) + _) < _
    omega

theorem client_same {i j : Nat} {c : Conn} (h : Inv cfg s) (hchild : s.child i = .busy j)
    (hconn : s.conn i j = some c) :
    (s.setConn i j c).setChild i (.after j c.clientPc) = s := by
  have hserved := h.served i
  have hbusy : Child.after j c.clientPc = .busy j := by
    rw [after_eq_busy (hserved.phase j c hconn)]
    refine ⟨rfl, fun hpc => ?_⟩
    exact (hserved.busy j c hconn).mp hpc hchild
  rw [hbusy, setConn_self hconn]
  exact setChild_self hchild

theorem work_step (h : Inv cfg s) {l : Act} (hstep : (system cfg).step s l = some t) :
    if l.interrupted then t = s else totalWork cfg t < totalWork cfg s := by
  cases step_move hstep with
  | fork hparent hi => exact fork_work h hparent hi
  | forked hparent hi =>
      apply Nat.add_lt_add_right
      rw [hparent, parentWork, parentWork]
      omega
  | wait hparent hended =>
      apply Nat.add_lt_add_right
      rw [hparent]
      exact Nat.zero_lt_one
  | connect hchild hj => exact connect_work h hchild hj
  | finish hchild hj => exact finish_work h hchild
  | @client i j a c d hchild hconn hcall =>
      obtain ⟨hphase, hwork⟩ := ((h.served i).phase j c hconn).clientStep hcall
      rw [Act.interrupted]
      cases hint : a.interrupted with
      | true =>
          rw [hint] at hwork
          obtain rfl : d = c := hwork
          exact client_same h hchild hconn
      | false =>
          rw [hint] at hwork
          exact client_work h hchild hconn hphase hwork
  | @server i j a c d hconn hcall =>
      obtain ⟨-, hwork⟩ := ((h.served i).phase j c hconn).serverStep hcall
      rw [Act.interrupted]
      cases hint : a.interrupted with
      | true =>
          rw [hint] at hwork
          obtain rfl : d = c := hwork
          exact setConn_self hconn
      | false =>
          rw [hint] at hwork
          exact server_work h hconn hwork

/-- All children have finished their loops, with each of their connections opened
once, closed by both sides, and its reply of `nbytes` bytes read in full. -/
structure Finished (cfg : Config) (s : State) : Prop where
  parent : s.parent = .exited
  done : ∀ i < cfg.nchildren.toNat, s.child i = .done
  total : s.opened.length = cfg.nchildren.toNat * cfg.nloops.toNat
  served : ∀ i < cfg.nchildren.toNat, ∀ j < cfg.nloops.toNat, ∃ c, s.conn i j = some c ∧
    c.clientPc = .closed ∧ c.serverPc = .returned ∧
      c.got = some (cfg.nbytes : Int) ∧ c.written = cfg.nbytes

theorem mem_opened_iff (h : Inv cfg s) (i j : Nat) :
    (i, j) ∈ s.opened ↔ j < loops cfg (s.child i) := by
  rw [h.mem_opened, Ne, (h.served i).opened j, Nat.not_le]

theorem opened_length (h : Inv cfg s) (hdone : ∀ i < cfg.nchildren.toNat, s.child i = .done) :
    s.opened.length = cfg.nchildren.toNat * cfg.nloops.toNat := by
  have hset : s.opened.toFinset =
      Finset.range cfg.nchildren.toNat ×ˢ Finset.range cfg.nloops.toNat := by
    ext ⟨i, j⟩
    rw [List.mem_toFinset, Finset.mem_product, Finset.mem_range, Finset.mem_range,
      mem_opened_iff h]
    constructor
    · intro hj
      have hi : i < cfg.nchildren.toNat := by
        apply h.lt_nchildren
        intro hnot
        rw [hnot] at hj
        exact Nat.not_lt_zero j hj
      rw [hdone i hi] at hj
      exact ⟨hi, hj⟩
    · rintro ⟨hi, hj⟩
      rw [hdone i hi]
      exact hj
  rw [← List.toFinset_card_of_nodup h.nodup, hset, Finset.card_product, Finset.card_range,
    Finset.card_range]

theorem child_progress (h : Inv cfg s) {i : Nat} (hforked : s.child i ≠ .notForked)
    (hended : (s.child i).ended = false) :
    ∃ l, l.interrupted = false ∧ ((system cfg).step s l).isSome := by
  cases hchild : s.child i with
  | notForked => exact absurd hchild hforked
  | head j =>
      refine ⟨.loop i, rfl, ?_⟩
      change (s.step cfg (.loop i)).isSome = true
      rw [State.step, hchild]
      rfl
  | busy j =>
      have hserved := h.served i
      rw [hchild] at hserved
      have hsome : s.conn i j ≠ none := by
        rw [Ne, hserved.opened, loops]
        omega
      obtain ⟨c, hconn⟩ := Option.ne_none_iff_exists'.mp hsome
      rcases (hserved.phase j c hconn).progress with
        ⟨hclosed, -⟩ | ⟨a, hint, hcall⟩ | ⟨a, hint, hcall⟩
      · exact absurd rfl ((hserved.busy j c hconn).mp hclosed)
      · obtain ⟨d, hd⟩ := Option.isSome_iff_exists.mp hcall
        refine ⟨.client i a, hint, ?_⟩
        change (s.step cfg (.client i a)).isSome = true
        rw [State.step, hchild]
        dsimp only
        rw [hconn, Option.bind_some, hd]
        rfl
      · obtain ⟨d, hd⟩ := Option.isSome_iff_exists.mp hcall
        refine ⟨.server i j a, hint, ?_⟩
        change (s.step cfg (.server i j a)).isSome = true
        rw [State.step, hconn, Option.bind_some, hd]
        rfl
  | done =>
      rw [hchild] at hended
      cases hended
  | errQuit n => exact absurd hchild ((h.served i).alive n)

theorem conn_progress (h : Inv cfg s) {i j : Nat} {c : Conn} (hconn : s.conn i j = some c)
    (hclosed : c.clientPc = .closed) :
    c.serverPc = .returned ∨ ((system cfg).step s (.server i j .fillEof)).isSome := by
  refine (((h.served i).phase j c hconn).exchange.closed hclosed).2.imp_right ?_
  intro hcall
  change (s.step cfg (.server i j .fillEof)).isSome = true
  rw [State.step, hconn, Option.bind_some, hcall]
  rfl

theorem fork_isSome {i : Nat} (hparent : s.parent = .forking i) :
    ((system cfg).step s .fork).isSome := by
  change (s.step cfg .fork).isSome = true
  rw [State.step, hparent]
  rfl

theorem wait_isSome (hparent : s.parent = .waiting)
    (hended : ∀ i < cfg.nchildren.toNat, (s.child i).ended = true) :
    ((system cfg).step s .wait).isSome := by
  change (s.step cfg .wait).isSome = true
  rw [State.step, if_pos ⟨hparent, hended⟩]
  rfl

theorem served_of_stuck (h : Inv cfg s) {i : Nat} (hdone : s.child i = .done)
    (hstuck : ∀ j, ¬((system cfg).step s (.server i j .fillEof)).isSome) {j : Nat}
    (hj : j < cfg.nloops.toNat) :
    ∃ c, s.conn i j = some c ∧ c.clientPc = .closed ∧ c.serverPc = .returned ∧
      c.got = some (cfg.nbytes : Int) ∧ c.written = cfg.nbytes := by
  have hserved := h.served i
  have hsome : s.conn i j ≠ none := by
    rw [Ne, hserved.opened, hdone, loops]
    omega
  obtain ⟨c, hconn⟩ := Option.ne_none_iff_exists'.mp hsome
  have hexchange := (hserved.phase j c hconn).exchange
  have hclosed : c.clientPc = .closed := by
    rw [hserved.busy j c hconn, hdone]
    simp
  have hgot := (hexchange.closed hclosed).1
  have hreturned := (conn_progress h hconn hclosed).resolve_right (hstuck j)
  exact ⟨c, hconn, hclosed, hreturned, hgot, (hexchange.readn _ hgot).2⟩

theorem progress (h : Inv cfg s) :
    Finished cfg s ∨ ∃ l, l.interrupted = false ∧ ((system cfg).step s l).isSome := by
  rw [or_iff_not_imp_right]
  intro hstuck
  have hparent : ∀ i, s.parent ≠ .forking i :=
    fun i hparent => hstuck ⟨.fork, rfl, fork_isSome hparent⟩
  have hforks : forks cfg s.parent = cfg.nchildren.toNat := by
    cases hpar : s.parent with
    | forking i => exact absurd hpar (hparent i)
    | waiting => rfl
    | exited => rfl
  have hended : ∀ i < cfg.nchildren.toNat, (s.child i).ended = true := by
    intro i hi
    by_contra hrunning
    apply hstuck
    apply child_progress h (i := i)
    · rw [Ne, h.forked, hforks]
      omega
    · simpa using hrunning
  have hdone : ∀ i < cfg.nchildren.toNat, s.child i = .done := by
    intro i hi
    have hend := hended i hi
    cases hchild : s.child i with
    | done => rfl
    | errQuit n => exact absurd hchild ((h.served i).alive n)
    | _ =>
        rw [hchild] at hend
        cases hend
  refine ⟨?_, hdone, opened_length h hdone, ?_⟩
  · cases hpar : s.parent with
    | forking i => exact absurd hpar (hparent i)
    | waiting => exact absurd ⟨.wait, rfl, wait_isSome hpar hended⟩ hstuck
    | exited => rfl
  · intro i hi j hj
    apply served_of_stuck h (hdone i hi) ?_ hj
    exact fun k hk => hstuck ⟨_, rfl, hk⟩

/-- The runs of the client against `web_child`: on every connection the exchange
is the one intended, no child breaks off, each round of each child opens one
connection, and a run that does not stop at an interrupted call for ever comes to
its end after a number of steps that is known in advance. -/
structure RequestReply (cfg : Config) (ls : List Act) (s : State) : Prop where
  exchange : ∀ i j c, s.conn i j = some c → Exchange cfg c
  alive : ∀ i n, s.child i ≠ .errQuit n
  opened_once : s.opened.Nodup
  opened : ∀ i j, (i, j) ∈ s.opened ↔ ∃ c, s.conn i j = some c
  opened_lt : ∀ i j, (i, j) ∈ s.opened → i < cfg.nchildren ∧ j < cfg.nloops
  steps : ls.countP (fun l => !l.interrupted) + totalWork cfg s ≤ totalWork cfg .start
  ends : Finished cfg s ∨ ∃ l, l.interrupted = false ∧ ((system cfg).step s l).isSome

theorem trace_requestReply {ls : List Act} (h : (system cfg).Trace ls s) :
    RequestReply cfg ls s := by
  have hinv := reachable_inv h.reachable
  constructor
  · intro i j c hconn
    exact ((hinv.served i).phase j c hconn).exchange
  · exact fun i => (hinv.served i).alive
  · exact hinv.nodup
  · intro i j
    rw [hinv.mem_opened, Option.ne_none_iff_exists']
  · intro i j hmem
    obtain ⟨c, hconn⟩ := Option.ne_none_iff_exists'.mp ((hinv.mem_opened i j).mp hmem)
    have hlt := (hinv.served i).lt hconn
    have hi : i < cfg.nchildren.toNat := by
      apply hinv.lt_nchildren
      intro hnot
      rw [hnot] at hlt
      exact Nat.not_lt_zero j hlt.1
    omega
  · refine h.countP_le ?_ ?_
    · rintro s rfl
      exact Nat.le_refl _
    · intro s l t hreach hstep
      have hwork := work_step (reachable_inv hreach) hstep
      cases hint : l.interrupted with
      | true =>
          rw [hint] at hwork
          obtain rfl : t = s := hwork
          exact Nat.le_refl _
      | false =>
          rw [hint] at hwork
          exact hwork
  · exact progress hinv

/-- One child and one connection, in pieces: the request for 12 bytes is read as
`1` and `2\n`, the reply written as 8 bytes and 4 and read as 5 and 7. -/
def single : Config := ⟨1, 1, 12, 8, by decide, by decide, by decide⟩

theorem trace_requestReply_single : ∃ ls s, RequestReply single ls s ∧
    s.parent = .exited ∧ s.opened = [(0, 0)] := by
  have hmap : ((system single).run .start
      [.fork, .loop 0, .client 0 .write, .server 0 0 .accept, .server 0 0 (.fill 1),
        .server 0 0 .byte, .server 0 0 .fillEintr, .server 0 0 (.fill 2), .server 0 0 .byte,
        .server 0 0 .byte, .server 0 0 (.write 8), .client 0 (.read 5),
        .server 0 0 (.write 4), .client 0 .readEintr, .client 0 (.read 7), .client 0 .close,
        .loop 0, .server 0 0 .fillEof, .fork, .wait]).map (fun s => (s.parent, s.opened)) =
      some (.exited, [(0, 0)]) := by
    decide +kernel
  obtain ⟨s, hrun, hfacts⟩ := Option.map_eq_some_iff.mp hmap
  obtain ⟨hparent, hopened⟩ := Prod.mk.inj hfacts
  exact ⟨_, s, trace_requestReply ⟨_, rfl, hrun⟩, hparent, hopened⟩

end MyUnp.WebClientRun
