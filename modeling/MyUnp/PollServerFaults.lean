import MyUnp.PollServerScan

namespace MyUnp.PollServerFaults

open MyUnp.PollServer
open MyUnp.PollServerRule
open MyUnp.PollServerScan
open MyUnp.PollServerTable
open MyUnp.SlotTable
open MyUnp.TransitionSystem

variable {cfg : Config} {e : Env} {s t : Server}

/-- Entry `j` and its connection stay as they are, and none of the system calls
is about that connection. -/
structure Spared (j : Nat) (s t : Server) (ops : List Op) : Prop where
  fd : (t.client j).fd = (s.client j).fd
  events : (t.client j).events = (s.client j).events
  conn : t.kernel.conn (s.client j).fd = s.kernel.conn (s.client j).fd
  ops : ∀ op ∈ ops, onConn op ≠ s.kernel.conn (s.client j).fd

theorem Spared.refl (j : Nat) (s : Server) : Spared j s s [] :=
  ⟨rfl, rfl, rfl, by simp⟩

theorem Spared.trans {j : Nat} {u : Server} {ops ops' : List Op}
    (h : Spared j s t ops) (h' : Spared j t u ops') :
    Spared j s u (ops ++ ops') := by
  obtain ⟨hfd, hevents, hconn, hops⟩ := h'
  rw [h.fd] at hfd hconn hops
  rw [h.events] at hevents
  rw [h.conn] at hconn hops
  refine ⟨hfd, hevents, hconn, ?_⟩
  intro op hop
  rcases List.mem_append.mp hop with hop | hop
  · exact h.ops op hop
  · exact hops op hop

theorem Spared.andThen {j : Nat} {p : Pass} {f : Server → Pass}
    (hp : Spared j s p.server p.ops)
    (hf : p.exited = none →
      Spared j p.server (f p.server).server (f p.server).ops) :
    Spared j s (p.andThen f).server (p.andThen f).ops := by
  cases hexit : p.exited with
  | some x =>
      rw [andThen_of_exited hexit]
      exact hp
  | none =>
      rw [andThen_of_none hexit]
      exact hp.trans (hf hexit)

theorem conn_ne {log : List Op} (h : Inv cfg none s log) {i j : Nat}
    {fd fd' : Int} (hi : slots cfg s i = some fd)
    (hj : slots cfg s j = some fd') (hij : i ≠ j) :
    fd' ≠ fd ∧ s.kernel.conn fd ≠ s.kernel.conn fd' := by
  have htracks := (h.table rfl).tracks
  have hne : fd' ≠ fd := by
    rintro rfl
    exact hij (htracks.once hi hj)
  obtain ⟨c, hc⟩ := Option.ne_none_iff_exists'.mp
    ((htracks.live_iff fd).mpr ⟨i, hi⟩)
  refine ⟨hne, fun heq => ?_⟩
  rw [hc] at heq
  exact hne (h.history.tracks.once heq.symm hc)

theorem serve_spared {log : List Op} (h : Inv cfg none s log) {i j : Nat}
    {fd : Int} (hi : slots cfg s i = some (s.client i).fd)
    (hj : slots cfg s j = some fd) (hij : i ≠ j) :
    Spared j s (serve e s i).server (serve e s i).ops := by
  obtain ⟨-, -, -, rfl⟩ := slots_eq_some.mp hj
  obtain ⟨hfd, hconn⟩ := conn_ne h hi hj hij
  have hclient := serve_client_ne (e := e) (s := s) hij.symm
  refine ⟨by rw [hclient], by rw [hclient], serve_conn_ne hfd, ?_⟩
  intro op hop
  rw [(mem_served hop).2]
  exact hconn

theorem slots_congr {j : Nat} (h : t.client j = s.client j) :
    slots cfg t j = slots cfg s j := by
  simp only [slots, h]

theorem scan_spared {is : List Nat} (his : InTable cfg is) {log : List Op}
    (h : Inv cfg none s log) {j : Nat} {fd : Int}
    (hj : slots cfg s j = some fd) (hquiet : ¬(s.client j).ready = true)
    (nready : Int) :
    Spared j s (scan e is s nready).server (scan e is s nready).ops := by
  induction is generalizing s log nready with
  | nil => exact Spared.refl j s
  | cons i is ih =>
      rw [scan]
      split
      · exact ih his.tail h hj hquiet nready
      · rename_i hfd
        split
        · rename_i hready
          have hi := his.slots_eq (List.mem_cons_self ..) hfd
          have hij : i ≠ j := by
            rintro rfl
            exact hquiet hready
          apply (serve_spared h hi hj hij).andThen
          intro hexit
          have hserve := inv_serve (e := e) h hi
          rw [After, hexit] at hserve
          have hclient := serve_client_ne (e := e) (s := s) hij.symm
          split
          · exact Spared.refl j _
          · apply ih his.tail hserve
            · rw [slots_congr hclient, hj]
            · rwa [hclient]
        · exact ih his.tail h hj hquiet nready

theorem accept_spared {log : List Op} (h : Inv cfg none s log)
    (hlegal : Legal cfg s e) {j : Nat} {fd : Int}
    (hj : slots cfg s j = some fd) :
    Spared j s (acceptClient cfg e s).server (acceptClient cfg e s).ops ∧
      ((acceptClient cfg e s).exited = none →
        (acceptClient cfg e s).server.client j = s.client j) := by
  have hopen := ((h.table rfl).tracks.live_iff _).mpr ⟨j, hj⟩
  obtain ⟨-, -, hnonneg, rfl⟩ := slots_eq_some.mp hj
  rcases acceptClient_cases cfg e s with
    ⟨-, heq⟩ | ⟨connfd, haccept, hcases⟩
  · rw [heq]
    exact ⟨Spared.refl j s, fun _ => rfl⟩
  · rw [Legal, haccept] at hlegal
    have hfd : (s.client j).fd ≠ connfd := by
      intro heq
      rw [heq] at hopen
      exact hopen hlegal.2.2
    have hconn : (s.kernel.accept connfd).conn (s.client j).fd =
        s.kernel.conn (s.client j).fd := Function.update_of_ne hfd ..
    -- the new connection has a number that no open one has
    have hnew : ∀ op ∈ [Op.accept connfd s.kernel.accepted],
        onConn op ≠ s.kernel.conn (s.client j).fd := by
      intro op hop heq
      rw [List.mem_singleton.mp hop, onConn] at heq
      have hacc := ((h.history.tracks.live_iff _).mpr ⟨_, heq.symm⟩).1
      rw [h.history.accepted, List.mem_range] at hacc
      exact Nat.lt_irrefl _ hacc
    rcases hcases with heq | ⟨hlt, heq⟩
    · rw [heq]
      exact ⟨⟨rfl, rfl, hconn, hnew⟩, fun _ => rfl⟩
    · have hne : j ≠ s.freeSlot cfg := by
        rintro rfl
        have hfree := freeSlot_free hlt
        omega
      have hclient : (s.add (s.freeSlot cfg) connfd).client j = s.client j :=
        Function.update_of_ne hne ..
      rw [heq]
      exact ⟨⟨by rw [hclient], by rw [hclient], hconn, hnew⟩,
        fun _ => hclient⟩

theorem handle_spared {log : List Op} (h : Inv cfg none s log)
    (hlegal : Legal cfg s e) {j : Nat} {fd : Int}
    (hj : slots cfg s j = some fd) (hquiet : ¬(s.client j).ready = true)
    (nready : Int) :
    Spared j s (handle cfg e s nready).server (handle cfg e s nready).ops := by
  rw [handle]
  split
  · obtain ⟨hspared, hsame⟩ := accept_spared h hlegal hj
    refine hspared.andThen fun hexit => ?_
    have hclient := hsame hexit
    have haccept := inv_acceptClient h hlegal
    rw [After, hexit] at haccept
    split
    · exact Spared.refl j _
    · apply scan_spared (inTable_scanned (haccept.table rfl)) haccept
      · rw [slots_congr hclient, hj]
      · rwa [hclient]
  · exact scan_spared (inTable_scanned (h.table rfl)) h hj hquiet nready

def TableFull (cfg : Config) (s : Server) : Prop :=
  ∀ i, 1 ≤ i → i < cfg.OPEN_MAX → 0 ≤ (s.client i).fd

/-- The read from client `i` fails with an error other than `ECONNRESET`, or the
echo to it does. -/
def Fails (e : Env) (i : Nat) : Prop :=
  e.read i = .error ∨ ∃ g k, e.read i = .data g ∧ e.writen i = some k

theorem serve_exited_iff (e : Env) (s : Server) (i : Nat) :
    (serve e s i).exited ≠ none ↔ Fails e i := by
  rw [serve, Fails]
  cases e.read i with
  | data g => cases e.writen i <;> simp
  | eof => simp
  | reset => simp
  | error => simp

theorem tableFull_iff (cfg : Config) (s : Server) :
    TableFull cfg s ↔ s.freeSlot cfg = cfg.OPEN_MAX := by
  constructor
  · intro hfull
    apply Nat.le_antisymm (freeSlot_le cfg s)
    by_contra hlt
    have hfree := freeSlot_free (Nat.not_le.mp hlt)
    have hfd := hfull _ (freeSlot_pos cfg s) (Nat.not_le.mp hlt)
    omega
  · intro heq i hpos hi
    exact taken_of_lt_freeSlot hpos (heq ▸ hi)

theorem acceptClient_exited_iff (cfg : Config) (e : Env) (s : Server) :
    (acceptClient cfg e s).exited ≠ none ↔
      e.accept = none ∨ TableFull cfg s := by
  rw [acceptClient, tableFull_iff]
  cases e.accept with
  | none => simp
  | some connfd => by_cases hfull : s.freeSlot cfg = cfg.OPEN_MAX <;> simp [hfull]

theorem scan_exited {is : List Nat} {nready : Int}
    (h : (scan e is s nready).exited ≠ none) : ∃ i ∈ hits s is, Fails e i := by
  induction is generalizing s nready with
  | nil => exact absurd rfl h
  | cons i is ih =>
      rw [scan] at h
      split at h
      · rename_i hfd
        rw [hits_cons_of_not (.inl hfd)]
        exact ih h
      · rename_i hfd
        split at h
        · rename_i hready
          have hhit : i ∈ hits s (i :: is) := by
            rw [mem_hits]
            exact ⟨List.mem_cons_self .., Int.not_lt.mp hfd, hready⟩
          cases hexit : (serve e s i).exited with
          | some x => exact ⟨i, hhit, (serve_exited_iff e s i).mp (by simp [hexit])⟩
          | none =>
              rw [andThen_of_none hexit] at h
              split at h
              · exact absurd rfl h
              · obtain ⟨k, hk, hfails⟩ := ih h
                rcases eq_or_ne k i with rfl | hki
                · exact ⟨k, hhit, hfails⟩
                · refine ⟨k, ?_, hfails⟩
                  rw [mem_hits, serve_client_ne hki] at hk
                  rw [mem_hits]
                  exact ⟨List.mem_cons_of_mem _ hk.1, hk.2⟩
        · rename_i hready
          rw [hits_cons_of_not (.inr hready)]
          exact ih h

theorem andThen_exited {p : Pass} {f : Server → Pass}
    (h : (p.andThen f).exited ≠ none) :
    p.exited ≠ none ∨ p.exited = none ∧ (f p.server).exited ≠ none := by
  cases hexit : p.exited with
  | some x => exact .inl (Option.some_ne_none x)
  | none =>
      rw [andThen_of_none hexit] at h
      exact .inr ⟨rfl, h⟩

theorem handle_exited {log : List Op} (h : Inv cfg none s log)
    (hlegal : Legal cfg s e)
    (hzero : ∀ i ≤ s.maxi, (s.client i).fd < 0 → (s.client i).revents = 0)
    {nready : Int} (hexit : (handle cfg e s nready).exited ≠ none) :
    (Arrival s ∧ (e.accept = none ∨ TableFull cfg s)) ∨
      ∃ is i, InTable cfg is ∧ i ∈ hits s is ∧ Fails e i := by
  have hcond : ((s.client 0).revents &&& POLLRDNORM != 0) = true ↔ Arrival s :=
    bne_iff_ne
  rw [handle] at hexit
  split at hexit
  · rename_i harrival
    rcases andThen_exited hexit with haccept | ⟨hgo, hscan⟩
    · rw [acceptClient_exited_iff] at haccept
      exact .inl ⟨hcond.mp harrival, haccept⟩
    · have hinv := inv_acceptClient h hlegal
      rw [After, hgo] at hinv
      split at hscan
      · exact absurd rfl hscan
      · obtain ⟨i, hi, hfails⟩ := scan_exited hscan
        refine .inr ⟨_, i, inTable_scanned (hinv.table rfl), ?_, hfails⟩
        rcases acceptClient_cases cfg e s with
          ⟨-, heq⟩ | ⟨connfd, -, heq | ⟨hlt, heq⟩⟩
        · simp [heq] at hgo
        · simp [heq] at hgo
        · have hfree := freeSlot_free hlt
          rw [heq, hits_add connfd hfree fun hle => hzero _ hle hfree] at hi
          rwa [heq]
  · obtain ⟨i, hi, hfails⟩ := scan_exited hexit
    exact .inr ⟨_, i, inTable_scanned (h.table rfl), hi, hfails⟩

def Connecting (e : Env) : Prop := e.revents 0 &&& POLLRDNORM ≠ 0

def Reported (e : Env) (i : Nat) : Prop :=
  e.revents i &&& (POLLRDNORM ||| POLLERR) ≠ 0

/-- One iteration, whatever the peers do in it. The process ends only for a peer
that connects while `accept` fails or every entry is taken, or for a client whose
read or echo fails; and a client that is not reported itself keeps its entry and
its connection, with the data that wait on it. -/
structure Contained (cfg : Config) (e : Env) (s t : State) : Prop where
  ended : t.exited ≠ none →
    (Connecting e ∧ (e.accept = none ∨ TableFull cfg s.server)) ∨
      ∃ i, 1 ≤ i ∧ i < cfg.OPEN_MAX ∧ 0 ≤ (s.server.client i).fd ∧
        Reported e i ∧ Fails e i
  connecting : Connecting e → e.accept = none ∨ TableFull cfg s.server →
    t.exited ≠ none
  failing : ∀ i, 1 ≤ i → i < s.server.maxi → 0 ≤ (s.server.client i).fd →
    Reported e i → Fails e i → t.exited ≠ none
  others : ∃ ops, t.log = s.log ++ ops ∧
    ∀ j, 1 ≤ j → j < cfg.OPEN_MAX → 0 ≤ (s.server.client j).fd →
      ¬Reported e j → Spared j s.server t.server ops

theorem reported_of_ready {i : Nat} (hi : i ≤ s.maxi)
    (hfd : 0 ≤ (s.client i).fd) :
    ((s.poll e).client i).ready = true ↔ Reported e i := by
  rw [PollFd.ready, poll_revents hi hfd]
  exact bne_iff_ne

theorem arrival_poll (h : TableOk cfg s) (e : Env) :
    Arrival (s.poll e) ↔ Connecting e := by
  rw [Arrival, poll_revents (Nat.zero_le _) (h.listen ▸ cfg.listening), Connecting]

theorem tableFull_poll (cfg : Config) (s : Server) (e : Env) :
    TableFull cfg (s.poll e) ↔ TableFull cfg s := by
  simp only [TableFull, poll_fd]

theorem pass_ended {log : List Op} (h : Inv cfg none s log)
    (hlegal : Legal cfg s e) (hexit : (pass cfg e s).exited ≠ none) :
    (Connecting e ∧ (e.accept = none ∨ TableFull cfg s)) ∨
      ∃ i, 1 ≤ i ∧ i < cfg.OPEN_MAX ∧ 0 ≤ (s.client i).fd ∧
        Reported e i ∧ Fails e i := by
  have htable := h.table rfl
  have hpoll := (inv_kept cfg).poll e h
  have hzero : ∀ i ≤ (s.poll e).maxi, ((s.poll e).client i).fd < 0 →
      ((s.poll e).client i).revents = 0 := by
    intro i hi hfd
    rw [poll_fd] at hfd
    exact poll_zero hi hfd
  rcases handle_exited hpoll hlegal hzero hexit with
    ⟨harrival, haccept⟩ | ⟨is, i, his, hi, hfails⟩
  · rw [arrival_poll htable] at harrival
    rw [tableFull_poll] at haccept
    exact .inl ⟨harrival, haccept⟩
  · obtain ⟨hmem, hfd, hready⟩ := mem_hits.mp hi
    obtain ⟨hpos, hlt⟩ := his i hmem
    rw [poll_fd] at hfd
    rw [reported_of_ready (le_maxi_of_fd htable hlt hfd) hfd] at hready
    exact .inr ⟨i, hpos, hlt, hfd, hready, hfails⟩

theorem pass_connecting (h : TableOk cfg s) (hconnecting : Connecting e)
    (haccept : e.accept = none ∨ TableFull cfg s) :
    (pass cfg e s).exited ≠ none := by
  rw [← arrival_poll h] at hconnecting
  rw [← tableFull_poll cfg s e, ← acceptClient_exited_iff] at haccept
  obtain ⟨x, hx⟩ := Option.ne_none_iff_exists'.mp haccept
  rw [PollServer.pass, handle, if_pos (bne_iff_ne.mpr hconnecting), andThen_of_exited hx]
  exact haccept

theorem pass_failing {log : List Op} (h : Inv cfg none s log)
    (hlegal : Legal cfg s e) {i : Nat} (hpos : 1 ≤ i) (hi : i < s.maxi)
    (hfd : 0 ≤ (s.client i).fd) (hreported : Reported e i)
    (hfails : Fails e i) : (pass cfg e s).exited ≠ none := by
  intro hexit
  obtain ⟨acc, l, -, -, -, hdone⟩ := handled_pass h hlegal
  have hend : s.maxi ≤ scanEnd cfg (s.poll e) := by
    rw [scanEnd, poll_maxi]
    split <;> omega
  have hmem : i ∈ hits (s.poll e)
      (List.range' 1 (scanEnd cfg (s.poll e) - 1)) := by
    rw [mem_hits, poll_fd, reported_of_ready (Nat.le_of_lt hi) hfd,
      List.mem_range'_1]
    exact ⟨by omega, hfd, hreported⟩
  exact (serve_exited_iff e _ i).mpr hfails ((hdone hexit).2 i hmem)

theorem pass_others {log : List Op} (h : Inv cfg none s log)
    (hlegal : Legal cfg s e) {j : Nat} (hpos : 1 ≤ j) (hlt : j < cfg.OPEN_MAX)
    (hfd : 0 ≤ (s.client j).fd) (hquiet : ¬Reported e j) :
    Spared j s (pass cfg e s).server (pass cfg e s).ops := by
  have hle := le_maxi_of_fd (h.table rfl) hlt hfd
  have hpoll : Spared j s (s.poll e) [] := by
    refine ⟨poll_fd s e j, ?_, rfl, by simp⟩
    simp only [Server.poll]
    split <;> rfl
  apply hpoll.trans
  apply handle_spared ((inv_kept cfg).poll e h) hlegal
  · exact slots_eq_some.mpr ⟨hpos, hlt, by rwa [poll_fd], rfl⟩
  · rwa [reported_of_ready hle hfd]

/-- In every iteration of every run, one peer cannot touch the connections of
the others, and ends the process only where it stops with an error by itself. -/
theorem reachable_contained {s t : State} (h : (system cfg).Reachable s)
    (hstep : (system cfg).step s e = some t) : Contained cfg e s t := by
  have hinv := (inv_kept cfg).reachable h
  obtain ⟨hrun, hlegal, rfl⟩ := step_eq_some hstep
  rw [hrun] at hinv
  constructor
  · exact pass_ended hinv hlegal
  · exact pass_connecting (hinv.table rfl)
  · intro i hpos hi hfd hreported hfails
    exact pass_failing hinv hlegal hpos hi hfd hreported hfails
  · refine ⟨_, rfl, ?_⟩
    intro j hpos hlt hfd hquiet
    exact pass_others hinv hlegal hpos hlt hfd hquiet

theorem reachable_contained_eof :
    ∃ s t : State, Contained small (report 1 .eof) s t ∧ t.exited = none ∧
      (s.server.client 2).fd = 5 ∧ (t.server.client 1).fd = -1 ∧
        (t.server.client 2).fd = 5 := by
  have hmap : ((system small).run small.start [arrive 4, arrive 5]).bind
      (fun s => ((system small).step s (report 1 .eof)).map fun t =>
        (t.exited, (s.server.client 2).fd, (t.server.client 1).fd,
          (t.server.client 2).fd)) = some (none, 5, -1, 5) := by decide
  obtain ⟨s, hrun, hmap⟩ := Option.bind_eq_some_iff.mp hmap
  obtain ⟨t, hstep, hfacts⟩ := Option.map_eq_some_iff.mp hmap
  simp only [Prod.mk.injEq] at hfacts
  have hreach : (system small).Reachable s := ⟨_, small.start, ⟨_, rfl⟩, hrun⟩
  exact ⟨s, t, reachable_contained hreach hstep, hfacts⟩

/-- A client whose read fails, say with `ETIMEDOUT`, takes the server down. -/
theorem read_error_ends_server :
    ¬∀ s t e, (system small).Reachable s → (system small).step s e = some t →
      (∀ j, j ≠ 1 → e.revents j = 0) → t.exited = none := by
  intro hall
  have hmap : ((system small).run small.start [arrive 4, arrive 5]).bind
      (fun s => ((system small).step s (report 1 .error)).map State.exited) =
        some (some .readError) := by decide
  obtain ⟨s, hrun, hmap⟩ := Option.bind_eq_some_iff.mp hmap
  obtain ⟨t, hstep, hexited⟩ := Option.map_eq_some_iff.mp hmap
  have hreach : (system small).Reachable s := ⟨_, small.start, ⟨_, rfl⟩, hrun⟩
  have hnone := hall s t (report 1 .error) hreach hstep fun j hj => if_neg hj
  rw [hnone] at hexited
  simp at hexited

end MyUnp.PollServerFaults
