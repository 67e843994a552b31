import Mathlib.Data.List.Nodup
import MyUnp.PollServerRule

namespace MyUnp.PollServerTable

open MyUnp.PollServer
open MyUnp.PollServerRule
open MyUnp.SlotTable
open MyUnp.TransitionSystem
open MyUnp.Unp

variable {cfg : Config} {e : Env} {s : Server}

structure TableOk (cfg : Config) (s : Server) : Prop where
  listen : (s.client 0).fd = cfg.listenfd
  maxi_lt : s.maxi < cfg.OPEN_MAX
  above : ∀ i, s.maxi < i → i < cfg.OPEN_MAX → (s.client i).fd = -1
  events : ∀ i fd, slots cfg s i = some fd → (s.client i).events = POLLRDNORM
  tracks : Tracks (slots cfg s) fun fd => s.kernel.conn fd ≠ none

theorem tableOk_start (cfg : Config) (junk : Nat → PollFd) :
    TableOk cfg (.start cfg junk) := by
  have hfd : ∀ i, 0 < i → ((Server.start cfg junk).client i).fd = -1 := by
    intro i hi
    simp only [Server.start, Nat.ne_of_gt hi, if_false]
  have hnone : slots cfg (.start cfg junk) = fun _ => none := by
    funext i
    rw [Option.eq_none_iff_forall_ne_some]
    intro fd h
    rw [slots_eq_some] at h
    obtain ⟨hpos, -, hfd', heq⟩ := h
    rw [hfd i hpos] at heq
    omega
  constructor
  · rfl
  · exact cfg.room
  · intro i hi _
    exact hfd i hi
  · intro i fd h
    simp [hnone] at h
  · rw [hnone]
    simpa [Server.start, Kernel.start] using Tracks.empty (ι := Nat) (κ := Int)

theorem TableOk.congr {t : Server} (h : TableOk cfg s)
    (hfd : ∀ i, (t.client i).fd = (s.client i).fd)
    (hevents : ∀ i, (t.client i).events = (s.client i).events)
    (hmaxi : t.maxi = s.maxi) (hkernel : t.kernel = s.kernel) :
    TableOk cfg t := by
  have hslots : slots cfg t = slots cfg s := by
    funext i
    simp only [slots, hfd]
  constructor
  · rw [hfd, h.listen]
  · rw [hmaxi]
    exact h.maxi_lt
  · rw [hmaxi]
    intro i hi hlt
    rw [hfd, h.above i hi hlt]
  · intro i fd hi
    rw [hslots] at hi
    rw [hevents, h.events i fd hi]
  · rw [hslots, hkernel]
    exact h.tracks

@[simp] theorem poll_fd (s : Server) (e : Env) (i : Nat) :
    ((s.poll e).client i).fd = (s.client i).fd := by
  simp only [Server.poll]
  split <;> rfl

@[simp] theorem poll_maxi (s : Server) (e : Env) : (s.poll e).maxi = s.maxi := rfl

@[simp] theorem poll_kernel (s : Server) (e : Env) :
    (s.poll e).kernel = s.kernel := rfl

theorem TableOk.poll (h : TableOk cfg s) (e : Env) : TableOk cfg (s.poll e) := by
  refine h.congr (poll_fd s e) (fun i => ?_) rfl rfl
  simp only [Server.poll]
  split <;> rfl

theorem slots_update (cfg : Config) {s t : Server} {i : Nat} {p : PollFd}
    (hclient : t.client = Function.update s.client i p) (hpos : 1 ≤ i)
    (hlt : i < cfg.OPEN_MAX) :
    slots cfg t = Function.update (slots cfg s) i
      (if 0 ≤ p.fd then some p.fd else none) := by
  funext j
  rcases eq_or_ne j i with rfl | hji
  · simp [slots, hclient, hpos, hlt]
  · simp [slots, hclient, Function.update_of_ne hji]

theorem conn_accept_iff (k : Kernel) (connfd fd : Int) :
    (k.accept connfd).conn fd ≠ none ↔ fd = connfd ∨ k.conn fd ≠ none := by
  rw [Kernel.accept]
  rcases eq_or_ne fd connfd with rfl | hne
  · simp
  · simp [hne]

theorem conn_close_iff (k : Kernel) (sockfd fd : Int) :
    (k.close sockfd).conn fd ≠ none ↔ fd ≠ sockfd ∧ k.conn fd ≠ none := by
  rw [Kernel.close]
  rcases eq_or_ne fd sockfd with rfl | hne
  · simp
  · simp [hne]

theorem TableOk.add (h : TableOk cfg s) {i : Nat} {connfd : Int}
    (hpos : 1 ≤ i) (hlt : i < cfg.OPEN_MAX) (hfree : (s.client i).fd < 0)
    (hfd : 0 ≤ connfd) (hconn : s.kernel.conn connfd = none) :
    TableOk cfg (s.add i connfd) := by
  have hslots : slots cfg (s.add i connfd) =
      Function.update (slots cfg s) i (some connfd) := by
    have hupdate := slots_update cfg (s := s) (t := s.add i connfd)
      (p := { s.client i with fd := connfd, events := POLLRDNORM }) rfl hpos hlt
    simpa [hfd] using hupdate
  have hclient : ∀ j, j ≠ i → (s.add i connfd).client j = s.client j := by
    intro j hj
    exact Function.update_of_ne hj ..
  constructor
  · rw [hclient 0 (by omega)]
    exact h.listen
  · have hmaxi := h.maxi_lt
    simp only [Server.add]
    split <;> omega
  · intro j hj hjlt
    have hji : j ≠ i ∧ s.maxi < j := by
      simp only [Server.add] at hj
      split at hj <;> omega
    rw [hclient j hji.1]
    exact h.above j hji.2 hjlt
  · intro j fd hj
    rcases eq_or_ne j i with rfl | hji
    · simp [Server.add]
    · rw [hslots, Function.update_of_ne hji] at hj
      rw [hclient j hji]
      exact h.events j fd hj
  · have hnone : slots cfg s i = none := by
      rw [slots, if_neg (by omega)]
    have hinsert := h.tracks.insert hnone (k := connfd) (by simp [hconn])
    rw [hslots]
    simpa only [Server.add, conn_accept_iff] using hinsert

theorem TableOk.drop (h : TableOk cfg s) {i : Nat} {fd : Int}
    (hi : slots cfg s i = some fd) : TableOk cfg (s.drop i) := by
  have hslots : slots cfg (s.drop i) = Function.update (slots cfg s) i none := by
    obtain ⟨hpos, hlt, -, -⟩ := slots_eq_some.mp hi
    have := slots_update cfg (s := s) (t := s.drop i)
      (p := { s.client i with fd := -1 }) rfl hpos hlt
    simpa using this
  obtain ⟨hpos, hlt, hfd, rfl⟩ := slots_eq_some.mp hi
  have hclient : ∀ j, j ≠ i → (s.drop i).client j = s.client j := by
    intro j hj
    exact Function.update_of_ne hj ..
  constructor
  · rw [hclient 0 (by omega)]
    exact h.listen
  · exact h.maxi_lt
  · intro j hj hjlt
    rcases eq_or_ne j i with rfl | hji
    · simp [Server.drop, Server.setFd]
    · rw [hclient j hji]
      exact h.above j hj hjlt
  · intro j fd hj
    rw [hslots] at hj
    rcases eq_or_ne j i with rfl | hji
    · simp at hj
    · rw [Function.update_of_ne hji] at hj
      rw [hclient j hji]
      exact h.events j fd hj
  · rw [hslots]
    simpa only [Server.drop, conn_close_iff] using h.tracks.erase hi

def accepts (log : List Op) : List Nat :=
  log.filterMap fun
    | .accept _ c => some c
    | _ => none

def closes (log : List Op) : List Nat :=
  log.filterMap fun
    | .close _ _ c => c
    | _ => none

def onConn : Op → Option Nat
  | .accept _ c => some c
  | .read _ _ c _ => c
  | .write _ _ c _ => c
  | .close _ _ c => c

/-- The history behind the kernel's state: what is open was accepted and not
closed, and nothing was closed twice or used after it was closed. -/
structure History (k : Kernel) (log : List Op) : Prop where
  accepted : accepts log = List.range k.accepted
  closed_accepted : ∀ c ∈ closes log, c ∈ accepts log
  closed_once : (closes log).Nodup
  on_open : ∀ op ∈ log, onConn op ≠ none
  tracks : Tracks k.conn fun c => c ∈ accepts log ∧ c ∉ closes log

theorem history_start : History .start [] where
  accepted := rfl
  closed_accepted c hc := nomatch hc
  closed_once := List.nodup_nil
  on_open op hop := nomatch hop
  tracks := Tracks.empty.congr fun c => by simp [accepts]

section History

variable {k : Kernel} {log : List Op}

theorem History.on_open_snoc (h : History k log) {op : Op}
    (hop : onConn op ≠ none) : ∀ op' ∈ log ++ [op], onConn op' ≠ none := by
  intro op' hmem
  rcases List.mem_append.mp hmem with hmem | hmem
  · exact h.on_open op' hmem
  · rwa [List.mem_singleton.mp hmem]

theorem History.accept (h : History k log) {connfd : Int}
    (hconn : k.conn connfd = none) :
    History (k.accept connfd) (log ++ [.accept connfd k.accepted]) := by
  have haccepts : accepts (log ++ [.accept connfd k.accepted]) =
      accepts log ++ [k.accepted] := by
    simp [accepts]
  have hcloses : closes (log ++ [.accept connfd k.accepted]) = closes log := by
    simp [closes]
  have hnew : k.accepted ∉ accepts log := by
    rw [h.accepted]
    simp
  constructor
  · rw [haccepts, h.accepted, Kernel.accept, List.range_succ]
  · rw [haccepts, hcloses]
    intro c hc
    exact List.mem_append_left _ (h.closed_accepted c hc)
  · rw [hcloses]
    exact h.closed_once
  · exact h.on_open_snoc (by simp [onConn])
  · rw [haccepts, hcloses]
    refine (h.tracks.insert hconn (fun hlive => hnew hlive.1)).congr ?_
    intro c
    rw [List.mem_append, List.mem_singleton]
    constructor
    · rintro ⟨hc | hc, hopen⟩
      · exact .inr ⟨hc, hopen⟩
      · exact .inl hc
    · rintro (rfl | ⟨hc, hopen⟩)
      · exact ⟨.inr rfl, fun hclosed => hnew (h.closed_accepted _ hclosed)⟩
      · exact ⟨.inl hc, hopen⟩

theorem History.use (h : History k log) {op : Op}
    (haccept : accepts [op] = []) (hclose : closes [op] = [])
    (hopen : onConn op ≠ none) : History k (log ++ [op]) := by
  have haccepts : accepts (log ++ [op]) = accepts log := by
    rw [accepts, List.filterMap_append, ← accepts, ← accepts, haccept,
      List.append_nil]
  have hcloses : closes (log ++ [op]) = closes log := by
    rw [closes, List.filterMap_append, ← closes, ← closes, hclose,
      List.append_nil]
  constructor
  · rw [haccepts, h.accepted]
  · rw [haccepts, hcloses]
    exact h.closed_accepted
  · rw [hcloses]
    exact h.closed_once
  · exact h.on_open_snoc hopen
  · rw [haccepts, hcloses]
    exact h.tracks

theorem History.close (h : History k log) {sockfd : Int} {c : Nat}
    (hconn : k.conn sockfd = some c) (i : Nat) :
    History (k.close sockfd) (log ++ [.close i sockfd (some c)]) := by
  have haccepts : accepts (log ++ [.close i sockfd (some c)]) =
      accepts log := by
    simp [accepts]
  have hcloses : closes (log ++ [.close i sockfd (some c)]) =
      closes log ++ [c] := by
    simp [closes]
  obtain ⟨hacc, hopen⟩ := (h.tracks.live_iff c).mpr ⟨sockfd, hconn⟩
  constructor
  · rw [haccepts, h.accepted, Kernel.close]
  · rw [haccepts, hcloses]
    intro c' hc'
    rcases List.mem_append.mp hc' with hc' | hc'
    · exact h.closed_accepted c' hc'
    · rwa [List.mem_singleton.mp hc']
  · rw [hcloses, ← List.concat_eq_append]
    exact List.Nodup.concat hopen h.closed_once
  · exact h.on_open_snoc (by simp [onConn])
  · rw [haccepts, hcloses]
    refine (h.tracks.erase hconn).congr ?_
    intro c'
    rw [List.mem_append, List.mem_singleton]
    constructor
    · rintro ⟨hc', hnot⟩
      exact ⟨fun heq => hnot (.inr heq), hc', fun hcl => hnot (.inl hcl)⟩
    · rintro ⟨hne, hc', hnot⟩
      refine ⟨hc', ?_⟩
      rintro (hcl | rfl)
      · exact hnot hcl
      · exact hne rfl

end History

theorem inTable_scanned (h : TableOk cfg s) : InTable cfg s.scanned := by
  intro i hi
  have hmaxi := h.maxi_lt
  rw [Server.scanned, List.mem_range'_1] at hi
  omega

/-- The invariant of the whole run: the history always, the table as long as
the process runs. -/
structure Inv (cfg : Config) (x : Option Exit) (s : Server) (log : List Op) :
    Prop where
  table : x = none → TableOk cfg s
  history : History s.kernel log

theorem History.inv_exited {log : List Op} (h : History s.kernel log)
    (cfg : Config) (x : Exit) : Inv cfg (some x) s log :=
  ⟨fun hx => absurd hx (Option.some_ne_none x), h⟩

theorem inv_acceptClient {log : List Op} (h : Inv cfg none s log)
    (hlegal : Legal cfg s e) :
    After (Inv cfg) log (acceptClient cfg e s) := by
  have htable := h.table rfl
  rcases acceptClient_cases cfg e s with
    ⟨-, heq⟩ | ⟨connfd, haccept, heq | ⟨hlt, heq⟩⟩
  · rw [heq, After, List.append_nil]
    exact h.history.inv_exited ..
  all_goals
    rw [Legal, haccept] at hlegal
    obtain ⟨hfd, -, hconn⟩ := hlegal
    rw [heq]
  · exact (h.history.accept hconn).inv_exited ..
  · refine ⟨fun _ => ?_, h.history.accept hconn⟩
    exact htable.add (freeSlot_pos cfg s) hlt (freeSlot_free hlt) hfd hconn

theorem inv_serve {log : List Op} (h : Inv cfg none s log) {i : Nat} {fd : Int}
    (hi : slots cfg s i = some fd) : After (Inv cfg) log (serve e s i) := by
  have htable := h.table rfl
  obtain ⟨-, -, -, rfl⟩ := slots_eq_some.mp hi
  obtain ⟨c, hc⟩ := Option.ne_none_iff_exists'.mp
    ((htable.tracks.live_iff _).mpr ⟨i, hi⟩)
  have hread : History s.kernel
      (log ++ [.read i (s.client i).fd (some c) (e.read i)]) :=
    h.history.use rfl rfl (by simp [onConn])
  rcases serve_cases e s i with ⟨-, heq⟩ | ⟨-, heq⟩ | ⟨g, -, heq | ⟨k, heq⟩⟩
  · rw [heq, hc]
    exact hread.inv_exited ..
  · rw [heq, hc, After, List.append_cons]
    exact ⟨fun _ => htable.drop hi, hread.close hc i⟩
  · rw [heq, hc, After, List.append_cons]
    exact ⟨fun _ => htable, hread.use rfl rfl (by simp [onConn])⟩
  · rw [heq, hc, After, List.append_cons]
    exact (hread.use rfl rfl (by simp [onConn])).inv_exited ..

theorem inv_kept (cfg : Config) : Kept cfg (Inv cfg) where
  start junk := ⟨fun _ => tableOk_start cfg junk, history_start⟩
  poll e h := ⟨fun _ => (h.table rfl).poll e, h.history⟩
  inTable h := inTable_scanned (h.table rfl)
  accept h hlegal := inv_acceptClient h hlegal
  serve _ h hi := inv_serve h hi

/-- The descriptor table at a loop head, against everything the server has
accepted and closed. -/
structure DescriptorTable (cfg : Config) (s : State) : Prop where
  listen : (s.server.client 0).fd = cfg.listenfd
  distinct : ∀ i j, 1 ≤ i → i < cfg.OPEN_MAX → 1 ≤ j → j < cfg.OPEN_MAX →
    0 ≤ (s.server.client i).fd →
    (s.server.client i).fd = (s.server.client j).fd → i = j
  connected : ∀ i, 1 ≤ i → i < cfg.OPEN_MAX → 0 ≤ (s.server.client i).fd →
    ∃ c, s.server.kernel.conn (s.server.client i).fd = some c ∧
      c ∈ accepts s.log ∧ c ∉ closes s.log
  stored : ∀ c, c ∈ accepts s.log → c ∉ closes s.log →
    ∃ i, 1 ≤ i ∧ i < cfg.OPEN_MAX ∧ 0 ≤ (s.server.client i).fd ∧
      s.server.kernel.conn (s.server.client i).fd = some c
  client : ∀ i, 1 ≤ i → i < cfg.OPEN_MAX → 0 ≤ (s.server.client i).fd →
    (s.server.client i).events = POLLRDNORM ∧ i ≤ s.server.maxi
  above : ∀ i, s.server.maxi < i → i < cfg.OPEN_MAX →
    (s.server.client i).fd = -1
  closed_once : (closes s.log).Nodup
  on_open : ∀ op ∈ s.log, onConn op ≠ none

/-- At every loop head of every run the table holds exactly the connections
that were accepted and not closed, each in one entry up to `maxi`, and no
descriptor has been closed twice or dropped. -/
theorem loopHead_descriptorTable {s : State} (h : (system cfg).Reachable s)
    (hrun : s.exited = none) : DescriptorTable cfg s := by
  obtain ⟨htable, hhistory⟩ := (inv_kept cfg).reachable h
  have ht := htable hrun
  constructor
  · exact ht.listen
  · intro i j hi hilt hj hjlt hfd heq
    have hsi := slots_eq_some.mpr ⟨hi, hilt, hfd, rfl⟩
    have hsj := slots_eq_some.mpr ⟨hj, hjlt, hfd, heq.symm⟩
    exact ht.tracks.once hsi hsj
  · intro i hi hilt hfd
    have hsi := slots_eq_some.mpr ⟨hi, hilt, hfd, rfl⟩
    obtain ⟨c, hc⟩ := Option.ne_none_iff_exists'.mp
      ((ht.tracks.live_iff _).mpr ⟨i, hsi⟩)
    exact ⟨c, hc, (hhistory.tracks.live_iff c).mpr ⟨_, hc⟩⟩
  · intro c hacc hopen
    obtain ⟨fd, hfd⟩ := (hhistory.tracks.live_iff c).mp ⟨hacc, hopen⟩
    obtain ⟨i, hi⟩ := (ht.tracks.live_iff fd).mp (by simp [hfd])
    obtain ⟨hpos, hlt, hnonneg, rfl⟩ := slots_eq_some.mp hi
    exact ⟨i, hpos, hlt, hnonneg, hfd⟩
  · intro i hi hilt hfd
    refine ⟨ht.events i _ (slots_eq_some.mpr ⟨hi, hilt, hfd, rfl⟩), ?_⟩
    by_contra hgt
    have habove := ht.above i (by omega) hilt
    omega
  · exact ht.above
  · exact hhistory.closed_once
  · exact hhistory.on_open

def arrive (connfd : Int) : Env where
  revents i := if i = 0 then POLLRDNORM else 0
  accept := some connfd
  read _ := .eof
  writen _ := none

def report (i : Nat) (r : ReadResult) : Env where
  revents j := if j = i then POLLRDNORM else 0
  accept := none
  read _ := r
  writen _ := none

def small : Config := ⟨3, 3, by decide, by decide⟩

def small.start : State := ⟨.start small fun _ => ⟨0, 0, 0⟩, [], none⟩

theorem loopHead_descriptorTable_reuse :
    ∃ s, DescriptorTable small s ∧ s.log.length = 5 ∧ s.server.maxi = 2 ∧
      (s.server.client 1).fd = 4 ∧ s.server.kernel.conn 4 = some 2 := by
  have hmap : ((system small).run small.start
      [arrive 4, arrive 5, report 1 .eof, arrive 4]).map
        (fun s => (s.exited, s.log.length, s.server.maxi,
          (s.server.client 1).fd, s.server.kernel.conn 4)) =
      some (none, 5, 2, 4, some 2) := by decide
  obtain ⟨s, hrun, hfacts⟩ := Option.map_eq_some_iff.mp hmap
  simp only [Prod.mk.injEq] at hfacts
  have hreach : (system small).Reachable s := ⟨_, small.start, ⟨_, rfl⟩, hrun⟩
  exact ⟨s, loopHead_descriptorTable hreach hfacts.1, hfacts.2⟩

end MyUnp.PollServerTable
