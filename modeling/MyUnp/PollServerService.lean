import Mathlib.Data.List.Infix
import MyUnp.PollServerEcho
import MyUnp.PollServerFaults

namespace MyUnp.PollServerService

open MyUnp.PollServer
open MyUnp.PollServerEcho (received echoed readBytes EchoOk echoOk_kept)
open MyUnp.PollServerFaults (Fails Spared accept_spared conn_ne reported_of_ready
  serve_exited_iff serve_spared slots_congr)
open MyUnp.PollServerRule
open MyUnp.PollServerScan
open MyUnp.PollServerTable (TableOk accepts closes inTable_scanned inv_acceptClient
  inv_kept inv_serve onConn poll_fd poll_kernel poll_maxi small)
open MyUnp.SlotTable
open MyUnp.TransitionSystem
open MyUnp.Unp

variable {cfg : Config} {e : Env} {s t : Server} {log : List Op}

def Holds (cfg : Config) (s : Server) (i c : Nat) : Prop :=
  ∃ fd, slots cfg s i = some fd ∧ s.kernel.conn fd = some c

def bytesRead : ReadResult → List Byte
  | .data g => g.bytes
  | .eof => []
  | .reset => []
  | .error => []

theorem serve_keeps (e : Env) (s : Server) (i : Nat) :
    (serve e s i).server.maxi = s.maxi ∧
      (serve e s i).server.kernel.accepted = s.kernel.accepted := by
  rcases serve_cases e s i with ⟨-, heq⟩ | ⟨-, heq⟩ | ⟨g, -, heq | ⟨k, heq⟩⟩
  all_goals
    rw [heq]
    exact ⟨rfl, rfl⟩

theorem scan_keeps (e : Env) (is : List Nat) (s : Server) (nready : Int) :
    (scan e is s nready).server.maxi = s.maxi ∧
      (scan e is s nready).server.kernel.accepted = s.kernel.accepted := by
  induction is generalizing s nready with
  | nil => exact ⟨rfl, rfl⟩
  | cons i is ih =>
      obtain ⟨hmaxi, haccepted⟩ := serve_keeps e s i
      rw [scan]
      split
      · exact ih s nready
      · split
        · cases hexit : (serve e s i).exited with
          | some x =>
              rw [andThen_of_exited hexit]
              exact ⟨hmaxi, haccepted⟩
          | none =>
              rw [andThen_of_none hexit]
              split
              · exact ⟨hmaxi, haccepted⟩
              · obtain ⟨hmaxi', haccepted'⟩ := ih (serve e s i).server (nready - 1)
                exact ⟨hmaxi'.trans hmaxi, haccepted'.trans haccepted⟩
        · exact ih s nready

theorem pass_keeps (hgo : (pass cfg e s).exited = none) :
    (pass cfg e s).server.maxi = scanEnd cfg (s.poll e) ∧
      (pass cfg e s).server.kernel.accepted =
        s.kernel.accepted + if Arrival (s.poll e) then 1 else 0 := by
  have hcond : (((s.poll e).client 0).revents &&& POLLRDNORM != 0) = true ↔
      Arrival (s.poll e) := bne_iff_ne
  rw [PollServer.pass, handle] at hgo ⊢
  split at hgo
  · rename_i harrival
    rw [if_pos harrival]
    rw [hcond] at harrival
    rcases acceptClient_cases cfg e (s.poll e) with
      ⟨-, heq⟩ | ⟨connfd, -, heq | ⟨-, heq⟩⟩
    · rw [heq] at hgo
      exact absurd hgo (Option.some_ne_none _)
    · rw [heq] at hgo
      exact absurd hgo (Option.some_ne_none _)
    · have hadd : ((s.poll e).add ((s.poll e).freeSlot cfg) connfd).maxi =
          scanEnd cfg (s.poll e) := by
        simp only [Server.add, scanEnd, harrival, true_and]
      rw [heq, andThen_of_none rfl, if_pos harrival]
      split
      · exact ⟨hadd, rfl⟩
      · obtain ⟨hmaxi, haccepted⟩ := scan_keeps e _ _ ((s.poll e).nready - 1)
        exact ⟨hmaxi.trans hadd, haccepted⟩
  · rename_i hquiet
    rw [if_neg hquiet]
    rw [hcond] at hquiet
    obtain ⟨hmaxi, haccepted⟩ := scan_keeps e (s.poll e).scanned (s.poll e) (s.poll e).nready
    rw [scanEnd, if_neg fun h => hquiet h.1, if_neg hquiet]
    exact ⟨hmaxi, haccepted⟩

theorem accepted_pass_le (cfg : Config) (e : Env) (s : Server) :
    (pass cfg e s).server.kernel.accepted ≤
      s.kernel.accepted + if Arrival (s.poll e) then 1 else 0 := by
  have hcond : (((s.poll e).client 0).revents &&& POLLRDNORM != 0) = true ↔
      Arrival (s.poll e) := bne_iff_ne
  rw [PollServer.pass, handle]
  split
  · rename_i harrival
    rw [if_pos (hcond.mp harrival)]
    rcases acceptClient_cases cfg e (s.poll e) with
      ⟨-, heq⟩ | ⟨connfd, -, heq | ⟨-, heq⟩⟩
    · rw [heq, andThen_of_exited rfl]
      exact Nat.le_succ _
    · rw [heq, andThen_of_exited rfl]
      exact Nat.le_refl _
    · rw [heq, andThen_of_none rfl]
      split
      · exact Nat.le_refl _
      · exact Nat.le_of_eq (scan_keeps e _ _ ((s.poll e).nready - 1)).2
  · exact Nat.le_trans (Nat.le_of_eq (scan_keeps e (s.poll e).scanned (s.poll e) _).2)
      (Nat.le_add_right ..)

theorem maxi_le_pass (hgo : (pass cfg e s).exited = none) :
    s.maxi ≤ (pass cfg e s).server.maxi := by
  rw [(pass_keeps hgo).1, scanEnd, poll_maxi]
  split <;> omega

def Stays (j : Nat) (s t : Server) (ops : List Op) : Prop :=
  .close j (s.client j).fd (s.kernel.conn (s.client j).fd) ∈ ops ∨
    (t.client j).fd = (s.client j).fd ∧
      t.kernel.conn (s.client j).fd = s.kernel.conn (s.client j).fd

theorem Stays.refl (j : Nat) (s : Server) (ops : List Op) : Stays j s s ops :=
  .inr ⟨rfl, rfl⟩

theorem Stays.trans {j : Nat} {u : Server} {ops ops' : List Op} (h : Stays j s t ops)
    (h' : Stays j t u ops') : Stays j s u (ops ++ ops') := by
  rcases h with h | ⟨hfd, hconn⟩
  · exact .inl (List.mem_append_left _ h)
  · rw [Stays, hfd, hconn] at h'
    rcases h' with h' | h'
    · exact .inl (List.mem_append_right _ h')
    · exact .inr h'

theorem stays_of_spared {j : Nat} {ops : List Op} (h : Spared j s t ops) : Stays j s t ops :=
  .inr ⟨h.fd, h.conn⟩

theorem serve_stays (h : PollServerTable.Inv cfg none s log) {i j : Nat} {fd : Int}
    (hi : slots cfg s i = some (s.client i).fd) (hj : slots cfg s j = some fd) :
    Stays j s (serve e s i).server (serve e s i).ops := by
  rcases eq_or_ne i j with rfl | hij
  · rcases serve_cases e s i with ⟨-, heq⟩ | ⟨-, heq⟩ | ⟨g, -, heq | ⟨k, heq⟩⟩
    · rw [heq]
      exact Stays.refl ..
    · rw [heq]
      exact .inl (by simp)
    · rw [heq]
      exact Stays.refl ..
    · rw [heq]
      exact Stays.refl ..
  · exact stays_of_spared (serve_spared h hi hj hij)

theorem Stays.slot {j : Nat} {ops : List Op} (h : Stays j s t ops) :
    .close j (s.client j).fd (s.kernel.conn (s.client j).fd) ∈ ops ∨
      slots cfg t j = slots cfg s j := by
  rcases h with h | ⟨hfd, -⟩
  · exact .inl h
  · exact .inr (by simp only [slots, hfd])

theorem scan_stays {is : List Nat} (his : InTable cfg is) (h : PollServerTable.Inv cfg none s log)
    {j : Nat} {fd : Int} (hj : slots cfg s j = some fd) (nready : Int) :
    Stays j s (scan e is s nready).server (scan e is s nready).ops := by
  induction is generalizing s log nready with
  | nil => exact Stays.refl j s _
  | cons i is ih =>
      rw [scan]
      split
      · exact ih his.tail h hj nready
      · rename_i hfd
        split
        · have hi := his.slots_eq (List.mem_cons_self ..) hfd
          have hstays := serve_stays (e := e) h hi hj
          have hserve := inv_serve (e := e) h hi
          cases hexit : (serve e s i).exited with
          | some x =>
              rw [andThen_of_exited hexit]
              exact hstays
          | none =>
              rw [andThen_of_none hexit]
              rw [After, hexit] at hserve
              rcases hstays.slot with hclose | hslot
              · exact .inl (List.mem_append_left _ hclose)
              · apply hstays.trans
                split
                · exact Stays.refl ..
                · exact ih his.tail hserve (hslot.trans hj) _
        · exact ih his.tail h hj nready

theorem pass_stays (h : PollServerTable.Inv cfg none s log) (hlegal : Legal cfg s e) {j : Nat}
    {fd : Int} (hj : slots cfg s j = some fd) :
    Stays j s (pass cfg e s).server (pass cfg e s).ops := by
  have hpoll := (inv_kept cfg).poll e h
  have hstart : Stays j s (s.poll e) [] := .inr ⟨poll_fd s e j, rfl⟩
  have hj' : slots cfg (s.poll e) j = some fd := by
    simpa only [slots, poll_fd] using hj
  apply hstart.trans
  rw [PollServer.pass, handle]
  split
  · obtain ⟨hspared, hsame⟩ := accept_spared hpoll hlegal hj'
    have haccept := inv_acceptClient hpoll hlegal
    cases hexit : (acceptClient cfg e (s.poll e)).exited with
    | some x =>
        rw [andThen_of_exited hexit]
        exact stays_of_spared hspared
    | none =>
        rw [andThen_of_none hexit]
        rw [After, hexit] at haccept
        apply (stays_of_spared hspared).trans
        split
        · exact Stays.refl ..
        · exact scan_stays (inTable_scanned (haccept.table rfl)) haccept
            ((slots_congr (hsame hexit)).trans hj') _
  · exact scan_stays (inTable_scanned (hpoll.table rfl)) hpoll hj' _

theorem mem_closes {c : Nat} {ops : List Op} :
    c ∈ closes ops ↔ ∃ i fd, .close i fd (some c) ∈ ops := by
  rw [closes, List.mem_filterMap]
  constructor
  · rintro ⟨op, hop, hc⟩
    cases op with
    | close i fd conn =>
        obtain rfl : conn = some c := hc
        exact ⟨i, fd, hop⟩
    | accept fd conn => cases hc
    | read i fd conn r => cases hc
    | write i fd conn bytes => cases hc
  · rintro ⟨i, fd, hop⟩
    exact ⟨_, hop, rfl⟩

theorem Holds.pass (h : PollServerTable.Inv cfg none s log) (hlegal : Legal cfg s e) {i c : Nat}
    (hold : Holds cfg s i c) (hopen : c ∉ closes (pass cfg e s).ops) :
    Holds cfg (pass cfg e s).server i c := by
  obtain ⟨fd, hi, hc⟩ := hold
  have hstays := pass_stays h hlegal hi
  obtain ⟨-, -, -, rfl⟩ := slots_eq_some.mp hi
  rcases hstays with hclose | ⟨hfd, hconn⟩
  · rw [hc] at hclose
    exact absurd (mem_closes.mpr ⟨_, _, hclose⟩) hopen
  · refine ⟨(s.client i).fd, ?_, hconn.trans hc⟩
    rw [← hi]
    simp only [slots, hfd]

theorem holds_of_open (h : PollServerTable.Inv cfg none s log) {c : Nat}
    (hc : c < s.kernel.accepted) (hopen : c ∉ closes log) : ∃ i, Holds cfg s i c := by
  have haccepts : c ∈ accepts log := by
    rw [h.history.accepted]
    exact List.mem_range.mpr hc
  obtain ⟨fd, hfd⟩ := (h.history.tracks.live_iff c).mp ⟨haccepts, hopen⟩
  obtain ⟨i, hi⟩ := ((h.table rfl).tracks.live_iff fd).mp (by simp [hfd])
  exact ⟨i, fd, hi, hfd⟩

theorem Holds.not_closed (h : PollServerTable.Inv cfg none s log) {i c : Nat}
    (hold : Holds cfg s i c) : c ∉ closes log := by
  obtain ⟨fd, -, hfd⟩ := hold
  exact ((h.history.tracks.live_iff c).mpr ⟨fd, hfd⟩).2

theorem Holds.unique (h : PollServerTable.Inv cfg none s log) {i j c : Nat}
    (hi : Holds cfg s i c) (hj : Holds cfg s j c) : i = j := by
  obtain ⟨fd, hfd, hc⟩ := hi
  obtain ⟨fd', hfd', hc'⟩ := hj
  by_contra hij
  exact (conn_ne h hfd hfd' hij).2 (hc.trans hc'.symm)

theorem slot_of_mem_pass (h : PollServerTable.Inv cfg none s log) (hlegal : Legal cfg s e)
    {op : Op} (hop : op ∈ (pass cfg e s).ops) :
    (∃ fd c, op = .accept fd c) ∨
      ∃ i c, Holds cfg s i c ∧ onSlot i op = true ∧ onConn op = some c := by
  obtain ⟨acc, l, hops, hacc, hdue, -⟩ := handled_pass h hlegal
  rw [hops, List.mem_append] at hop
  rcases hop with hop | hop
  · exact .inl (hacc op hop)
  · obtain ⟨i, hi, hserved⟩ := List.mem_flatMap.mp (hdue.subset hop)
    obtain ⟨hmem, hfd, -⟩ := mem_hits.mp hi
    obtain ⟨hslot, hconn⟩ := mem_served hserved
    have hlt : i < cfg.OPEN_MAX := by
      have hfree := freeSlot_le cfg (s.poll e)
      have hmaxi := (h.table rfl).maxi_lt
      rw [List.mem_range'_1, scanEnd, poll_maxi] at hmem
      split at hmem <;> omega
    rw [poll_fd] at hfd hconn
    have hi' : slots cfg s i = some (s.client i).fd :=
      slots_eq_some.mpr ⟨(List.mem_range'_1.mp hmem).1, hlt, hfd, rfl⟩
    obtain ⟨c, hc⟩ := Option.ne_none_iff_exists'.mp
      (((h.table rfl).tracks.live_iff _).mpr ⟨i, hi'⟩)
    exact .inr ⟨i, c, ⟨_, hi', hc⟩, by rw [hslot i, decide_eq_true rfl], hconn.trans hc⟩

theorem readBytes_of_conn {c : Nat} {op : Op} (h : onConn op ≠ some c) :
    readBytes c op = [] := by
  cases op with
  | read i fd conn r =>
      cases r with
      | data g => exact if_neg h
      | eof => rfl
      | reset => rfl
      | error => rfl
  | accept fd conn => rfl
  | write i fd conn bytes => rfl
  | close i fd conn => rfl

theorem received_filter {c : Nat} {p : Op → Bool} {ops : List Op}
    (h : ∀ op ∈ ops, p op = false → readBytes c op = []) :
    received c (ops.filter p) = received c ops := by
  induction ops with
  | nil => rfl
  | cons op ops ih =>
      obtain ⟨hop, hops⟩ := List.forall_mem_cons.mp h
      change received c (List.filter p (op :: ops)) = readBytes c op ++ received c ops
      cases hp : p op with
      | true =>
          rw [List.filter_cons_of_pos hp, ← ih hops]
          rfl
      | false =>
          rw [List.filter_cons_of_neg (by simp [hp]), hop hp, List.nil_append, ih hops]

theorem received_served (e : Env) (s : Server) (i c : Nat) :
    received c (served e s i) =
      if s.kernel.conn (s.client i).fd = some c then bytesRead (e.read i) else [] := by
  rw [served]
  rcases serve_cases e s i with ⟨hread, heq⟩ | ⟨hread, heq⟩ | ⟨g, hread, heq | ⟨k, heq⟩⟩
  · rw [heq, hread]
    simp [received, readBytes, bytesRead]
  · rw [heq]
    rcases hread with hread | hread <;> rw [hread] <;> simp [received, readBytes, bytesRead]
  · rw [heq, hread]
    simp [received, readBytes, bytesRead]
  · rw [heq, hread]
    simp [received, readBytes, bytesRead]

theorem Holds.conn_poll {i c : Nat} (hold : Holds cfg s i c) :
    (s.poll e).kernel.conn ((s.poll e).client i).fd = some c := by
  obtain ⟨fd, hi, hc⟩ := hold
  obtain ⟨-, -, -, rfl⟩ := slots_eq_some.mp hi
  rw [poll_fd]
  exact hc

theorem reported_of_hit (h : TableOk cfg s) {i c : Nat} (hold : Holds cfg s i c)
    {is : List Nat} (hhit : i ∈ hits (s.poll e) is) : PollServerFaults.Reported e i := by
  obtain ⟨fd, hi, -⟩ := hold
  obtain ⟨-, hlt, hfd, rfl⟩ := slots_eq_some.mp hi
  exact (reported_of_ready (le_maxi_of_fd h hlt hfd) hfd).mp (mem_hits.mp hhit).2.2

theorem mem_hits_poll (h : TableOk cfg s) {i c : Nat} (hold : Holds cfg s i c)
    (hgo : (pass cfg e s).exited = none) :
    i ∈ hits (s.poll e) (List.range' 1 (scanEnd cfg (s.poll e) - 1)) ↔
      i < (pass cfg e s).server.maxi ∧ PollServerFaults.Reported e i := by
  rw [(pass_keeps hgo).1]
  constructor
  · intro hhit
    have hmem := List.mem_range'_1.mp (mem_hits.mp hhit).1
    exact ⟨by omega, reported_of_hit h hold hhit⟩
  · rintro ⟨hend, hready⟩
    obtain ⟨fd, hi, -⟩ := hold
    obtain ⟨hpos, hlt, hfd, rfl⟩ := slots_eq_some.mp hi
    rw [mem_hits, poll_fd, reported_of_ready (le_maxi_of_fd h hlt hfd) hfd, List.mem_range'_1]
    exact ⟨⟨hpos, by omega⟩, hfd, hready⟩

instance (e : Env) (i : Nat) : Decidable (PollServerFaults.Reported e i) :=
  inferInstanceAs (Decidable (_ ≠ _))

theorem received_onSlot (h : PollServerTable.Inv cfg none s log) (hlegal : Legal cfg s e)
    {i c : Nat} (hold : Holds cfg s i c) :
    received c ((pass cfg e s).ops.filter (onSlot i)) = received c (pass cfg e s).ops := by
  apply received_filter
  intro op hop hslot
  rcases slot_of_mem_pass h hlegal hop with ⟨fd, c', rfl⟩ | ⟨j, c', hj, hon, hconn⟩
  · rfl
  · apply readBytes_of_conn
    rw [hconn]
    intro hc
    obtain rfl := Option.some.inj hc
    rw [hold.unique h hj, hon] at hslot
    cases hslot

theorem mem_closes_onSlot (h : PollServerTable.Inv cfg none s log) (hlegal : Legal cfg s e)
    {i c : Nat} (hold : Holds cfg s i c) :
    c ∈ closes (pass cfg e s).ops ↔
      ∃ fd, .close i fd (some c) ∈ (pass cfg e s).ops.filter (onSlot i) := by
  rw [mem_closes]
  constructor
  · rintro ⟨j, fd, hop⟩
    rcases slot_of_mem_pass h hlegal hop with ⟨fd', c', heq⟩ | ⟨k, c', hk, hon, hconn⟩
    · cases heq
    · obtain rfl := Option.some.inj hconn
      obtain rfl : j = k := of_decide_eq_true hon
      obtain rfl := hk.unique h hold
      exact ⟨fd, List.mem_filter.mpr ⟨hop, hon⟩⟩
  · rintro ⟨fd, hop⟩
    exact ⟨i, fd, (List.mem_filter.mp hop).1⟩

theorem close_mem_served (e : Env) (s : Server) (i c : Nat) :
    (∃ fd, .close i fd (some c) ∈ served e s i) ↔
      s.kernel.conn (s.client i).fd = some c ∧ (e.read i = .reset ∨ e.read i = .eof) := by
  rw [served]
  rcases serve_cases e s i with
    ⟨hread, heq⟩ | ⟨hread, heq⟩ | ⟨g, hread, heq | ⟨k, heq⟩⟩
  · rw [heq, hread]
    simp
  · rw [heq]
    simpa [eq_comm] using fun _ => hread
  · rw [heq, hread]
    simp
  · rw [heq, hread]
    simp

theorem received_pass (h : PollServerTable.Inv cfg none s log) (hlegal : Legal cfg s e)
    (hgo : (pass cfg e s).exited = none) {i c : Nat} (hold : Holds cfg s i c) :
    received c (pass cfg e s).ops =
      if i < (pass cfg e s).server.maxi ∧ PollServerFaults.Reported e i then
        bytesRead (e.read i)
      else [] := by
  rw [← received_onSlot h hlegal hold, (filter_pass h hlegal hgo i).1]
  by_cases hhit : i ∈ hits (s.poll e) (List.range' 1 (scanEnd cfg (s.poll e) - 1))
  · rw [if_pos hhit, if_pos ((mem_hits_poll (h.table rfl) hold hgo).mp hhit), received_served,
      if_pos hold.conn_poll]
  · rw [if_neg hhit, if_neg fun hreach => hhit ((mem_hits_poll (h.table rfl) hold hgo).mpr hreach)]
    rfl

theorem mem_closes_pass (h : PollServerTable.Inv cfg none s log) (hlegal : Legal cfg s e)
    (hgo : (pass cfg e s).exited = none) {i c : Nat} (hold : Holds cfg s i c) :
    c ∈ closes (pass cfg e s).ops ↔
      (i < (pass cfg e s).server.maxi ∧ PollServerFaults.Reported e i) ∧
        (e.read i = .reset ∨ e.read i = .eof) := by
  rw [mem_closes_onSlot h hlegal hold, (filter_pass h hlegal hgo i).1,
    ← mem_hits_poll (h.table rfl) hold hgo]
  split
  · rename_i hhit
    rw [close_mem_served, and_iff_right hold.conn_poll, and_iff_right hhit]
  · rename_i hmissed
    simp [hmissed]

theorem not_fails_of_go (h : PollServerTable.Inv cfg none s log) (hlegal : Legal cfg s e)
    (hgo : (pass cfg e s).exited = none) {i c : Nat} (hold : Holds cfg s i c)
    (hi : i < (pass cfg e s).server.maxi) (hreported : PollServerFaults.Reported e i) :
    ¬Fails e i := by
  intro hfails
  have hhit := (mem_hits_poll (h.table rfl) hold hgo).mpr ⟨hi, hreported⟩
  exact (serve_exited_iff e _ i).mpr hfails ((filter_pass h hlegal hgo i).2 i hhit)

theorem filter_pass_prefix (h : PollServerTable.Inv cfg none s log) (hlegal : Legal cfg s e)
    (i : Nat) : (pass cfg e s).ops.filter (onSlot i) <+:
      if i ∈ hits (s.poll e) (List.range' 1 (scanEnd cfg (s.poll e) - 1)) then
        served e (s.poll e) i
      else [] := by
  obtain ⟨acc, l, hops, hacc, hdue, -⟩ := handled_pass h hlegal
  have hserved : (due cfg e (s.poll e)).filter (onSlot i) = _ :=
    filter_served (List.Nodup.filter _ List.nodup_range') i
  rw [hops, List.filter_append, filter_accepts hacc, List.nil_append]
  exact hserved ▸ hdue.filter (onSlot i)

/-- What any iteration does to the connection in entry `i`, also the one in which the
process ends: it reads from it once, if `Poll` has reported it, and closes it where
that says so. -/
theorem pass_connection (h : PollServerTable.Inv cfg none s log) (hlegal : Legal cfg s e)
    {i c : Nat} (hold : Holds cfg s i c) :
    received c (pass cfg e s).ops <+: bytesRead (e.read i) ∧
      (c ∈ closes (pass cfg e s).ops →
        PollServerFaults.Reported e i ∧ (e.read i = .reset ∨ e.read i = .eof)) := by
  have hprefix := filter_pass_prefix h hlegal i
  rw [← received_onSlot h hlegal hold, mem_closes_onSlot h hlegal hold]
  split at hprefix
  · rename_i hhit
    refine ⟨?_, ?_⟩
    · have hreceived := hprefix.flatMap (readBytes c)
      change received c _ <+: received c _ at hreceived
      rwa [received_served, if_pos hold.conn_poll] at hreceived
    · rintro ⟨fd, hop⟩
      have hserved : ∃ fd, .close i fd (some c) ∈ served e (s.poll e) i :=
        ⟨fd, hprefix.subset hop⟩
      exact ⟨reported_of_hit (h.table rfl) hold hhit, ((close_mem_served ..).mp hserved).2⟩
  · rw [List.prefix_nil.mp hprefix]
    refine ⟨List.nil_prefix, ?_⟩
    rintro ⟨fd, hop⟩
    cases hop

theorem received_pass_of_not_holds (h : PollServerTable.Inv cfg none s log)
    (hlegal : Legal cfg s e) {c : Nat} (hnot : ∀ i, ¬Holds cfg s i c) :
    received c (pass cfg e s).ops = [] ∧ c ∉ closes (pass cfg e s).ops := by
  have hconn : ∀ op ∈ (pass cfg e s).ops, (∃ fd c', op = .accept fd c') ∨ onConn op ≠ some c := by
    intro op hop
    rcases slot_of_mem_pass h hlegal hop with haccept | ⟨i, c', hi, -, hconn⟩
    · exact .inl haccept
    · refine .inr fun hc => hnot i ?_
      rw [hconn] at hc
      rwa [← Option.some.inj hc]
  constructor
  · rw [received, List.flatMap_eq_nil_iff]
    intro op hop
    rcases hconn op hop with ⟨fd, c', rfl⟩ | hne
    · rfl
    · exact readBytes_of_conn hne
  · intro hclose
    obtain ⟨i, fd, hop⟩ := mem_closes.mp hclose
    rcases hconn _ hop with ⟨fd, c', heq⟩ | hne
    · cases heq
    · exact hne rfl

end MyUnp.PollServerService
