import Mathlib.Data.List.Perm.Subperm
import Mathlib.Data.List.Range
import MyUnp.PollServerTable

namespace MyUnp.PollServerScan

open MyUnp.PollServer
open MyUnp.PollServerRule
open MyUnp.PollServerTable
open MyUnp.SlotTable
open MyUnp.TransitionSystem

variable {cfg : Config} {e : Env} {s t : Server}

def hit (p : PollFd) : Bool := decide (0 ≤ p.fd) && p.ready

def hits (s : Server) (is : List Nat) : List Nat :=
  is.filter fun i => hit (s.client i)

def served (e : Env) (s : Server) (i : Nat) : List Op := (serve e s i).ops

theorem serve_client_ne {i j : Nat} (hji : j ≠ i) :
    (serve e s i).server.client j = s.client j := by
  rcases serve_cases e s i with ⟨-, heq⟩ | ⟨-, heq⟩ | ⟨g, -, heq | ⟨k, heq⟩⟩
  · rw [heq]
  · rw [heq]
    exact Function.update_of_ne hji ..
  · rw [heq]
  · rw [heq]

theorem serve_conn_ne {i : Nat} {fd : Int} (hfd : fd ≠ (s.client i).fd) :
    (serve e s i).server.kernel.conn fd = s.kernel.conn fd := by
  rcases serve_cases e s i with ⟨-, heq⟩ | ⟨-, heq⟩ | ⟨g, -, heq | ⟨k, heq⟩⟩
  · rw [heq]
  · rw [heq]
    exact Function.update_of_ne hfd ..
  · rw [heq]
  · rw [heq]

theorem served_congr {i : Nat} (hclient : t.client i = s.client i)
    (hconn : t.kernel.conn (s.client i).fd = s.kernel.conn (s.client i).fd) :
    served e t i = served e s i := by
  simp only [served, serve, hclient, hconn]
  cases e.read i with
  | data g => cases e.writen i <;> rfl
  | eof => rfl
  | reset => rfl
  | error => rfl

theorem serve_exited (e : Env) (s t : Server) (i : Nat) :
    (serve e t i).exited = (serve e s i).exited := by
  simp only [serve]
  cases e.read i with
  | data g => cases e.writen i <;> rfl
  | eof => rfl
  | reset => rfl
  | error => rfl

theorem hits_congr {is : List Nat}
    (h : ∀ i ∈ is, hit (t.client i) = hit (s.client i)) :
    hits t is = hits s is := List.filter_congr h

theorem mem_hits {is : List Nat} {i : Nat} :
    i ∈ hits s is ↔ i ∈ is ∧ 0 ≤ (s.client i).fd ∧ (s.client i).ready = true := by
  simp [hits, hit]

theorem hits_cons_of_hit {is : List Nat} {i : Nat}
    (hfd : ¬(s.client i).fd < 0) (hready : (s.client i).ready = true) :
    hits s (i :: is) = i :: hits s is := by
  apply List.filter_cons_of_pos
  simp only [hit, hready, Bool.and_true, decide_eq_true_eq]
  omega

theorem hits_cons_of_not {is : List Nat} {i : Nat}
    (h : (s.client i).fd < 0 ∨ ¬(s.client i).ready = true) :
    hits s (i :: is) = hits s is := by
  apply List.filter_cons_of_neg
  rcases h with hfd | hready
  · simp only [hit, Bool.and_eq_true, decide_eq_true_eq]
    omega
  · simp [hit, hready]

theorem andThen_of_exited {p : Pass} {f : Server → Pass} {x : Exit}
    (h : p.exited = some x) : p.andThen f = p := by
  simp [Pass.andThen, h]

theorem andThen_of_none {p : Pass} {f : Server → Pass} (h : p.exited = none) :
    p.andThen f =
      ⟨p.ops ++ (f p.server).ops, (f p.server).server, (f p.server).exited⟩ := by
  simp [Pass.andThen, h]

theorem served_after_serve (h : TableOk cfg s) {is : List Nat}
    (his : InTable cfg is) {i : Nat} (hi : slots cfg s i = some (s.client i).fd)
    (hnot : i ∉ is) :
    let t := (serve e s i).server
    hits t is = hits s is ∧
      (hits s is).flatMap (served e t) = (hits s is).flatMap (served e s) := by
  have hne : ∀ j ∈ is, j ≠ i := by
    rintro j hj rfl
    exact hnot hj
  constructor
  · apply hits_congr
    intro j hj
    rw [serve_client_ne (hne j hj)]
  · apply List.flatMap_congr
    intro j hj
    obtain ⟨hmem, hfd, -⟩ := mem_hits.mp hj
    apply served_congr (serve_client_ne (hne j hmem))
    apply serve_conn_ne
    intro heq
    have hslot := his.slots_eq hmem (Int.not_lt.mpr hfd)
    rw [heq] at hslot
    exact hne j hmem (h.tracks.once hslot hi)

theorem scan_ops {is : List Nat} (his : InTable cfg is) (hnodup : is.Nodup)
    {log : List Op} (h : Inv cfg none s log) (nready : Int) :
    (scan e is s nready).ops <+: (hits s is).flatMap (served e s) ∧
      ((scan e is s nready).exited = none → ((hits s is).length : Int) ≤ nready →
        (scan e is s nready).ops = (hits s is).flatMap (served e s) ∧
          ∀ i ∈ hits s is, (serve e s i).exited = none) := by
  induction is generalizing s log nready with
  | nil => exact ⟨List.prefix_rfl, fun _ _ => ⟨rfl, by simp [hits]⟩⟩
  | cons i is ih =>
      rw [List.nodup_cons] at hnodup
      rw [scan]
      split
      · rename_i hfd
        rw [hits_cons_of_not (.inl hfd)]
        exact ih his.tail hnodup.2 h nready
      · rename_i hfd
        split
        · rename_i hready
          have hi := his.slots_eq (List.mem_cons_self ..) hfd
          have hserve := inv_serve (e := e) h hi
          rw [hits_cons_of_hit hfd hready, List.flatMap_cons, List.length_cons]
          cases hexit : (serve e s i).exited with
          -- the process ends in this service: what came before is a prefix
          | some x =>
              rw [andThen_of_exited hexit]
              refine ⟨List.prefix_append .., fun hnone => ?_⟩
              rw [hexit] at hnone
              simp at hnone
          | none =>
              rw [After, hexit] at hserve
              obtain ⟨hhits, hflat⟩ := served_after_serve (e := e) (h.table rfl)
                his.tail hi hnodup.1
              obtain ⟨hpre, hall⟩ := ih his.tail hnodup.2 hserve (nready - 1)
              rw [hhits, hflat] at hpre hall
              rw [andThen_of_none hexit]
              split
              -- `nready` has run out, so no hit is left if it counted them all
              · rename_i hstop
                refine ⟨?_, fun _ hlen => ?_⟩
                · simp only [Pass.stay, List.append_nil]
                  exact List.prefix_append ..
                · have hnil : hits s is = [] := by
                    apply List.eq_nil_of_length_eq_zero
                    omega
                  simp [hnil, Pass.stay, served, hexit]
              · refine ⟨(List.prefix_append_right_inj _).mpr hpre, ?_⟩
                intro hnone hlen
                obtain ⟨hops, hgo⟩ := hall hnone (by omega)
                refine ⟨congrArg _ hops, ?_⟩
                intro j hj
                rcases List.mem_cons.mp hj with rfl | hj
                · exact hexit
                · rw [← serve_exited e s (serve e s i).server]
                  exact hgo j hj
        · rename_i hready
          rw [hits_cons_of_not (.inr hready)]
          exact ih his.tail hnodup.2 h nready

def Arrival (s : Server) : Prop := (s.client 0).revents &&& POLLRDNORM ≠ 0

instance (s : Server) : Decidable (Arrival s) :=
  inferInstanceAs (Decidable (_ ≠ _))

def scanEnd (cfg : Config) (s : Server) : Nat :=
  if Arrival s ∧ s.freeSlot cfg > s.maxi then s.freeSlot cfg else s.maxi

def due (cfg : Config) (e : Env) (s : Server) : List Op :=
  (hits s (List.range' 1 (scanEnd cfg s - 1))).flatMap (served e s)

theorem revents_ne_zero_of_ready {p : PollFd} (h : p.ready = true) :
    p.revents ≠ 0 := by
  intro hzero
  simp [PollFd.ready, hzero] at h

theorem le_maxi_of_fd (h : TableOk cfg s) {i : Nat} (hlt : i < cfg.OPEN_MAX)
    (hfd : 0 ≤ (s.client i).fd) : i ≤ s.maxi := by
  by_contra hgt
  have habove := h.above i (by omega) hlt
  omega

theorem hits_length_le (h : TableOk cfg s) (is : List Nat) (hnodup : is.Nodup)
    (his : InTable cfg is) :
    ((hits s is).length : Int) + (if Arrival s then 1 else 0) ≤ s.nready := by
  have hrange : List.range (s.maxi + 1) = 0 :: List.range' 1 s.maxi := by
    rw [List.range_eq_range', List.range'_succ]
  have hsub : hits s is ⊆
      (List.range' 1 s.maxi).filter fun i => (s.client i).revents != 0 := by
    intro i hi
    obtain ⟨hmem, hfd, hready⟩ := mem_hits.mp hi
    obtain ⟨hpos, hlt⟩ := his i hmem
    have hle := le_maxi_of_fd h hlt hfd
    rw [List.mem_filter, List.mem_range'_1]
    refine ⟨⟨hpos, by omega⟩, ?_⟩
    simpa using revents_ne_zero_of_ready hready
  have hle := (List.subperm_of_subset (hnodup.filter _) hsub).length_le
  rw [Server.nready, hrange, List.countP_cons, List.countP_eq_length_filter]
  have harrival : Arrival s → ((s.client 0).revents != 0) = true := by
    intro h
    rw [bne_iff_ne]
    intro hzero
    exact h (by simp [hzero])
  split
  · rename_i h
    rw [if_pos (harrival h)]
    unfold hits
    omega
  · unfold hits
    omega

theorem served_add (h : TableOk cfg s) {i j : Nat} {connfd : Int}
    (hi : slots cfg s i = some (s.client i).fd) (hij : i ≠ j)
    (hconn : s.kernel.conn connfd = none) :
    served e (s.add j connfd) i = served e s i := by
  refine served_congr (Function.update_of_ne hij ..) ?_
  have hopen := (h.tracks.live_iff _).mpr ⟨i, hi⟩
  apply Function.update_of_ne
  intro heq
  rw [heq] at hopen
  exact hopen hconn

theorem hits_add {i : Nat} (connfd : Int) (hfree : (s.client i).fd < 0)
    (hzero : i ≤ s.maxi → (s.client i).revents = 0) :
    hits (s.add i connfd) (s.add i connfd).scanned =
      hits s (s.add i connfd).scanned := by
  apply hits_congr
  intro j hj
  rcases eq_or_ne j i with rfl | hji
  · have hle : j ≤ s.maxi := by
      rw [Server.scanned, List.mem_range'_1] at hj
      simp only [Server.add] at hj
      split at hj <;> omega
    simp [hit, PollFd.ready, Server.add, hzero hle]
  · simp only [Server.add, Function.update_of_ne hji]

def Succeeds (cfg : Config) (e : Env) (s : Server) : Prop :=
  ∀ i ∈ hits s (List.range' 1 (scanEnd cfg s - 1)), (serve e s i).exited = none

theorem scan_due {log : List Op} (h : Inv cfg none t log) (nready : Int)
    (hhits : hits t t.scanned = hits s (List.range' 1 (scanEnd cfg s - 1)))
    (hserved : ∀ i ∈ hits t t.scanned, served e t i = served e s i) :
    (scan e t.scanned t nready).ops <+: due cfg e s ∧
      ((scan e t.scanned t nready).exited = none →
        ((hits t t.scanned).length : Int) ≤ nready →
          (scan e t.scanned t nready).ops = due cfg e s ∧ Succeeds cfg e s) := by
  have hdue : due cfg e s = (hits t t.scanned).flatMap (served e t) := by
    rw [due, ← hhits]
    exact List.flatMap_congr fun i hi => (hserved i hi).symm
  rw [hdue]
  obtain ⟨hpre, hall⟩ := scan_ops (e := e) (inTable_scanned (h.table rfl))
    List.nodup_range' h nready
  refine ⟨hpre, fun hnone hlen => ⟨(hall hnone hlen).1, ?_⟩⟩
  intro i hi
  rw [← hhits] at hi
  rw [← serve_exited e s t]
  exact (hall hnone hlen).2 i hi

/-- The system calls of one iteration after `Poll`: at most an accept, then the
services due, in their order and all of them if the process goes on. -/
def Handled (cfg : Config) (e : Env) (s : Server) (p : Pass) : Prop :=
  ∃ acc l, p.ops = acc ++ l ∧ (∀ op ∈ acc, ∃ fd c, op = .accept fd c) ∧
    l <+: due cfg e s ∧
      (p.exited = none → l = due cfg e s ∧ Succeeds cfg e s)

theorem handled_exit (cfg : Config) (e : Env) (s t : Server) {acc : List Op}
    (hacc : ∀ op ∈ acc, ∃ fd c, op = .accept fd c) (x : Exit)
    (f : Server → Pass) : Handled cfg e s (Pass.andThen ⟨acc, t, some x⟩ f) := by
  rw [andThen_of_exited rfl]
  refine ⟨acc, [], (List.append_nil _).symm, hacc, List.nil_prefix, ?_⟩
  intro hnone
  exact absurd hnone (Option.some_ne_none x)

theorem handled_add {log : List Op} (h : TableOk cfg s) (harrival : Arrival s)
    (hzero : ∀ i ≤ s.maxi, (s.client i).fd < 0 → (s.client i).revents = 0)
    {connfd : Int} (hlt : s.freeSlot cfg < cfg.OPEN_MAX)
    (hconn : s.kernel.conn connfd = none)
    (ht : t = s.add (s.freeSlot cfg) connfd) (hinv : Inv cfg none t log) :
    Handled cfg e s
      (Pass.andThen ⟨[.accept connfd s.kernel.accepted], t, none⟩ fun t =>
        if s.nready - 1 ≤ 0 then .stay t
        else scan e t.scanned t (s.nready - 1)) := by
  have hfree := freeSlot_free hlt
  have hhits : hits t t.scanned = hits s t.scanned := by
    rw [ht]
    exact hits_add connfd hfree fun hle => hzero _ hle hfree
  have hend : t.scanned = List.range' 1 (scanEnd cfg s - 1) := by
    simp [ht, Server.scanned, Server.add, scanEnd, harrival]
  have his := inTable_scanned (hinv.table rfl)
  have hserved : ∀ i ∈ hits t t.scanned, served e t i = served e s i := by
    intro i hi
    rw [hhits] at hi
    obtain ⟨hmem, hfdi, -⟩ := mem_hits.mp hi
    rw [ht]
    apply served_add h (his.slots_eq hmem (Int.not_lt.mpr hfdi)) ?_ hconn
    rintro rfl
    omega
  -- the listening socket takes one of `nready`, the hits are among the rest
  have hle := hits_length_le h t.scanned List.nodup_range' his
  rw [if_pos harrival, ← hhits] at hle
  rw [andThen_of_none rfl]
  refine ⟨[.accept connfd s.kernel.accepted], _, rfl, by simp, ?_⟩
  split
  · have hnil : hits t t.scanned = [] := by
      apply List.eq_nil_of_length_eq_zero
      omega
    refine ⟨List.nil_prefix, fun _ => ?_⟩
    rw [due, Succeeds, ← hend, ← hhits, hnil]
    exact ⟨rfl, by simp⟩
  · obtain ⟨hpre, hall⟩ := scan_due hinv (s.nready - 1) (hend ▸ hhits) hserved
    exact ⟨hpre, fun hnone => hall hnone (by omega)⟩

theorem handled_quiet {log : List Op} (h : Inv cfg none s log)
    (hquiet : ¬Arrival s) : Handled cfg e s (scan e s.scanned s s.nready) := by
  have htable := h.table rfl
  have hend : scanEnd cfg s = s.maxi := by simp [scanEnd, hquiet]
  have hhits : hits s s.scanned = hits s (List.range' 1 (scanEnd cfg s - 1)) := by
    rw [hend, Server.scanned]
  have hle := hits_length_le htable s.scanned List.nodup_range'
    (inTable_scanned htable)
  rw [if_neg hquiet, Int.add_zero] at hle
  obtain ⟨hpre, hall⟩ := scan_due (e := e) h s.nready hhits fun i _ => rfl
  exact ⟨[], _, rfl, by simp, hpre, fun hnone => hall hnone hle⟩

theorem handled {log : List Op} (h : Inv cfg none s log)
    (hlegal : Legal cfg s e)
    (hzero : ∀ i ≤ s.maxi, (s.client i).fd < 0 → (s.client i).revents = 0) :
    Handled cfg e s (handle cfg e s s.nready) := by
  have hcond : ((s.client 0).revents &&& POLLRDNORM != 0) = true ↔ Arrival s :=
    bne_iff_ne
  rw [handle]
  split
  · rename_i harrival
    rw [hcond] at harrival
    have hafter := inv_acceptClient h hlegal
    rcases acceptClient_cases cfg e s with
      ⟨-, heq⟩ | ⟨connfd, haccept, heq | ⟨hlt, heq⟩⟩
    · rw [heq]
      exact handled_exit cfg e s s (by simp) _ _
    · rw [heq]
      exact handled_exit cfg e s _ (by simp) _ _
    · rw [Legal, haccept] at hlegal
      rw [heq] at hafter ⊢
      exact handled_add (h.table rfl) harrival hzero hlt hlegal.2.2 rfl hafter
  · rename_i hquiet
    rw [hcond] at hquiet
    exact handled_quiet h hquiet

theorem poll_zero {i : Nat} (hi : i ≤ s.maxi) (hfd : (s.client i).fd < 0) :
    ((s.poll e).client i).revents = 0 := by
  simp [Server.poll, hi, hfd]

theorem poll_revents {i : Nat} (hi : i ≤ s.maxi) (hfd : 0 ≤ (s.client i).fd) :
    ((s.poll e).client i).revents = e.revents i := by
  simp [Server.poll, hi, Int.not_lt.mpr hfd]

theorem handled_pass {log : List Op} (h : Inv cfg none s log)
    (hlegal : Legal cfg s e) :
    Handled cfg e (s.poll e) (pass cfg e s) := by
  apply handled ((inv_kept cfg).poll e h) hlegal
  intro i hi hfd
  rw [poll_fd] at hfd
  exact poll_zero hi hfd

def onSlot (i : Nat) : Op → Bool
  | .accept _ _ => false
  | .read j _ _ _ => j = i
  | .write j _ _ _ => j = i
  | .close j _ _ => j = i

theorem mem_served {i : Nat} {op : Op} (h : op ∈ served e s i) :
    (∀ j, onSlot j op = decide (i = j)) ∧
      onConn op = s.kernel.conn (s.client i).fd := by
  rw [served] at h
  rcases serve_cases e s i with ⟨-, heq⟩ | ⟨-, heq⟩ | ⟨g, -, heq | ⟨k, heq⟩⟩
  all_goals
    rw [heq] at h
    simp only [List.mem_cons, List.not_mem_nil, or_false] at h
  · subst h
    exact ⟨fun j => rfl, rfl⟩
  all_goals
    rcases h with rfl | rfl <;> exact ⟨fun j => rfl, rfl⟩

theorem filter_served {is : List Nat} (hnodup : is.Nodup) (i : Nat) :
    (is.flatMap (served e s)).filter (onSlot i) =
      if i ∈ is then served e s i else [] := by
  induction is with
  | nil => rfl
  | cons j is ih =>
      rw [List.nodup_cons] at hnodup
      rw [List.flatMap_cons, List.filter_append, ih hnodup.2]
      have hslot := fun op (h : op ∈ served e s j) => (mem_served h).1 i
      rcases eq_or_ne j i with rfl | hji
      · rw [List.filter_eq_self.mpr (fun op h => by simp [hslot op h])]
        simp [hnodup.1]
      · rw [List.filter_eq_nil_iff.mpr (fun op h => by simp [hslot op h, hji])]
        simp [Ne.symm hji]

/-- Entry `i` is read once, and the answer to that read is an echo or a close. -/
def ServicedOnce (s : Server) (ops : List Op) (i : Nat) : Prop :=
  let fd := (s.client i).fd
  let conn := s.kernel.conn fd
  (∃ g, ops.filter (onSlot i) =
      [.read i fd conn (.data g), .write i fd conn g.bytes]) ∨
    ∃ r, (r = .eof ∨ r = .reset) ∧
      ops.filter (onSlot i) = [.read i fd conn r, .close i fd conn]

theorem servicedOnce_of_filter {ops : List Op} {i : Nat}
    (hops : ops.filter (onSlot i) = served e s i)
    (hgo : (serve e s i).exited = none) : ServicedOnce s ops i := by
  rw [served] at hops
  rw [ServicedOnce, hops]
  rcases serve_cases e s i with
    ⟨-, heq⟩ | ⟨hread, heq⟩ | ⟨g, hread, heq | ⟨k, heq⟩⟩
  · rw [heq] at hgo
    simp at hgo
  · rw [heq]
    rcases hread with hread | hread
    · exact .inr ⟨.reset, .inr rfl, by rw [hread]⟩
    · exact .inr ⟨.eof, .inl rfl, by rw [hread]⟩
  · rw [heq]
    exact .inl ⟨g, by rw [hread]⟩
  · rw [heq] at hgo
    simp at hgo

theorem not_servicedOnce_of_nil {ops : List Op} {i : Nat}
    (h : ops.filter (onSlot i) = []) : ¬ServicedOnce s ops i := by
  rw [ServicedOnce, h]
  rintro (⟨g, hg⟩ | ⟨r, -, hr⟩)
  · simp at hg
  · simp at hr

/-- The entry with index `maxi` holds a client that `Poll` has reported, and no
new client makes `maxi` grow beyond it. -/
def LastMissed (s : Server) : Prop :=
  1 ≤ s.maxi ∧ 0 ≤ (s.client s.maxi).fd ∧ (s.client s.maxi).ready = true ∧
    ¬(Arrival s ∧ ∀ i, 1 ≤ i → i ≤ s.maxi → 0 ≤ (s.client i).fd)

theorem maxi_lt_freeSlot_iff (h : TableOk cfg s) :
    s.maxi < s.freeSlot cfg ↔
      ∀ i, 1 ≤ i → i ≤ s.maxi → 0 ≤ (s.client i).fd := by
  have hmaxi := h.maxi_lt
  constructor
  · intro hlt i hpos hi
    exact taken_of_lt_freeSlot hpos (Nat.lt_of_le_of_lt hi hlt)
  · intro htaken
    by_contra hge
    have hlt : s.freeSlot cfg < cfg.OPEN_MAX := by omega
    have hfree := freeSlot_free hlt
    have := htaken (s.freeSlot cfg) (freeSlot_pos cfg s) (by omega)
    omega

/-- The scan reaches each entry in use, except the last one while `maxi` stays
as it is. -/
theorem lt_scanEnd_iff (h : TableOk cfg s) {i : Nat} (hi : i ≤ s.maxi) :
    i < scanEnd cfg s ↔ ¬(i = s.maxi ∧
      ¬(Arrival s ∧ ∀ i, 1 ≤ i → i ≤ s.maxi → 0 ≤ (s.client i).fd)) := by
  rw [← maxi_lt_freeSlot_iff h, scanEnd]
  by_cases hend : Arrival s ∧ s.freeSlot cfg > s.maxi
  · rw [if_pos hend]
    constructor
    · rintro - ⟨-, hstay⟩
      exact hstay hend
    · intro _
      exact Nat.lt_of_le_of_lt hi hend.2
  · rw [if_neg hend]
    constructor
    · rintro hlt ⟨rfl, -⟩
      exact Nat.lt_irrefl _ hlt
    · intro hne
      exact Nat.lt_of_le_of_ne hi fun heq => hne ⟨heq, hend⟩

theorem filter_accepts {acc : List Op} (hacc : ∀ op ∈ acc, ∃ fd c, op = .accept fd c)
    (i : Nat) : acc.filter (onSlot i) = [] := by
  rw [List.filter_eq_nil_iff]
  intro op hop
  obtain ⟨fd, c, rfl⟩ := hacc op hop
  simp [onSlot]

theorem filter_pass {log : List Op} (h : Inv cfg none s log)
    (hlegal : Legal cfg s e) (hexit : (pass cfg e s).exited = none) (i : Nat) :
    (pass cfg e s).ops.filter (onSlot i) =
        (if i ∈ hits (s.poll e) (List.range' 1 (scanEnd cfg (s.poll e) - 1)) then
          served e (s.poll e) i
        else []) ∧
      Succeeds cfg e (s.poll e) := by
  obtain ⟨acc, l, hops, hacc, -, hdone⟩ := handled_pass h hlegal
  obtain ⟨rfl, hgo⟩ := hdone hexit
  refine ⟨?_, hgo⟩
  rw [hops, List.filter_append, filter_accepts hacc, List.nil_append, due]
  exact filter_served (List.Nodup.filter _ List.nodup_range') i

/-- In every iteration from a reachable loop head that does not end the
process, each client that `Poll` reports is serviced exactly once, unless the
last entry in use is among them and keeps its place as the last. -/
theorem serviced_iff {s : State} (h : (system cfg).Reachable s)
    (hrun : s.exited = none) (hlegal : Legal cfg s.server e)
    (hexit : (pass cfg e s.server).exited = none) :
    (∀ i, 1 ≤ i → i < cfg.OPEN_MAX → 0 ≤ ((s.server.poll e).client i).fd →
      ((s.server.poll e).client i).ready = true →
        ServicedOnce (s.server.poll e) (pass cfg e s.server).ops i) ↔
      ¬LastMissed (s.server.poll e) := by
  have hinv := (inv_kept cfg).reachable h
  rw [hrun] at hinv
  have htable := (hinv.table rfl).poll e
  have hfilter := filter_pass hinv hlegal hexit
  constructor
  · rintro hall ⟨hpos, hfd, hready, hstay⟩
    have hmissed : ¬(s.server.poll e).maxi < scanEnd cfg (s.server.poll e) := by
      rw [lt_scanEnd_iff htable (Nat.le_refl _)]
      exact not_not_intro ⟨rfl, hstay⟩
    have honce := hall _ hpos htable.maxi_lt hfd hready
    refine not_servicedOnce_of_nil ?_ honce
    rw [(hfilter _).1, if_neg]
    rw [mem_hits, List.mem_range'_1]
    omega
  · intro hlast i hpos hlt hfd hready
    have hi := le_maxi_of_fd htable hlt hfd
    have hreached : i < scanEnd cfg (s.server.poll e) := by
      rw [lt_scanEnd_iff htable hi]
      rintro ⟨rfl, hstay⟩
      exact hlast ⟨hpos, hfd, hready, hstay⟩
    have hmem : i ∈ hits (s.server.poll e)
        (List.range' 1 (scanEnd cfg (s.server.poll e) - 1)) := by
      rw [mem_hits, List.mem_range'_1]
      exact ⟨by omega, hfd, hready⟩
    obtain ⟨hops, hgo⟩ := hfilter i
    rw [if_pos hmem] at hops
    exact servicedOnce_of_filter hops (hgo i hmem)

theorem serviced_iff_first :
    ∃ s : State, s.server.maxi = 2 ∧
      ∀ i, 1 ≤ i → i < small.OPEN_MAX →
        0 ≤ ((s.server.poll (report 1 .eof)).client i).fd →
          ((s.server.poll (report 1 .eof)).client i).ready = true →
            ServicedOnce (s.server.poll (report 1 .eof))
              (pass small (report 1 .eof) s.server).ops i := by
  have hmap : ((system small).run small.start [arrive 4, arrive 5]).map
      (fun s => (s.exited, (pass small (report 1 .eof) s.server).exited,
        ((s.server.poll (report 1 .eof)).client s.server.maxi).ready,
        s.server.maxi)) = some (none, none, false, 2) := by decide
  obtain ⟨s, hrun, hfacts⟩ := Option.map_eq_some_iff.mp hmap
  simp only [Prod.mk.injEq] at hfacts
  obtain ⟨hexited, hpass, hready, hmaxi⟩ := hfacts
  have hreach : (system small).Reachable s := ⟨_, small.start, ⟨_, rfl⟩, hrun⟩
  refine ⟨s, hmaxi,
    (serviced_iff (e := report 1 .eof) hreach hexited trivial hpass).mpr ?_⟩
  rintro ⟨-, -, hlast, -⟩
  rw [poll_maxi, hready] at hlast
  simp at hlast

/-- A server with a single client never reads from it. -/
theorem single_client_missed :
    ¬∀ s e, (system small).Reachable s → s.exited = none →
      Legal small s.server e → (pass small e s.server).exited = none →
        ∀ i, 1 ≤ i → i < small.OPEN_MAX →
          0 ≤ ((s.server.poll e).client i).fd →
            ((s.server.poll e).client i).ready = true →
              ServicedOnce (s.server.poll e) (pass small e s.server).ops i := by
  intro hall
  have hmap : ((system small).run small.start [arrive 4]).map
      (fun s => (s.exited, (pass small (report 1 .eof) s.server).exited,
        ((s.server.poll (report 1 .eof)).client 1).fd,
        ((s.server.poll (report 1 .eof)).client 1).ready,
        (pass small (report 1 .eof) s.server).ops.length)) =
      some (none, none, 4, true, 0) := by decide
  obtain ⟨s, hrun, hfacts⟩ := Option.map_eq_some_iff.mp hmap
  simp only [Prod.mk.injEq] at hfacts
  obtain ⟨hexited, hpass, hfd, hready, hops⟩ := hfacts
  have hreach : (system small).Reachable s := ⟨_, small.start, ⟨_, rfl⟩, hrun⟩
  have honce := hall s (report 1 .eof) hreach hexited trivial hpass 1
    (Nat.le_refl 1) (by decide) (by omega) hready
  refine not_servicedOnce_of_nil ?_ honce
  rw [List.eq_nil_of_length_eq_zero hops]
  rfl

end MyUnp.PollServerScan
