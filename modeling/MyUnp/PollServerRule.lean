import MyUnp.PollServer

namespace MyUnp.PollServerRule

open MyUnp.PollServer
open MyUnp.SlotTable
open MyUnp.TransitionSystem

variable {cfg : Config} {e : Env} {s : Server}

def slots (cfg : Config) (s : Server) (i : Nat) : Option Int :=
  if 1 ≤ i ∧ i < cfg.OPEN_MAX ∧ 0 ≤ (s.client i).fd then some (s.client i).fd
  else none

theorem slots_eq_some {i : Nat} {fd : Int} :
    slots cfg s i = some fd ↔
      1 ≤ i ∧ i < cfg.OPEN_MAX ∧ 0 ≤ fd ∧ (s.client i).fd = fd := by
  rw [slots, Option.ite_none_right_eq_some, Option.some_inj]
  constructor
  · rintro ⟨⟨hpos, hlt, hfd⟩, rfl⟩
    exact ⟨hpos, hlt, hfd, rfl⟩
  · rintro ⟨hpos, hlt, hfd, rfl⟩
    exact ⟨⟨hpos, hlt, hfd⟩, rfl⟩

theorem freeSlot_pos (cfg : Config) (s : Server) : 1 ≤ s.freeSlot cfg :=
  le_firstFrom _ _ _

theorem freeSlot_le (cfg : Config) (s : Server) :
    s.freeSlot cfg ≤ cfg.OPEN_MAX := by
  have hle := firstFrom_le (fun i => decide ((s.client i).fd < 0))
    (cfg.OPEN_MAX - 1) 1
  have hroom := cfg.room
  rw [Server.freeSlot]
  omega

theorem freeSlot_free (h : s.freeSlot cfg < cfg.OPEN_MAX) :
    (s.client (s.freeSlot cfg)).fd < 0 := by
  have hroom := cfg.room
  have hspec := firstFrom_spec (p := fun i => decide ((s.client i).fd < 0))
    (n := cfg.OPEN_MAX - 1) (i := 1) (by rw [Server.freeSlot] at h; omega)
  simpa [Server.freeSlot] using hspec

theorem taken_of_lt_freeSlot {j : Nat} (hpos : 1 ≤ j)
    (hj : j < s.freeSlot cfg) : 0 ≤ (s.client j).fd := by
  have htaken := not_of_lt_firstFrom hpos hj
  simpa using htaken

theorem acceptClient_cases (cfg : Config) (e : Env) (s : Server) :
    (e.accept = none ∧ acceptClient cfg e s = ⟨[], s, some .acceptError⟩) ∨
      ∃ connfd, e.accept = some connfd ∧
        (acceptClient cfg e s =
            ⟨[.accept connfd s.kernel.accepted],
              { s with kernel := s.kernel.accept connfd },
              some .tooManyClients⟩ ∨
          s.freeSlot cfg < cfg.OPEN_MAX ∧
            acceptClient cfg e s =
              ⟨[.accept connfd s.kernel.accepted],
                s.add (s.freeSlot cfg) connfd, none⟩) := by
  have hle := freeSlot_le cfg s
  cases haccept : e.accept with
  | none => exact .inl ⟨rfl, by simp [acceptClient, haccept]⟩
  | some connfd =>
      refine .inr ⟨connfd, rfl, ?_⟩
      rcases Nat.eq_or_lt_of_le hle with hfull | hlt
      · exact .inl (by simp [acceptClient, haccept, hfull])
      · exact .inr ⟨hlt, by simp [acceptClient, haccept, Nat.ne_of_lt hlt]⟩

theorem serve_cases (e : Env) (s : Server) (i : Nat) :
    let sockfd := (s.client i).fd
    let conn := s.kernel.conn sockfd
    let got := Op.read i sockfd conn (e.read i)
    (e.read i = .error ∧ serve e s i = ⟨[got], s, some .readError⟩) ∨
      ((e.read i = .reset ∨ e.read i = .eof) ∧
        serve e s i = ⟨[got, .close i sockfd conn], s.drop i, none⟩) ∨
      ∃ g, e.read i = .data g ∧
        (serve e s i = ⟨[got, .write i sockfd conn g.bytes], s, none⟩ ∨
          ∃ k, serve e s i =
            ⟨[got, .write i sockfd conn (g.bytes.take k)], s,
              some .writenError⟩) := by
  cases hread : e.read i with
  | error => exact .inl ⟨rfl, by simp [serve, hread]⟩
  | reset => exact .inr (.inl ⟨.inl rfl, by simp [serve, hread]⟩)
  | eof => exact .inr (.inl ⟨.inr rfl, by simp [serve, hread]⟩)
  | data g =>
      refine .inr (.inr ⟨g, rfl, ?_⟩)
      cases hwriten : e.writen i with
      | none => exact .inl (by simp [serve, hread, hwriten])
      | some k => exact .inr ⟨k, by simp [serve, hread, hwriten]⟩

def InTable (cfg : Config) (is : List Nat) : Prop :=
  ∀ i ∈ is, 1 ≤ i ∧ i < cfg.OPEN_MAX

theorem InTable.slots_eq {is : List Nat} {i : Nat} (h : InTable cfg is)
    (hi : i ∈ is) (hfd : ¬(s.client i).fd < 0) :
    slots cfg s i = some (s.client i).fd := by
  obtain ⟨hpos, hlt⟩ := h i hi
  exact slots_eq_some.mpr ⟨hpos, hlt, by omega, rfl⟩

theorem InTable.tail {is : List Nat} {i : Nat} (h : InTable cfg (i :: is)) :
    InTable cfg is := fun j hj => h j (List.mem_cons_of_mem _ hj)

def After (R : Option Exit → Server → List Op → Prop) (log : List Op)
    (p : Pass) : Prop := R p.exited p.server (log ++ p.ops)

theorem After.stay {R : Option Exit → Server → List Op → Prop} {log : List Op}
    (h : R none s log) : After R log (.stay s) := by
  show R none s (log ++ [])
  rwa [List.append_nil]

theorem After.andThen {R : Option Exit → Server → List Op → Prop}
    {log : List Op} {p : Pass} {f : Server → Pass} (hp : After R log p)
    (hf : ∀ s log, R none s log → After R log (f s)) :
    After R log (p.andThen f) := by
  unfold After at hp
  cases hexit : p.exited with
  | none =>
      rw [hexit] at hp
      have hnext := hf _ _ hp
      rw [After, List.append_assoc] at hnext
      simpa only [After, Pass.andThen, hexit] using hnext
  | some x =>
      rw [hexit] at hp
      simpa only [After, Pass.andThen, hexit] using hp

structure Kept (cfg : Config) (R : Option Exit → Server → List Op → Prop) :
    Prop where
  start : ∀ junk, R none (.start cfg junk) []
  poll : ∀ {s log} e, R none s log → R none (s.poll e) log
  inTable : ∀ {s log}, R none s log → InTable cfg s.scanned
  accept : ∀ {s log e}, R none s log → Legal cfg s e →
    After R log (acceptClient cfg e s)
  serve : ∀ {s log i fd} e, R none s log → slots cfg s i = some fd →
    After R log (serve e s i)

section Kept

variable {R : Option Exit → Server → List Op → Prop}

theorem Kept.scan (H : Kept cfg R) {is : List Nat} (his : InTable cfg is)
    {log : List Op} (h : R none s log) (nready : Int) :
    After R log (scan e is s nready) := by
  induction is generalizing s log nready with
  | nil => exact After.stay h
  | cons i is ih =>
      rw [PollServer.scan]
      split
      · exact ih his.tail h nready
      · rename_i hfd
        split
        · apply (H.serve e h (his.slots_eq (List.mem_cons_self ..) hfd)).andThen
          intro t log ht
          split
          · exact After.stay ht
          · exact ih his.tail ht _
        · exact ih his.tail h nready

theorem Kept.handle (H : Kept cfg R) {log : List Op} (h : R none s log)
    (hlegal : Legal cfg s e) (nready : Int) :
    After R log (handle cfg e s nready) := by
  rw [PollServer.handle]
  split
  · apply (H.accept h hlegal).andThen
    intro t log ht
    split
    · exact After.stay ht
    · exact H.scan (H.inTable ht) ht _
  · exact H.scan (H.inTable h) h nready

theorem Kept.pass (H : Kept cfg R) {log : List Op} (h : R none s log)
    (hlegal : Legal cfg s e) : After R log (pass cfg e s) :=
  H.handle (H.poll e h) hlegal _

theorem Kept.reachable (H : Kept cfg R) {s : State}
    (h : (system cfg).Reachable s) : R s.exited s.server s.log := by
  refine h.invariant (P := fun s => R s.exited s.server s.log) ?_ ?_
  · rintro s ⟨junk, rfl⟩
    exact H.start junk
  · intro s e t _ hs hstep
    obtain ⟨hrun, hlegal, rfl⟩ := step_eq_some hstep
    rw [hrun] at hs
    exact H.pass hs hlegal

end Kept

end MyUnp.PollServerRule
