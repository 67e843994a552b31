import Mathlib.Data.List.Nodup
import MyUnp.Decimal
import MyUnp.TransitionSystem

/-!
`tcp_urg_select_receiver2.c`: `select` is asked for the exception again after
any normal `Read`, whether or not that `Read` got past the urgent mark.
-/

namespace MyUnp.UrgentReceiver

open MyUnp.Decimal
open MyUnp.TransitionSystem
open MyUnp.Unp

def bufRoom : Nat := 99

/-- A connection as the receiver's kernel sees it. `stream` is all that was
sent, urgent bytes included, and `urgents` are their positions in it; `mark` is
the position of the urgent byte announced last, the only one that is kept out
of the normal data; `read` is where the next normal `Read` begins. -/
structure Conn where
  stream : List Byte
  urgents : List Nat
  closed : Bool
  arrived : Nat
  fin : Bool
  mark : Option Nat
  fetched : Bool
  read : Nat
  deriving DecidableEq

namespace Conn

def start : Conn := ⟨[], [], false, 0, false, none, false, 0⟩

/-- The next normal byte: a `Read` that begins at the mark leaves out the
urgent byte. -/
def next (c : Conn) : Nat := if c.mark = some c.read then c.read + 1 else c.read

/-- Where a `Read` stops at the latest: at the mark. -/
def limit (c : Conn) : Nat :=
  match c.mark with
  | some p => if c.read < p then min p c.arrived else c.arrived
  | none => c.arrived

def available (c : Conn) : Nat := c.limit - c.next

def readable (c : Conn) : Bool := c.available != 0 || c.fin

def exceptional (c : Conn) : Bool := c.mark.any fun p => c.read ≤ p

end Conn

/-- What happens at the sender and in the network. The announcement of an
urgent byte may come long before the byte. -/
inductive NetAct where
  | send (bytes : List Byte)
  | sendOob (b : Byte)
  | close
  | announce (p : Nat)
  | arrive (n : Nat)
  | arriveFin
  deriving DecidableEq

def Conn.netStep (c : Conn) : NetAct → Option Conn
  | .send bytes =>
      if c.closed = false then some { c with stream := c.stream ++ bytes } else none
  | .sendOob b =>
      if c.closed = false then
        some { c with
          stream := c.stream ++ [b]
          urgents := c.urgents ++ [c.stream.length] }
      else none
  | .close => some { c with closed := true }
  | .announce p =>
      if p ∈ c.urgents ∧ ∀ q ∈ c.mark, q < p then
        some { c with mark := some p, fetched := false }
      else none
  -- the segment with an urgent byte announces it, if none did before
  | .arrive n =>
      if c.arrived + n ≤ c.stream.length ∧
          ∀ p ∈ c.urgents, p < c.arrived + n → ∃ q ∈ c.mark, p ≤ q then
        some { c with arrived := c.arrived + n }
      else none
  | .arriveFin =>
      if c.closed = true ∧ c.arrived = c.stream.length then
        some { c with fin := true }
      else none

inductive Pc where
  | head
  | select
  | testX
  | testR
  | exited
  deriving DecidableEq

/-- What `Recv(MSG_OOB)` or `Read` has put into `buf`, or that `Read` returned 0. -/
inductive Event where
  | oob (b : Byte)
  | normal (bytes : List Byte)
  | eof
  deriving DecidableEq

def Event.data : Event → List Byte
  | .oob b => [b]
  | .normal bytes => bytes
  | .eof => []

/-- `printf("read %d kind: %s\n", n, buf)`, which ends the string at the first NUL of
what was read, or at the one put behind it. -/
def printRead (kind : String) (data : List Byte) : List Byte :=
  bytes "read " ++ decimal data.length ++ bytes (" " ++ kind ++ ": ") ++ cString data ++
    [newline]

def Event.text : Event → List Byte
  | .oob b => printRead "OOB byte" [b]
  | .normal bytes => printRead "normal byte" bytes
  | .eof => bytes "received EOF" ++ [newline]

theorem printRead_infix (kind : String) {data : List Byte} (hnul : 0 ∉ data) :
    data <:+: printRead kind data := by
  rw [printRead, cString_eq_self hnul]
  exact List.infix_append _ _ _

theorem text_infix {e : Event} (hnul : 0 ∉ e.data) : e.data <:+: e.text := by
  cases e with
  | oob b => exact printRead_infix _ hnul
  | normal bytes => exact printRead_infix _ hnul
  | eof => exact List.nil_infix

/-- `rset` and `xset` tell whether `connfd` is in the sets. `log` is what has been read
and printed, and `calls` the urgent byte at which each `Recv(MSG_OOB)` was aimed; no
step looks at them. -/
structure State where
  pc : Pc
  justreadoob : Bool
  rset : Bool
  xset : Bool
  conn : Conn
  log : List Event
  calls : List Nat
  deriving DecidableEq

def State.start : State := ⟨.head, false, false, false, .start, [], []⟩

/-- `Recv(MSG_OOB)`. It fails, and the wrapper exits, where there is no urgent
byte (`EINVAL`), where it was fetched before (`EINVAL`) and where it has not
arrived (`EWOULDBLOCK`). -/
def State.recvOob (s : State) : State :=
  match s.conn.mark with
  | none => { s with pc := .exited }
  | some p =>
      if s.conn.fetched = false ∧ p < s.conn.arrived then
        { s with
          pc := .testR
          justreadoob := true
          xset := false
          conn := { s.conn with fetched := true }
          log := s.log ++ [.oob (s.conn.stream.getD p 0)]
          calls := s.calls ++ [p] }
      else { s with pc := .exited, calls := s.calls ++ [p] }

inductive Act where
  | net (a : NetAct)
  | arm
  | select
  | testX
  | read (n : Nat)
  | eof
  | skip
  deriving DecidableEq

def State.step (s : State) : Act → Option State
  | .net a => (s.conn.netStep a).map fun c => { s with conn := c }
  | .arm =>
      if s.pc = .head then
        some { s with
          pc := .select
          rset := true
          xset := if s.justreadoob = false then true else s.xset }
      else none
  | .select =>
      if s.pc = .select ∧
          (s.rset && s.conn.readable || s.xset && s.conn.exceptional) = true then
        some { s with
          pc := .testX
          rset := s.rset && s.conn.readable
          xset := s.xset && s.conn.exceptional }
      else none
  | .testX =>
      if s.pc = .testX then
        some (if s.xset = true then s.recvOob else { s with pc := .testR })
      else none
  | .read n =>
      if s.pc = .testR ∧ s.rset = true ∧ 0 < n ∧ n ≤ bufRoom ∧
          n ≤ s.conn.available then
        some { s with
          pc := .head
          justreadoob := false
          conn := { s.conn with read := s.conn.next + n }
          log := s.log ++
            [.normal ((s.conn.stream.drop s.conn.next).take n)] }
      else none
  | .eof =>
      if s.pc = .testR ∧ s.rset = true ∧ s.conn.available = 0 ∧
          s.conn.fin = true then
        some { s with pc := .exited, log := s.log ++ [.eof] }
      else none
  | .skip =>
      if s.pc = .testR ∧ s.rset = false then some { s with pc := .head } else none

def system : System State Act where
  init s := s = .start
  step := State.step

/-- No normal byte is left in front of the mark of an urgent byte that has been
fetched. -/
def AtMark (s : State) : Prop :=
  ∀ p ∈ s.conn.mark, s.conn.fetched = true → p ≤ s.conn.read

def Act.isRead : Act → Bool
  | .read _ => true
  | _ => false

def ReadsPastMark (s : State) (a : Act) : Prop := a.isRead = true → AtMark s

instance (s : State) : Decidable (AtMark s) :=
  inferInstanceAs (Decidable (∀ p ∈ _, _ → _))

instance (s : State) (a : Act) : Decidable (ReadsPastMark s a) :=
  inferInstanceAs (Decidable (_ → _))

theorem Conn.netStep_cases {c d : Conn} {a : NetAct} (h : c.netStep a = some d) :
    d.read = c.read ∧ (d.mark = c.mark ∧ d.fetched = c.fetched ∨
      ∃ p, d.mark = some p ∧ d.fetched = false ∧ ∀ q ∈ c.mark, q < p) := by
  cases a with
  | send bytes =>
      obtain ⟨-, rfl⟩ := guard_eq_some.mp h
      exact ⟨rfl, .inl ⟨rfl, rfl⟩⟩
  | sendOob b =>
      obtain ⟨-, rfl⟩ := guard_eq_some.mp h
      exact ⟨rfl, .inl ⟨rfl, rfl⟩⟩
  | close =>
      obtain rfl := Option.some.inj h
      exact ⟨rfl, .inl ⟨rfl, rfl⟩⟩
  | announce p =>
      obtain ⟨⟨-, hlater⟩, rfl⟩ := guard_eq_some.mp h
      exact ⟨rfl, .inr ⟨p, rfl, rfl, hlater⟩⟩
  | arrive n =>
      obtain ⟨-, rfl⟩ := guard_eq_some.mp h
      exact ⟨rfl, .inl ⟨rfl, rfl⟩⟩
  | arriveFin =>
      obtain ⟨-, rfl⟩ := guard_eq_some.mp h
      exact ⟨rfl, .inl ⟨rfl, rfl⟩⟩

structure Called (s : State) : Prop where
  calls_le : ∀ p ∈ s.calls, ∃ q ∈ s.conn.mark, p ≤ q
  fetched : ∀ p ∈ s.conn.mark, s.conn.fetched = true → p ∈ s.calls

theorem Called.net {s : State} {c : Conn} {a : NetAct}
    (hnet : s.conn.netStep a = some c) (h : Called s) :
    Called { s with conn := c } := by
  obtain ⟨-, ⟨hmark, hfetched⟩ | ⟨q, hmark, hfetched, hlater⟩⟩ :=
    Conn.netStep_cases hnet
  · constructor
    · rw [hmark]
      exact h.calls_le
    · rw [hmark, hfetched]
      exact h.fetched
  · constructor
    · intro p hp
      obtain ⟨r, hr, hle⟩ := h.calls_le p hp
      exact ⟨q, hmark, Nat.le_trans hle (Nat.le_of_lt (hlater r hr))⟩
    · intro p _ hbad
      rw [hfetched] at hbad
      cases hbad

theorem Called.recvOob {s : State} (h : Called s) : Called s.recvOob := by
  rw [State.recvOob]
  split
  · exact ⟨h.calls_le, h.fetched⟩
  · rename_i p hmark
    have hcalls : ∀ q ∈ s.calls ++ [p], ∃ r ∈ s.conn.mark, q ≤ r := by
      intro q hq
      rcases List.mem_append.mp hq with hq | hq
      · exact h.calls_le q hq
      · obtain rfl := List.mem_singleton.mp hq
        exact ⟨q, hmark, Nat.le_refl q⟩
    have hmem : ∀ q ∈ s.conn.mark, q ∈ s.calls ++ [p] := by
      intro q hq
      obtain rfl := Option.some.inj (hmark.symm.trans hq)
      exact List.mem_append_right _ List.mem_cons_self
    split
    · exact ⟨hcalls, fun q hq _ => hmem q hq⟩
    · exact ⟨hcalls, fun q hq _ => hmem q hq⟩

theorem reachable_called {s : State} (hs : system.Reachable s) : Called s := by
  apply hs.invariant
  · rintro s rfl
    exact ⟨by simp [State.start], by simp [State.start, Conn.start]⟩
  · intro s a t _ h hstep
    cases a with
    | net a =>
        obtain ⟨c, hnet, rfl⟩ := Option.map_eq_some_iff.mp hstep
        exact h.net hnet
    | arm =>
        obtain ⟨-, rfl⟩ := guard_eq_some.mp hstep
        exact ⟨h.calls_le, h.fetched⟩
    | select =>
        obtain ⟨-, rfl⟩ := guard_eq_some.mp hstep
        exact ⟨h.calls_le, h.fetched⟩
    | testX =>
        obtain ⟨-, rfl⟩ := guard_eq_some.mp hstep
        split
        · exact h.recvOob
        · exact ⟨h.calls_le, h.fetched⟩
    | read n =>
        obtain ⟨-, rfl⟩ := guard_eq_some.mp hstep
        exact ⟨h.calls_le, h.fetched⟩
    | eof =>
        obtain ⟨-, rfl⟩ := guard_eq_some.mp hstep
        exact ⟨h.calls_le, h.fetched⟩
    | skip =>
        obtain ⟨-, rfl⟩ := guard_eq_some.mp hstep
        exact ⟨h.calls_le, h.fetched⟩

/-- While the process has not read past the mark of an urgent byte that it has
fetched, it does not ask for the exception. -/
structure Inv (s : State) : Prop where
  nodup : s.calls.Nodup
  called : ∀ p ∈ s.conn.mark, p ∈ s.calls →
    s.conn.fetched = true ∨ s.pc = .exited
  held : ∀ p ∈ s.conn.mark, s.conn.fetched = true → s.conn.read ≤ p →
    s.justreadoob = true ∧ s.xset = false
  aimed : s.pc = .testX → s.xset = true → ∃ p ∈ s.conn.mark, s.conn.read ≤ p

theorem Inv.net {s : State} {c : Conn} {a : NetAct}
    (hnet : s.conn.netStep a = some c) (hcalled : Called s) (h : Inv s) :
    Inv { s with conn := c } := by
  obtain ⟨hread, ⟨hmark, hfetched⟩ | ⟨q, hmark, hfetched, hlater⟩⟩ :=
    Conn.netStep_cases hnet
  · constructor
    · exact h.nodup
    · rw [hmark, hfetched]
      exact h.called
    · rw [hmark, hfetched, hread]
      exact h.held
    · rw [hmark, hread]
      exact h.aimed
  -- the new mark is beyond all that the calls so far were aimed at
  · constructor
    · exact h.nodup
    · intro p hp hmem
      obtain rfl := Option.some.inj (hmark.symm.trans hp)
      obtain ⟨r, hr, hle⟩ := hcalled.calls_le q hmem
      have hlt := hlater r hr
      omega
    · intro p _ hbad
      rw [hfetched] at hbad
      cases hbad
    · intro hpc hxset
      obtain ⟨r, hr, hle⟩ := h.aimed hpc hxset
      have hlt := hlater r hr
      refine ⟨q, hmark, ?_⟩
      rw [hread]
      omega

theorem Inv.recvOob {s : State} (hpc : s.pc = .testX) (hxset : s.xset = true)
    (h : Inv s) : Inv s.recvOob := by
  obtain ⟨p, hmark, hle⟩ := h.aimed hpc hxset
  have hfetched : s.conn.fetched = false := by
    apply Bool.eq_false_iff.mpr
    intro hbad
    have hclear := (h.held p hmark hbad hle).2
    rw [hxset] at hclear
    cases hclear
  have hnew : p ∉ s.calls := by
    intro hmem
    rcases h.called p hmark hmem with hbad | hbad
    · rw [hfetched] at hbad
      cases hbad
    · rw [hpc] at hbad
      cases hbad
  have hnodup : (s.calls ++ [p]).Nodup :=
    List.nodup_append.mpr ⟨h.nodup, List.nodup_singleton p, by
      rintro q hq r hr rfl
      exact hnew (List.mem_singleton.mp hr ▸ hq)⟩
  rw [State.recvOob, show s.conn.mark = some p from hmark]
  simp only
  split
  · exact ⟨hnodup, fun _ _ _ => .inl rfl, fun _ _ _ _ => ⟨rfl, rfl⟩, nofun⟩
  · refine ⟨hnodup, fun _ _ _ => .inr rfl, ?_, nofun⟩
    intro q _ hbad
    rw [hfetched] at hbad
    cases hbad

theorem Inv.read {s : State} {n : Nat} (hpc : s.pc = .testR) (hpos : 0 < n)
    (hat : AtMark s) (h : Inv s) (log : List Event) :
    Inv { s with
      pc := .head
      justreadoob := false
      conn := { s.conn with read := s.conn.next + n }
      log := log } := by
  refine ⟨h.nodup, ?_, ?_, nofun⟩
  · intro p hp hmem
    rcases h.called p hp hmem with hfetched | hbad
    · exact .inl hfetched
    · rw [hpc] at hbad
      cases hbad
  · intro p hp hfetched hle
    have hmark := hat p hp hfetched
    change s.conn.next + n ≤ p at hle
    rw [Conn.next] at hle
    split at hle <;> omega

theorem Inv.called_of_pc {s : State} (h : Inv s) {pc : Pc} (hpc : s.pc = pc)
    (hne : pc ≠ .exited) :
    ∀ p ∈ s.conn.mark, p ∈ s.calls → s.conn.fetched = true := by
  intro p hp hmem
  rcases h.called p hp hmem with hfetched | hbad
  · exact hfetched
  · exact absurd (hpc.symm.trans hbad) hne

theorem Inv.step {s t : State} {a : Act} (hread : ReadsPastMark s a)
    (hcalled : Called s) (h : Inv s) (hstep : s.step a = some t) : Inv t := by
  cases a with
  | net a =>
      obtain ⟨c, hnet, rfl⟩ := Option.map_eq_some_iff.mp hstep
      exact h.net hnet hcalled
  | arm =>
      obtain ⟨hpc, rfl⟩ := guard_eq_some.mp hstep
      have hfetched := h.called_of_pc hpc (by decide)
      refine ⟨h.nodup, fun p hp hmem => .inl (hfetched p hp hmem), ?_, nofun⟩
      intro p hp hf hle
      obtain ⟨hjust, hxset⟩ := h.held p hp hf hle
      simp [hjust, hxset]
  | select =>
      obtain ⟨⟨hpc, -⟩, rfl⟩ := guard_eq_some.mp hstep
      have hfetched := h.called_of_pc hpc (by decide)
      refine ⟨h.nodup, fun p hp hmem => .inl (hfetched p hp hmem), ?_, ?_⟩
      · intro p hp hf hle
        obtain ⟨hjust, hxset⟩ := h.held p hp hf hle
        simp [hjust, hxset]
      · intro _ hxset
        obtain ⟨-, hexc⟩ := (Bool.and_eq_true _ _).mp hxset
        obtain ⟨p, hp, hle⟩ := (Option.any_eq_true _ _).mp hexc
        exact ⟨p, hp, of_decide_eq_true hle⟩
  | testX =>
      obtain ⟨hpc, rfl⟩ := guard_eq_some.mp hstep
      have hfetched := h.called_of_pc hpc (by decide)
      split
      · rename_i hxset
        exact h.recvOob hpc hxset
      · exact ⟨h.nodup, fun p hp hmem => .inl (hfetched p hp hmem), h.held, nofun⟩
  | read n =>
      obtain ⟨⟨hpc, -, hpos, -⟩, rfl⟩ := guard_eq_some.mp hstep
      exact h.read hpc hpos (hread rfl) _
  | eof =>
      obtain ⟨-, rfl⟩ := guard_eq_some.mp hstep
      exact ⟨h.nodup, fun _ _ _ => .inr rfl, h.held, nofun⟩
  | skip =>
      obtain ⟨⟨hpc, -⟩, rfl⟩ := guard_eq_some.mp hstep
      have hfetched := h.called_of_pc hpc (by decide)
      exact ⟨h.nodup, fun p hp hmem => .inl (hfetched p hp hmem), h.held, nofun⟩

theorem restrict_inv {s : State}
    (hs : (system.restrict ReadsPastMark).Reachable s) : Inv s := by
  refine System.Reachable.restrict_invariant (P := Inv) ?_ ?_ hs
  · rintro s rfl
    refine ⟨List.nodup_nil, ?_, ?_, nofun⟩
    · simp [State.start]
    · simp [State.start, Conn.start]
  · intro s a t hreach hread h hstep
    exact h.step hread (reachable_called hreach) hstep

theorem asks_again {t : State} {p : Nat} (hpc : t.pc = .head)
    (hjust : t.justreadoob = false) (hmark : t.conn.mark = some p)
    (hfetched : t.conn.fetched = true) (hle : t.conn.read ≤ p) :
    ∃ u, system.run t [.arm, .select, .testX] = some u ∧
      u.calls = t.calls ++ [p] := by
  have hexc : t.conn.exceptional = true := by simp [Conn.exceptional, hmark, hle]
  have harm : system.step t .arm =
      some { t with pc := .select, rset := true, xset := true } := by
    simp [system, State.step, hpc, hjust]
  have hselect :
      system.step { t with pc := .select, rset := true, xset := true } .select =
        some { t with pc := .testX, rset := t.conn.readable, xset := true } := by
    simp [system, State.step, hexc]
  have htest : system.step
      { t with pc := .testX, rset := t.conn.readable, xset := true } .testX =
        some { t with
          pc := .exited
          rset := t.conn.readable
          xset := true
          calls := t.calls ++ [p] } := by
    simp [system, State.step, State.recvOob, hmark, hfetched]
  have hrun := System.run_cons_of_step htest []
  rw [← System.run_cons_of_step hselect, ← System.run_cons_of_step harm] at hrun
  exact ⟨_, hrun, rfl⟩

theorem read_short_of_mark {s t : State} {n : Nat} (hs : system.Reachable s)
    (hstep : s.step (.read n) = some t) (hshort : ¬ReadsPastMark s (.read n)) :
    ∃ u, system.run t [.arm, .select, .testX] = some u ∧ ¬u.calls.Nodup := by
  have hbad : ¬AtMark s := fun hat => hshort fun _ => hat
  simp only [AtMark, not_forall] at hbad
  obtain ⟨p, hmark, hfetched, hlt⟩ := hbad
  have hcalled := (reachable_called hs).fetched p hmark hfetched
  have hmark' : s.conn.mark = some p := hmark
  obtain ⟨⟨-, -, -, -, havail⟩, ht⟩ := guard_eq_some.mp hstep
  have hnext : s.conn.next = s.conn.read := by
    apply if_neg
    rw [hmark', Option.some_inj]
    omega
  have hlimit : s.conn.limit = min p s.conn.arrived := by
    simp only [Conn.limit, hmark']
    exact if_pos (by omega)
  have hle : s.conn.next + n ≤ p := by
    rw [Conn.available, hlimit] at havail
    omega
  have hagain := asks_again (t := t) (p := p)
  subst ht
  obtain ⟨u, hrun, hcalls⟩ := hagain rfl rfl hmark' hfetched hle
  refine ⟨u, hrun, ?_⟩
  rw [hcalls]
  intro hnodup
  exact (List.nodup_append.mp hnodup).2.2 p hcalled p List.mem_cons_self rfl

/-- In a run in which no normal `Read` stops short of the mark of an urgent
byte already fetched, no urgent byte is asked for twice; and after one that
does, it is so in the next pass of the loop. -/
theorem recvOob_once (s : State) :
    ((system.restrict ReadsPastMark).Reachable s → s.calls.Nodup) ∧
      (system.Reachable s → ∀ (t : State) (n : Nat),
        s.step (.read n) = some t → ¬ReadsPastMark s (.read n) →
          ∃ u, system.run t [.arm, .select, .testX] = some u ∧
            ¬u.calls.Nodup) := by
  constructor
  · intro hs
    exact (restrict_inv hs).nodup
  · intro hs t n hstep hshort
    exact read_short_of_mark hs hstep hshort

def farMark : List Act :=
  [.net (.send (List.replicate 200 0)), .net (.sendOob 97), .net (.announce 200),
    .net (.arrive 201), .arm, .select, .testX, .read 99, .arm, .select, .testX]

theorem urgent_byte_twice :
    ¬∀ s : State, system.Reachable s → s.calls.Nodup := by
  intro hall
  have hmap : (system.run .start farMark).map State.calls = some [200, 200] := by
    decide +kernel
  obtain ⟨s, hrun, hcalls⟩ := Option.map_eq_some_iff.mp hmap
  have hnodup := hall s ⟨farMark, _, rfl, hrun⟩
  rw [hcalls] at hnodup
  exact absurd hnodup (by decide)

end MyUnp.UrgentReceiver
