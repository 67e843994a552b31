import MyUnp.UrgentSelect

namespace MyUnp.UrgentSignal

open MyUnp.TransitionSystem
open MyUnp.Unp
open MyUnp.UrgentReader
open MyUnp.UrgentReceiver
open MyUnp.UrgentSelect
open MyUnp.UrgentStream

/-- `main` of `tcp_urg_receiver.c` before `F_SETOWN`, in `Read`, or before the `printf`
of what it read. -/
inductive Pc where
  | setown
  | read
  | print (bytes : List Byte)
  deriving DecidableEq

/-- "SIGURG received", or what has been read and printed. -/
inductive Out where
  | sigurg
  | event (e : Event)
  deriving DecidableEq

def Out.data : Out → List Byte
  | .sigurg => []
  | .event e => e.data

/-- The line printed. That of `main` names its bytes otherwise than the receivers with
`select` do. -/
def Out.text : Out → List Byte
  | .sigurg => Decimal.bytes "SIGURG received" ++ [newline]
  | .event (.normal bytes) => printRead "bytes" bytes
  | .event e => e.text

structure State where
  pc : Pc
  inHandler : Bool
  pending : Bool
  exited : Bool
  conn : Conn
  log : List Out
  deriving DecidableEq

def State.start : State := ⟨.setown, false, false, false, .start, []⟩

inductive Act where
  | net (a : NetAct)
  | setown
  | read (n : Nat)
  | print
  | eof
  | deliver
  | recv
  deriving DecidableEq

/-- The process is sent `SIGURG` for an announcement if it owns the socket. -/
def State.net (s : State) (a : NetAct) (c : Conn) : State :=
  { s with
    conn := c
    pending := s.pending || (announces a && decide (s.pc ≠ .setown)) }

/-- The handler's `Recv(MSG_OOB)`: it fails, and the wrapper exits, where there is
no urgent byte, it was fetched or passed, or it has not arrived. -/
def State.recvOob (s : State) : State :=
  match s.conn.mark with
  | none => { s with exited := true }
  | some p =>
      if s.conn.fetched = false ∧ s.conn.read ≤ p ∧ p < s.conn.arrived then
        { s with
          inHandler := false
          conn := { s.conn with fetched := true }
          log := s.log ++ [.event (.oob (s.conn.stream.getD p 0))] }
      else { s with exited := true }

def State.inMain (s : State) (pc : Pc) : Prop :=
  s.pc = pc ∧ s.inHandler = false ∧ s.exited = false

instance (s : State) (pc : Pc) : Decidable (s.inMain pc) :=
  inferInstanceAs (Decidable (_ ∧ _ ∧ _))

/-- The handler runs to its end; meanwhile a second signal waits. -/
def State.step (s : State) : Act → Option State
  | .net a => (s.conn.netStep a).map (s.net a)
  | .setown => if s.inMain .setown then some { s with pc := .read } else none
  | .read n =>
      if s.inMain .read ∧ 0 < n ∧ n ≤ bufRoom ∧ n ≤ s.conn.available then
        some { s with
          pc := .print ((s.conn.stream.drop s.conn.next).take n)
          conn := reads s.conn n }
      else none
  | .print =>
      match s.pc with
      | .print bytes =>
          if s.inMain (.print bytes) then
            some { s with
              pc := .read
              log := s.log ++ [.event (.normal bytes)] }
          else none
      | _ => none
  | .eof =>
      if s.inMain .read ∧ s.conn.available = 0 ∧ s.conn.fin = true then
        some { s with exited := true, log := s.log ++ [.event .eof] }
      else none
  | .deliver =>
      if s.pending = true ∧ s.inHandler = false ∧ s.exited = false then
        some { s with
          inHandler := true
          pending := false
          log := s.log ++ [.sigurg] }
      else none
  | .recv =>
      if s.inHandler = true ∧ s.exited = false then some s.recvOob else none

def system : System State Act where
  init s := s = .start
  step := State.step

theorem print_eq_some {s t : State} (h : system.step s .print = some t) :
    ∃ bytes, s.inMain (.print bytes) ∧
      { s with pc := .read, log := s.log ++ [.event (.normal bytes)] } = t := by
  change s.step .print = some t at h
  rw [State.step] at h
  split at h
  · rename_i bytes hpc
    exact ⟨bytes, guard_eq_some.mp h⟩
  · simp at h

theorem recvOob_cases (s : State) :
    s.recvOob = { s with exited := true } ∨
      ∃ p, s.conn.mark = some p ∧
        (s.conn.fetched = false ∧ s.conn.read ≤ p ∧ p < s.conn.arrived) ∧
        s.recvOob = { s with
          inHandler := false
          conn := { s.conn with fetched := true }
          log := s.log ++ [.event (.oob (s.conn.stream.getD p 0))] } := by
  rw [State.recvOob]
  split
  · exact .inl rfl
  · rename_i p hmark
    split
    · rename_i hcan
      exact .inr ⟨p, hmark, hcan, rfl⟩
    · exact .inl rfl

def events (os : List Out) : List Event :=
  os.flatMap fun
    | .sigurg => []
    | .event e => [e]

@[simp] theorem events_event (os : List Out) (e : Event) :
    events (os ++ [.event e]) = events os ++ [e] := by
  simp [events]

@[simp] theorem events_sigurg (os : List Out) : events (os ++ [.sigurg]) = events os := by
  simp [events]

/-- The normal data, with what `main` has read and not printed yet. -/
def State.data (s : State) : List Byte :=
  normals (events s.log) ++
    match s.pc with
    | .print bytes => bytes
    | _ => []

def netOf : Act → Option NetAct
  | .net a => some a
  | _ => none

def receives : Receives system netOf where
  abs s := ⟨s.conn, s.data, oobs (events s.log), decide (.eof ∈ events s.log),
    s.exited⟩
  init := by
    rintro s rfl
    rfl
  step := by
    intro s a t hstep
    cases a with
    | net a =>
        obtain ⟨c, hnet, rfl⟩ := Option.map_eq_some_iff.mp hstep
        refine .inr ⟨.net a, by simp [netOf], ?_⟩
        simp [reader, Reader.step, State.net, State.data, hnet]
    | setown =>
        obtain ⟨⟨hpc, -, -⟩, rfl⟩ := guard_eq_some.mp hstep
        exact .inl (by simp [State.data, hpc])
    | read n =>
        obtain ⟨⟨⟨hpc, -, hexited⟩, hpos, -, havail⟩, rfl⟩ := guard_eq_some.mp hstep
        refine .inr ⟨.read n, by simp, ?_⟩
        simp [reader, Reader.step, State.data, hpc, hexited, hpos, havail]
    | print =>
        obtain ⟨bytes, ⟨hpc, -, -⟩, rfl⟩ := print_eq_some hstep
        exact .inl (by simp [State.data, hpc])
    | eof =>
        obtain ⟨⟨⟨hpc, -, hexited⟩, havail, hfin⟩, rfl⟩ := guard_eq_some.mp hstep
        refine .inr ⟨.eof, by simp, ?_⟩
        simp [reader, Reader.step, State.data, hpc, hexited, havail, hfin]
    | deliver =>
        obtain ⟨-, rfl⟩ := guard_eq_some.mp hstep
        exact .inl (by simp [State.data])
    | recv =>
        obtain ⟨⟨-, hexited⟩, rfl⟩ := guard_eq_some.mp hstep
        rcases recvOob_cases s with heq | ⟨p, hmark, ⟨hfetched, -, harrived⟩, heq⟩
        · rw [heq]
          exact .inr ⟨.quit, by simp, rfl⟩
        · rw [heq]
          refine .inr ⟨.fetch, by simp, ?_⟩
          simp [reader, Reader.step, State.data, hmark, hfetched, harrived, hexited]

theorem text_of_law {s : State} (h : Law (receives.abs s)) (hnul : 0 ∉ s.conn.stream) :
    ∀ o ∈ s.log, o.data <:+: o.text := by
  obtain ⟨hdata, hoob⟩ := h.zero_not_mem hnul
  intro o ho
  cases o with
  | sigurg => exact List.nil_infix
  | event e =>
      have he : e ∈ events s.log := List.mem_flatMap.mpr ⟨_, ho, List.mem_singleton_self e⟩
      have hzero : 0 ∉ e.data :=
        zero_not_mem_data (fun hmem => hdata (List.mem_append_left _ hmem)) hoob he
      cases e with
      | normal bytes => exact printRead_infix _ hzero
      | oob b => exact text_infix hzero
      | eof => exact text_infix hzero

/-- No urgent byte is announced while the handler runs, and the byte is there and
not passed when the handler is entered. -/
def Heeds (s : State) : Act → Prop
  | .net a => announces a = true → s.inHandler = false
  | .deliver => ∀ p ∈ s.conn.mark, s.conn.read ≤ p ∧ p < s.conn.arrived
  | _ => True

instance (s : State) (a : Act) : Decidable (Heeds s a) := by
  unfold Heeds
  split <;> infer_instance

/-- A signal stands for an urgent byte that was not fetched yet, and the handler
finds it. -/
structure Alive (s : State) : Prop where
  pending : s.pending = true → ∃ p, s.conn.mark = some p ∧ s.conn.fetched = false
  handler : s.inHandler = true → s.pending = false ∧ ∃ p, s.conn.mark = some p ∧
    (s.conn.fetched = false ∧ s.conn.read ≤ p ∧ p < s.conn.arrived)
  signals : s.log.count .sigurg =
    (oobs (events s.log)).length + s.inHandler.toNat
  exited : s.exited = true → .eof ∈ events s.log

theorem Alive.net {s : State} {a : NetAct} {c : Conn} (h : Alive s)
    (hheeds : Heeds s (.net a)) (hnet : s.conn.netStep a = some c) :
    Alive (s.net a c) := by
  have hgrows := netStep_grows hnet
  rcases netStep_mark hnet with ⟨hquiet, hmark, hfetched⟩ | ⟨p, rfl, hmark, hfetched⟩
  · have hpending : (s.net a c).pending = s.pending := by simp [State.net, hquiet]
    refine ⟨?_, ?_, h.signals, h.exited⟩
    · rw [hpending]
      intro hsignal
      obtain ⟨q, hq, hfresh⟩ := h.pending hsignal
      exact ⟨q, hmark.trans hq, hfetched.trans hfresh⟩
    · rw [hpending]
      intro hin
      obtain ⟨hnone, q, hq, hfresh, hahead, harrived⟩ := h.handler hin
      refine ⟨hnone, q, hmark.trans hq, hfetched.trans hfresh, ?_, ?_⟩
      · show c.read ≤ q
        rw [hgrows.read]
        exact hahead
      · exact Nat.lt_of_lt_of_le harrived hgrows.arrived
  · refine ⟨fun _ => ⟨p, hmark, hfetched⟩, ?_, h.signals, h.exited⟩
    intro hin
    have hout : s.inHandler = false := hheeds rfl
    rw [show s.inHandler = true from hin] at hout
    simp at hout

theorem Alive.step {s t : State} {a : Act} (h : Alive s) (hheeds : Heeds s a)
    (hstep : system.step s a = some t) : Alive t := by
  cases a with
  | net a =>
      obtain ⟨c, hnet, rfl⟩ := Option.map_eq_some_iff.mp hstep
      exact h.net hheeds hnet
  | setown =>
      obtain ⟨-, rfl⟩ := guard_eq_some.mp hstep
      exact ⟨h.pending, h.handler, h.signals, h.exited⟩
  | read n =>
      obtain ⟨⟨⟨-, hin, -⟩, -⟩, rfl⟩ := guard_eq_some.mp hstep
      refine ⟨h.pending, ?_, h.signals, h.exited⟩
      intro hbad
      rw [show s.inHandler = true from hbad] at hin
      simp at hin
  | print =>
      obtain ⟨bytes, ⟨-, hin, hexited⟩, rfl⟩ := print_eq_some hstep
      refine ⟨h.pending, ?_, ?_, ?_⟩
      · intro hbad
        rw [show s.inHandler = true from hbad] at hin
        simp at hin
      · simpa using h.signals
      · intro hbad
        rw [show s.exited = true from hbad] at hexited
        simp at hexited
  | eof =>
      obtain ⟨⟨⟨-, hin, -⟩, -⟩, rfl⟩ := guard_eq_some.mp hstep
      refine ⟨h.pending, ?_, ?_, fun _ => by simp⟩
      · intro hbad
        rw [show s.inHandler = true from hbad] at hin
        simp at hin
      · simpa using h.signals
  | deliver =>
      obtain ⟨⟨hpending, hin, hexited⟩, rfl⟩ := guard_eq_some.mp hstep
      refine ⟨nofun, ?_, ?_, ?_⟩
      · intro _
        obtain ⟨p, hmark, hfetched⟩ := h.pending hpending
        exact ⟨rfl, p, hmark, hfetched, hheeds p hmark⟩
      · have hsignals := h.signals
        rw [hin] at hsignals
        simpa using hsignals
      · intro hbad
        rw [show s.exited = true from hbad] at hexited
        simp at hexited
  | recv =>
      obtain ⟨⟨hin, hexited⟩, rfl⟩ := guard_eq_some.mp hstep
      obtain ⟨hnone, p, hmark, hcan⟩ := h.handler hin
      have hsignals := h.signals
      rw [hin] at hsignals
      simp only [State.recvOob, hmark, if_pos hcan]
      refine ⟨?_, nofun, ?_, ?_⟩
      · intro hbad
        rw [show s.pending = true from hbad] at hnone
        simp at hnone
      · simpa using hsignals
      · intro hbad
        rw [show s.exited = true from hbad] at hexited
        simp at hexited

theorem restrict_alive {s : State} (hs : (system.restrict Heeds).Reachable s) :
    Alive s := by
  refine System.Reachable.restrict_invariant (P := Alive) ?_ ?_ hs
  · rintro s rfl
    exact ⟨nofun, nofun, rfl, nofun⟩
  · intro s a t _ hheeds h hstep
    exact h.step hheeds hstep

theorem handler_exits {s : State} (hpending : s.pending = true)
    (hin : s.inHandler = false) (hexited : s.exited = false)
    (hcannot : ∀ p ∈ s.conn.mark,
      ¬(s.conn.fetched = false ∧ s.conn.read ≤ p ∧ p < s.conn.arrived)) :
    ∃ t, system.run s [.deliver, .recv] = some t ∧ t.exited = true ∧
      events t.log = events s.log := by
  have hdeliver : system.step s .deliver =
      some { s with
        inHandler := true
        pending := false
        log := s.log ++ [.sigurg] } :=
    guard_eq_some.mpr ⟨⟨hpending, hin, hexited⟩, rfl⟩
  have hrecv : system.step
      { s with inHandler := true, pending := false, log := s.log ++ [.sigurg] }
        .recv = some { s with
          inHandler := true
          pending := false
          exited := true
          log := s.log ++ [.sigurg] } := by
    cases hmark : s.conn.mark with
    | none => simp [system, State.step, State.recvOob, hmark, hexited]
    | some p => simp [system, State.step, State.recvOob, hmark, hexited, hcannot p hmark]
  have hrun := System.run_cons_of_step hrecv []
  rw [← System.run_cons_of_step hdeliver] at hrun
  exact ⟨_, hrun, rfl, by simp⟩

/-- In every run the normal data read is the stream in its order without some of the
urgent bytes, the stream without all of them where each is announced when those before it
have been passed; the urgent bytes fetched are in their order and none twice; and all of
it is printed, as far as no NUL ends the string. In a run in which no urgent byte is
announced while the handler runs, and the handler is entered only with the byte there and
not passed, each "SIGURG received" is followed by its byte and the process ends only at
end of file; where the handler is entered for a byte that was fetched, passed or has not
arrived, and nothing happens before its `Recv`, the process ends. -/
theorem sigurg_receiver_fate (s : State) :
    (system.Reachable s →
      Normal s.conn s.data ∧ Fetches s.conn (oobs (events s.log)) ∧
        (0 ∉ s.conn.stream → ∀ o ∈ s.log, o.data <:+: o.text) ∧
        (s.pending = true → s.inHandler = false → s.exited = false →
          (∀ p ∈ s.conn.mark,
            ¬(s.conn.fetched = false ∧ s.conn.read ≤ p ∧ p < s.conn.arrived)) →
          ∃ t, system.run s [.deliver, .recv] = some t ∧ t.exited = true ∧
            .eof ∉ events t.log)) ∧
      ((system.restrict receives.Apart).Reachable s →
        s.data = without s.conn.urgents 0 (s.conn.stream.take s.conn.read)) ∧
      ((system.restrict Heeds).Reachable s →
        s.log.count .sigurg =
            (oobs (events s.log)).length + s.inHandler.toNat ∧
          (s.exited = true → .eof ∈ events s.log)) := by
  refine ⟨fun hs => ?_, fun hs => (receives.cleanLaw hs).clean, fun hs => ?_⟩
  · have hlaw := receives.law hs
    refine ⟨hlaw.normal, hlaw.fetches, text_of_law hlaw, ?_⟩
    intro hpending hin hexited hcannot
    obtain ⟨t, hrun, ht, hevents⟩ := handler_exits hpending hin hexited hcannot
    refine ⟨t, hrun, ht, ?_⟩
    rw [hevents]
    exact fun heof => hlaw.running hexited (decide_eq_true heof)
  · have halive := restrict_alive hs
    exact ⟨halive.signals, halive.exited⟩

theorem sigurg_receiver_fate_sender : ∃ s : State, s.exited = true ∧
    .eof ∈ events s.log ∧
      s.log = [.event (.normal [49, 50, 51]), .sigurg, .event (.oob 52),
        .event (.normal [53, 54]), .event .eof] := by
  have hmap : ((system.restrict Heeds).run .start
      [.setown, .net (.send [49, 50, 51]), .net (.arrive 3), .read 3, .print,
        .net (.sendOob 52), .net (.announce 3), .net (.arrive 1), .deliver, .recv,
        .net (.send [53, 54]), .net (.arrive 2), .read 2, .print, .net .close,
        .net .arriveFin, .eof]).map (fun s => (s.exited, s.log)) =
      some (true, [.event (.normal [49, 50, 51]), .sigurg, .event (.oob 52),
        .event (.normal [53, 54]), .event .eof]) := by
    decide +kernel
  obtain ⟨s, hrun, hfacts⟩ := Option.map_eq_some_iff.mp hmap
  obtain ⟨hexited, hlog⟩ := Prod.mk.inj hfacts
  have hfate := (sigurg_receiver_fate s).2.2 ⟨_, _, rfl, hrun⟩
  exact ⟨s, hexited, hfate.2 hexited, hlog⟩

end MyUnp.UrgentSignal
