import MyUnp.UrgentReader

namespace MyUnp.UrgentSelect

open MyUnp.TransitionSystem
open MyUnp.Unp
open MyUnp.UrgentReader
open MyUnp.UrgentReceiver
open MyUnp.UrgentStream

/-- `tcp_urg_select_receiver.c`, which asks `select` for the exception in every pass. -/
structure State where
  pc : Pc
  rset : Bool
  xset : Bool
  conn : Conn
  log : List Event
  deriving DecidableEq

def State.start : State := ⟨.head, false, false, .start, []⟩

/-- `Recv(MSG_OOB)` exits where there is no urgent byte, or it was fetched before,
or it has not arrived. -/
def State.recvOob (s : State) : State :=
  match s.conn.mark with
  | none => { s with pc := .exited }
  | some p =>
      if s.conn.fetched = false ∧ p < s.conn.arrived then
        { s with
          pc := .testR
          conn := { s.conn with fetched := true }
          log := s.log ++ [.oob (s.conn.stream.getD p 0)] }
      else { s with pc := .exited }

def State.step (s : State) : Act → Option State
  | .net a => (s.conn.netStep a).map fun c => { s with conn := c }
  | .arm =>
      if s.pc = .head then some { s with pc := .select, rset := true, xset := true }
      else none
  | .select =>
      if s.pc = .select ∧
          (s.rset && s.conn.readable || s.xset && s.conn.exceptional) = true then
        some { s with
          pc := .testX
          rset := s.rset && s.conn.readable
          xset := s.xset && s.conn.exceptional }
      else none
  | .testX =>
      if s.pc = .testX then
        some (if s.xset = true then s.recvOob else { s with pc := .testR })
      else none
  | .read n =>
      if s.pc = .testR ∧ s.rset = true ∧ 0 < n ∧ n ≤ bufRoom ∧
          n ≤ s.conn.available then
        some { s with
          pc := .head
          conn := reads s.conn n
          log := s.log ++
            [.normal ((s.conn.stream.drop s.conn.next).take n)] }
      else none
  | .eof =>
      if s.pc = .testR ∧ s.rset = true ∧ s.conn.available = 0 ∧
          s.conn.fin = true then
        some { s with pc := .exited, log := s.log ++ [.eof] }
      else none
  | .skip =>
      if s.pc = .testR ∧ s.rset = false then some { s with pc := .head } else none

def system : System State Act where
  init s := s = .start
  step := State.step

theorem recvOob_cases (s : State) :
    s.recvOob = { s with pc := .exited } ∨
      ∃ p, s.conn.mark = some p ∧ s.conn.fetched = false ∧ p < s.conn.arrived ∧
        s.recvOob = { s with
          pc := .testR
          conn := { s.conn with fetched := true }
          log := s.log ++ [.oob (s.conn.stream.getD p 0)] } := by
  rw [State.recvOob]
  split
  · exact .inl rfl
  · rename_i p hmark
    split
    · rename_i hcan
      exact .inr ⟨p, hmark, hcan.1, hcan.2, rfl⟩
    · exact .inl rfl

/-- The normal and the urgent bytes that a receiver has read. -/
def normals (ls : List Event) : List Byte :=
  ls.flatMap fun
    | .normal bytes => bytes
    | _ => []

def oobs (ls : List Event) : List Byte :=
  ls.flatMap fun
    | .oob b => [b]
    | _ => []

@[simp] theorem normals_normal (ls : List Event) (bytes : List Byte) :
    normals (ls ++ [.normal bytes]) = normals ls ++ bytes := by
  simp [normals]

@[simp] theorem normals_oob (ls : List Event) (b : Byte) :
    normals (ls ++ [.oob b]) = normals ls := by
  simp [normals]

@[simp] theorem normals_eof (ls : List Event) : normals (ls ++ [.eof]) = normals ls := by
  simp [normals]

@[simp] theorem oobs_normal (ls : List Event) (bytes : List Byte) :
    oobs (ls ++ [.normal bytes]) = oobs ls := by
  simp [oobs]

@[simp] theorem oobs_oob (ls : List Event) (b : Byte) :
    oobs (ls ++ [.oob b]) = oobs ls ++ [b] := by
  simp [oobs]

@[simp] theorem oobs_eof (ls : List Event) : oobs (ls ++ [.eof]) = oobs ls := by
  simp [oobs]

theorem zero_not_mem_data {ls : List Event} (hnormal : 0 ∉ normals ls)
    (hoob : 0 ∉ oobs ls) {e : Event} (he : e ∈ ls) : 0 ∉ e.data := by
  intro hmem
  cases e with
  | oob b => exact hoob (List.mem_flatMap.mpr ⟨_, he, hmem⟩)
  | normal bytes => exact hnormal (List.mem_flatMap.mpr ⟨_, he, hmem⟩)
  | eof => cases hmem

def readerOf (c : Conn) (ls : List Event) (pc : Pc) : Reader :=
  ⟨c, normals ls, oobs ls, decide (.eof ∈ ls), decide (pc = .exited)⟩

def netOf : Act → Option NetAct
  | .net a => some a
  | _ => none

def receives : Receives system netOf where
  abs s := readerOf s.conn s.log s.pc
  init := by
    rintro s rfl
    rfl
  step := by
    intro s a t hstep
    cases a with
    | net a =>
        obtain ⟨c, hnet, rfl⟩ := Option.map_eq_some_iff.mp hstep
        refine .inr ⟨.net a, by simp [netOf], ?_⟩
        simp [readerOf, reader, Reader.step, hnet]
    | arm =>
        obtain ⟨hpc, rfl⟩ := guard_eq_some.mp hstep
        exact .inl (by simp [readerOf, hpc])
    | select =>
        obtain ⟨⟨hpc, -⟩, rfl⟩ := guard_eq_some.mp hstep
        exact .inl (by simp [readerOf, hpc])
    | testX =>
        obtain ⟨hpc, rfl⟩ := guard_eq_some.mp hstep
        split
        · rcases recvOob_cases s with heq | ⟨p, hmark, hfetched, harrived, heq⟩
          · rw [heq]
            exact .inr ⟨.quit, by simp, rfl⟩
          · rw [heq]
            refine .inr ⟨.fetch, by simp, ?_⟩
            simp [readerOf, reader, Reader.step, hmark, hfetched, harrived, hpc]
        · exact .inl (by simp [readerOf, hpc])
    | read n =>
        obtain ⟨⟨hpc, -, hpos, -, havail⟩, rfl⟩ := guard_eq_some.mp hstep
        refine .inr ⟨.read n, by simp, ?_⟩
        simp [readerOf, reader, Reader.step, hpc, hpos, havail]
    | eof =>
        obtain ⟨⟨hpc, -, havail, hfin⟩, rfl⟩ := guard_eq_some.mp hstep
        refine .inr ⟨.eof, by simp, ?_⟩
        simp [readerOf, reader, Reader.step, hpc, havail, hfin]
    | skip =>
        obtain ⟨⟨hpc, -⟩, rfl⟩ := guard_eq_some.mp hstep
        exact .inl (by simp [readerOf, hpc])

theorem text_of_law {c : Conn} {ls : List Event} {pc : Pc} (h : Law (readerOf c ls pc))
    (hnul : 0 ∉ c.stream) : ∀ e ∈ ls, e.data <:+: e.text := by
  intro e he
  obtain ⟨hnormal, hoob⟩ := h.zero_not_mem hnul
  exact text_infix (zero_not_mem_data hnormal hoob he)

theorem running {s : State} (hs : system.Reachable s) {pc : Pc} (hpc : s.pc = pc)
    (hne : pc ≠ .exited) : .eof ∉ s.log :=
  fun heof => (receives.law hs).running (decide_eq_false (hpc ▸ hne)) (decide_eq_true heof)

/-- No `select` begins with the urgent byte fetched and its mark not passed, and no
`Recv(MSG_OOB)` comes before the byte itself. -/
def Heeds (s : State) : Act → Prop
  | .select => ∀ p ∈ s.conn.mark, s.conn.fetched = true → p < s.conn.read
  | .testX => s.xset = true → ∀ p ∈ s.conn.mark, p < s.conn.arrived
  | _ => True

instance (s : State) (a : Act) : Decidable (Heeds s a) := by
  unfold Heeds
  split <;> infer_instance

structure Alive (s : State) : Prop where
  fresh : s.pc = .testX → s.xset = true →
    ∃ p, s.conn.mark = some p ∧ s.conn.fetched = false
  exited : s.pc = .exited → .eof ∈ s.log

theorem Alive.step {s t : State} {a : Act} (h : Alive s) (hheeds : Heeds s a)
    (hstep : system.step s a = some t) : Alive t := by
  cases a with
  | net a =>
      obtain ⟨c, hnet, rfl⟩ := Option.map_eq_some_iff.mp hstep
      refine ⟨?_, h.exited⟩
      intro hpc hxset
      obtain ⟨p, hmark, hfetched⟩ := h.fresh hpc hxset
      obtain ⟨-, ⟨hsame, hold⟩ | ⟨q, hnew, hunfetched, -⟩⟩ := Conn.netStep_cases hnet
      · exact ⟨p, hsame.trans hmark, hold.trans hfetched⟩
      · exact ⟨q, hnew, hunfetched⟩
  | arm =>
      obtain ⟨-, rfl⟩ := guard_eq_some.mp hstep
      exact ⟨nofun, nofun⟩
  | select =>
      obtain ⟨-, rfl⟩ := guard_eq_some.mp hstep
      refine ⟨?_, nofun⟩
      intro _ hxset
      obtain ⟨-, hexc⟩ := (Bool.and_eq_true _ _).mp hxset
      obtain ⟨p, hp, hle⟩ := (Option.any_eq_true _ _).mp hexc
      refine ⟨p, hp, ?_⟩
      by_contra hfetched
      have hpassed := hheeds p hp (by simpa using hfetched)
      exact absurd hpassed (Nat.not_lt.mpr (of_decide_eq_true hle))
  | testX =>
      obtain ⟨hpc, rfl⟩ := guard_eq_some.mp hstep
      split
      · rename_i hxset
        obtain ⟨p, hmark, hfetched⟩ := h.fresh hpc hxset
        have hcan : s.conn.fetched = false ∧ p < s.conn.arrived :=
          ⟨hfetched, hheeds hxset p hmark⟩
        simp only [State.recvOob, hmark, if_pos hcan]
        exact ⟨nofun, nofun⟩
      · exact ⟨nofun, nofun⟩
  | read n =>
      obtain ⟨-, rfl⟩ := guard_eq_some.mp hstep
      exact ⟨nofun, nofun⟩
  | eof =>
      obtain ⟨-, rfl⟩ := guard_eq_some.mp hstep
      exact ⟨nofun, fun _ => List.mem_append_right _ (List.mem_singleton_self _)⟩
  | skip =>
      obtain ⟨-, rfl⟩ := guard_eq_some.mp hstep
      exact ⟨nofun, nofun⟩

theorem restrict_alive {s : State} (hs : (system.restrict Heeds).Reachable s) :
    Alive s := by
  refine System.Reachable.restrict_invariant (P := Alive) ?_ ?_ hs
  · rintro s rfl
    exact ⟨nofun, nofun⟩
  · intro s a t _ hheeds h hstep
    exact h.step hheeds hstep

theorem select_not_heeded {s : State} (hpc : s.pc = .select) {p : Nat}
    (hxset : s.xset = true) (hmark : s.conn.mark = some p)
    (hfetched : s.conn.fetched = true) (hle : s.conn.read ≤ p) :
    ∃ t, system.run s [.select, .testX] = some t ∧ t.pc = .exited ∧
      t.log = s.log := by
  have hexc : s.conn.exceptional = true := by simp [Conn.exceptional, hmark, hle]
  have hselect : system.step s .select =
      some { s with pc := .testX, rset := s.rset && s.conn.readable, xset := true } := by
    simp [system, State.step, hpc, hxset, hexc]
  have htest : system.step
      { s with pc := .testX, rset := s.rset && s.conn.readable, xset := true } .testX =
        some { s with
          pc := .exited
          rset := s.rset && s.conn.readable
          xset := true } := by
    simp [system, State.step, State.recvOob, hmark, hfetched]
  have hrun := System.run_cons_of_step htest []
  rw [← System.run_cons_of_step hselect] at hrun
  exact ⟨_, hrun, rfl, rfl⟩

theorem armed {s : State} (hs : system.Reachable s) (hpc : s.pc = .select) :
    s.xset = true := by
  refine hs.invariant (P := fun s => s.pc = .select → s.xset = true) ?_ ?_ hpc
  · rintro s rfl
    exact nofun
  · intro s a t _ h hstep
    cases a with
    | net a =>
        obtain ⟨c, -, rfl⟩ := Option.map_eq_some_iff.mp hstep
        exact h
    | arm =>
        obtain ⟨-, rfl⟩ := guard_eq_some.mp hstep
        exact fun _ => rfl
    | select =>
        obtain ⟨-, rfl⟩ := guard_eq_some.mp hstep
        exact nofun
    | testX =>
        obtain ⟨-, rfl⟩ := guard_eq_some.mp hstep
        split
        · rcases recvOob_cases s with heq | ⟨p, -, -, -, heq⟩ <;> rw [heq] <;>
            exact nofun
        · exact nofun
    | read n =>
        obtain ⟨-, rfl⟩ := guard_eq_some.mp hstep
        exact nofun
    | eof =>
        obtain ⟨-, rfl⟩ := guard_eq_some.mp hstep
        exact nofun
    | skip =>
        obtain ⟨-, rfl⟩ := guard_eq_some.mp hstep
        exact nofun

/-- In every run the receiver reads as normal data the stream in its order
without some of the urgent bytes, all of it at end of file, and of the urgent
bytes those it fetches, in their order and none twice; the stream without all of
them where each is announced when those before it have been passed. It prints all
that it reads, as far as no NUL ends the string. In a run in which no `select`
begins between a fetched byte and its mark, and every byte is there when it is
asked for, it ends only at end of file; a `select` that does begin there, if
nothing happens before the `Recv`, and a call that comes too early end the
process. -/
theorem select_receiver_fate (s : State) :
    (system.Reachable s →
      Normal s.conn (normals s.log) ∧ Fetches s.conn (oobs s.log) ∧
        (.eof ∈ s.log → ∃ skipped, (∀ u ∈ skipped, u ∈ s.conn.urgents) ∧
          normals s.log = without skipped 0 s.conn.stream) ∧
        (0 ∉ s.conn.stream → ∀ e ∈ s.log, e.data <:+: e.text) ∧
        (s.pc = .select → ¬Heeds s .select →
          ∃ t, system.run s [.select, .testX] = some t ∧ t.pc = .exited ∧
            .eof ∉ t.log) ∧
        (s.pc = .testX → ¬Heeds s .testX →
          ∃ t, system.step s .testX = some t ∧ t.pc = .exited ∧
            .eof ∉ t.log)) ∧
      ((system.restrict receives.Apart).Reachable s →
        normals s.log =
          without s.conn.urgents 0 (s.conn.stream.take s.conn.read)) ∧
      ((system.restrict Heeds).Reachable s → s.pc = .exited → .eof ∈ s.log) := by
  refine ⟨?_, fun hs => (receives.cleanLaw hs).clean, fun hs => (restrict_alive hs).exited⟩
  · intro hs
    have hlaw := receives.law hs
    refine ⟨hlaw.normal, hlaw.fetches, ?_, text_of_law hlaw, ?_, ?_⟩
    · exact fun heof => (hlaw.ended (decide_eq_true heof)).2.2
    · intro hpc hnot
      simp only [Heeds, not_forall] at hnot
      obtain ⟨p, hmark, hfetched, hlt⟩ := hnot
      obtain ⟨t, hrun, hexited, hlog⟩ := select_not_heeded hpc (armed hs hpc) hmark
        hfetched (Nat.not_lt.mp hlt)
      refine ⟨t, hrun, hexited, ?_⟩
      rw [hlog]
      exact running hs hpc (by decide)
    · intro hpc hnot
      simp only [Heeds, not_forall] at hnot
      obtain ⟨hxset, p, hmark, hlt⟩ := hnot
      have hcannot : ¬(s.conn.fetched = false ∧ p < s.conn.arrived) :=
        fun hcan => hlt hcan.2
      have heof := running hs hpc (by decide)
      refine ⟨{ s with pc := .exited }, ?_, rfl, heof⟩
      refine guard_eq_some.mpr ⟨hpc, ?_⟩
      rw [if_pos hxset, State.recvOob, show s.conn.mark = some p from hmark]
      exact if_neg hcannot

theorem select_receiver_fate_first : ∃ s : State, s.pc = .exited ∧
    .eof ∈ s.log ∧ s.log = [.oob 52, .normal [53], .eof] := by
  have hmap : ((system.restrict Heeds).run .start
      [.net (.sendOob 52), .net (.send [53]), .net (.announce 0), .net (.arrive 2),
        .arm, .select, .testX, .read 1, .net .close, .net .arriveFin, .arm, .select,
        .testX, .eof]).map (fun s => (s.pc, s.log)) =
      some (.exited, [.oob 52, .normal [53], .eof]) := by
    decide +kernel
  obtain ⟨s, hrun, hfacts⟩ := Option.map_eq_some_iff.mp hmap
  obtain ⟨hpc, hlog⟩ := Prod.mk.inj hfacts
  exact ⟨s, hpc, (select_receiver_fate s).2.2 ⟨_, _, rfl, hrun⟩ hpc, hlog⟩

theorem recvOob2_cases (s : UrgentReceiver.State) :
    (s.recvOob.pc = .exited ∧ s.recvOob.conn = s.conn ∧
        s.recvOob.log = s.log) ∨
      ∃ p, s.conn.mark = some p ∧ s.conn.fetched = false ∧ p < s.conn.arrived ∧
        s.recvOob.pc = .testR ∧ s.recvOob.conn = { s.conn with fetched := true } ∧
        s.recvOob.log = s.log ++ [.oob (s.conn.stream.getD p 0)] := by
  rw [UrgentReceiver.State.recvOob]
  split
  · exact .inl ⟨rfl, rfl, rfl⟩
  · rename_i p hmark
    split
    · rename_i hcan
      exact .inr ⟨p, hmark, hcan.1, hcan.2, rfl, rfl, rfl⟩
    · exact .inl ⟨rfl, rfl, rfl⟩

/-- `tcp_urg_select_receiver2.c`, which does not ask for the exception between the
fetch of an urgent byte and the next normal `Read`. -/
def receives2 : Receives UrgentReceiver.system netOf where
  abs s := readerOf s.conn s.log s.pc
  init := by
    rintro s rfl
    rfl
  step := by
    intro s a t hstep
    cases a with
    | net a =>
        obtain ⟨c, hnet, rfl⟩ := Option.map_eq_some_iff.mp hstep
        refine .inr ⟨.net a, by simp [netOf], ?_⟩
        simp [readerOf, reader, Reader.step, hnet]
    | arm =>
        obtain ⟨hpc, rfl⟩ := guard_eq_some.mp hstep
        exact .inl (by simp [readerOf, hpc])
    | select =>
        obtain ⟨⟨hpc, -⟩, rfl⟩ := guard_eq_some.mp hstep
        exact .inl (by simp [readerOf, hpc])
    | testX =>
        obtain ⟨hpc, rfl⟩ := guard_eq_some.mp hstep
        split
        · rcases recvOob2_cases s with
            ⟨hexit, hconn, hlog⟩ | ⟨p, hmark, hfetched, harrived, hto, hconn, hlog⟩
          · refine .inr ⟨.quit, by simp, ?_⟩
            simp [readerOf, reader, Reader.step, hexit, hconn, hlog]
          · refine .inr ⟨.fetch, by simp, ?_⟩
            simp [readerOf, reader, Reader.step, hmark, hfetched, harrived, hpc, hto,
              hconn, hlog]
        · exact .inl (by simp [readerOf, hpc])
    | read n =>
        obtain ⟨⟨hpc, -, hpos, -, havail⟩, rfl⟩ := guard_eq_some.mp hstep
        refine .inr ⟨.read n, by simp, ?_⟩
        simp [readerOf, reader, Reader.step, hpc, hpos, havail, reads]
    | eof =>
        obtain ⟨⟨hpc, -, havail, hfin⟩, rfl⟩ := guard_eq_some.mp hstep
        refine .inr ⟨.eof, by simp, ?_⟩
        simp [readerOf, reader, Reader.step, hpc, havail, hfin]
    | skip =>
        obtain ⟨⟨hpc, -⟩, rfl⟩ := guard_eq_some.mp hstep
        exact .inl (by simp [readerOf, hpc])

/-- In every run of the second receiver the normal data read is the stream in
its order without some of the urgent bytes, all of it at end of file, and the
urgent bytes read are in their order and none twice. Where each is announced
when those before it have been passed, the normal data is the stream without all
of them. -/
theorem select_receiver2_data (s : UrgentReceiver.State) :
    (UrgentReceiver.system.Reachable s →
      Normal s.conn (normals s.log) ∧ Fetches s.conn (oobs s.log) ∧
        (.eof ∈ s.log → ∃ skipped, (∀ u ∈ skipped, u ∈ s.conn.urgents) ∧
          normals s.log = without skipped 0 s.conn.stream) ∧
        (0 ∉ s.conn.stream → ∀ e ∈ s.log, e.data <:+: e.text)) ∧
      ((UrgentReceiver.system.restrict receives2.Apart).Reachable s →
        normals s.log =
            without s.conn.urgents 0 (s.conn.stream.take s.conn.read) ∧
          (.eof ∈ s.log →
            normals s.log = without s.conn.urgents 0 s.conn.stream)) := by
  constructor
  · intro hs
    have hlaw := receives2.law hs
    exact ⟨hlaw.normal, hlaw.fetches,
      fun heof => (hlaw.ended (decide_eq_true heof)).2.2, text_of_law hlaw⟩
  · intro hs
    have hclean := receives2.cleanLaw hs
    exact ⟨hclean.clean, fun heof => hclean.ended (decide_eq_true heof)⟩

theorem select_receiver2_data_sender06 : ∃ s : UrgentReceiver.State,
    Normal s.conn (normals s.log) ∧ s.conn.urgents = [3, 5] ∧
      s.log = [.oob 54, .normal [49, 50, 51, 52, 53]] := by
  have hmap : (UrgentReceiver.system.run .start
      [.net (.send [49, 50, 51]), .net (.sendOob 52), .net (.send [53]),
        .net (.announce 3), .net (.sendOob 54), .net (.announce 5),
        .net (.send [55]), .net (.arrive 7), .arm, .select, .testX, .read 5]).map
          (fun s => (s.conn.urgents, s.log)) =
      some ([3, 5], [.oob 54, .normal [49, 50, 51, 52, 53]]) := by
    decide +kernel
  obtain ⟨s, hrun, hfacts⟩ := Option.map_eq_some_iff.mp hmap
  obtain ⟨hurgents, hlog⟩ := Prod.mk.inj hfacts
  exact ⟨s, ((select_receiver2_data s).1 ⟨_, _, rfl, hrun⟩).1, hurgents, hlog⟩

end MyUnp.UrgentSelect
