import MyUnp.UrgentStream

namespace MyUnp.UrgentInline

open MyUnp.TransitionSystem
open MyUnp.Unp
open MyUnp.UrgentReceiver
open MyUnp.UrgentStream

def sockatmark (c : Conn) : Bool := c.mark = some c.read

/-- What a `Read` can return: the data up to the mark, or from it on. -/
def available (c : Conn) : Nat := c.limit - c.read

/-- The loop of `tcp_urg_receiver04.c`: before `Sockatmark`, or before `Read`. -/
inductive Pc where
  | sockatmark
  | read
  | exited
  deriving DecidableEq

inductive Event where
  | atMark
  | read (bytes : List Byte)
  | eof
  deriving DecidableEq

def Event.text : Event → List Byte
  | .atMark => Decimal.bytes "at OOB mark" ++ [newline]
  | .read bs => printRead "byte" bs
  | .eof => Decimal.bytes "received EOF" ++ [newline]

structure State where
  pc : Pc
  conn : Conn
  log : List Event
  deriving DecidableEq

def State.start : State := ⟨.sockatmark, .start, []⟩

inductive Act where
  | net (a : NetAct)
  | sockatmark
  | read (n : Nat)
  | eof
  deriving DecidableEq

def State.step (s : State) : Act → Option State
  | .net a => (s.conn.netStep a).map fun c => { s with conn := c }
  | .sockatmark =>
      if s.pc = .sockatmark then
        some { s with
          pc := .read
          log := if sockatmark s.conn then s.log ++ [.atMark] else s.log }
      else none
  | .read n =>
      if s.pc = .read ∧ 0 < n ∧ n ≤ bufRoom ∧ n ≤ available s.conn then
        some { s with
          pc := .sockatmark
          conn := { s.conn with read := s.conn.read + n }
          log := s.log ++ [.read ((s.conn.stream.drop s.conn.read).take n)] }
      else none
  | .eof =>
      if s.pc = .read ∧ available s.conn = 0 ∧ s.conn.fin = true then
        some { s with pc := .exited, log := s.log ++ [.eof] }
      else none

def system : System State Act where
  init s := s = .start
  step := State.step

def Event.bytes : Event → List Byte
  | .read bs => bs
  | _ => []

def shown (ls : List Event) : List Byte := ls.flatMap Event.bytes

/-- Where in the data each "at OOB mark" stands. -/
def marksFrom : Nat → List Event → List Nat
  | _, [] => []
  | k, .atMark :: ls => k :: marksFrom k ls
  | k, .read bs :: ls => marksFrom (k + bs.length) ls
  | k, .eof :: ls => marksFrom k ls

def marks (ls : List Event) : List Nat := marksFrom 0 ls

@[simp] theorem shown_append (ls ms : List Event) :
    shown (ls ++ ms) = shown ls ++ shown ms := List.flatMap_append

@[simp] theorem shown_single (l : Event) : shown [l] = l.bytes := by
  simp [shown]

theorem marksFrom_append (k : Nat) (ls ms : List Event) :
    marksFrom k (ls ++ ms) =
      marksFrom k ls ++ marksFrom (k + (shown ls).length) ms := by
  induction ls generalizing k with
  | nil => rfl
  | cons l ls ih =>
      have hlen : (shown (l :: ls)).length = l.bytes.length + (shown ls).length := by
        rw [shown, List.flatMap_cons, List.length_append, shown]
      rw [List.cons_append, hlen]
      cases l with
      | atMark => simp [marksFrom, ih, Event.bytes]
      | read bs => simp [marksFrom, ih, Event.bytes, Nat.add_assoc]
      | eof => simp [marksFrom, ih, Event.bytes]

theorem marks_read (ls : List Event) (bs : List Byte) :
    marks (ls ++ [.read bs]) = marks ls := by
  rw [marks, marksFrom_append]
  exact List.append_nil _

theorem marks_eof (ls : List Event) : marks (ls ++ [.eof]) = marks ls := by
  rw [marks, marksFrom_append]
  exact List.append_nil _

theorem marks_atMark (ls : List Event) :
    marks (ls ++ [.atMark]) = marks ls ++ [(shown ls).length] := by
  rw [marks, marksFrom_append, Nat.zero_add]
  rfl

structure Inv (s : State) : Prop where
  sound : Sound s.conn
  read_le : s.conn.read ≤ s.conn.arrived
  shown : shown s.log = s.conn.stream.take s.conn.read
  sorted : (marks s.log).Pairwise (· < ·)
  urgent : ∀ p ∈ marks s.log, p ∈ s.conn.urgents ∧
    (p < s.conn.read ∨ p = s.conn.read ∧ s.pc = .read)
  ended : .eof ∈ s.log → s.pc = .exited ∧ s.conn.fin = true ∧
    s.conn.read = s.conn.stream.length
  marked : s.log.getLast? = some .atMark → s.pc = .read ∧
    s.conn.read ∈ s.conn.urgents
  exited : s.pc = .exited → .eof ∈ s.log

theorem Inv.length_shown {s : State} (h : Inv s) :
    (UrgentInline.shown s.log).length = s.conn.read := by
  rw [h.shown, List.length_take,
    Nat.min_eq_left (Nat.le_trans h.read_le h.sound.arrived)]

theorem inv_start : Inv .start := by
  refine ⟨sound_start, Nat.le_refl _, rfl, List.Pairwise.nil, ?_, ?_, ?_, ?_⟩ <;>
    simp [State.start, marks, marksFrom]

theorem Inv.net {s : State} {c : Conn} {a : NetAct}
    (hnet : s.conn.netStep a = some c) (h : Inv s) : Inv { s with conn := c } := by
  have hgrows := netStep_grows hnet
  have hread := hgrows.read
  have hle : s.conn.read ≤ s.conn.stream.length :=
    Nat.le_trans h.read_le h.sound.arrived
  refine ⟨h.sound.net hnet, ?_, ?_, h.sorted, ?_, ?_, ?_, h.exited⟩
  · show c.read ≤ c.arrived
    rw [hread]
    exact Nat.le_trans h.read_le hgrows.arrived
  · show UrgentInline.shown s.log = c.stream.take c.read
    rw [hread, take_grows hgrows.stream hle]
    exact h.shown
  · intro p hp
    obtain ⟨hu, hlt⟩ := h.urgent p hp
    show p ∈ c.urgents ∧ (p < c.read ∨ p = c.read ∧ s.pc = .read)
    rw [hread]
    exact ⟨hgrows.kept p hu, hlt⟩
  · intro heof
    obtain ⟨hpc, hfin, hall⟩ := h.ended heof
    refine ⟨hpc, hgrows.fin hfin, ?_⟩
    show c.read = c.stream.length
    rw [hread, hgrows.closed (h.sound.fin hfin).1]
    exact hall
  · intro hlast
    obtain ⟨hpc, hu⟩ := h.marked hlast
    show s.pc = .read ∧ c.read ∈ c.urgents
    rw [hread]
    exact ⟨hpc, hgrows.kept _ hu⟩

theorem atMark_urgent {s : State} (h : Inv s) (hat : sockatmark s.conn = true) :
    s.conn.read ∈ s.conn.urgents :=
  h.sound.mark _ (of_decide_eq_true hat)

/-- An end of file is not printed while the process is still reading. -/
theorem Inv.running {s : State} (h : Inv s) (hpc : s.pc ≠ .exited) :
    .eof ∉ s.log := fun heof => hpc (h.ended heof).1

theorem Inv.sockatmark {s : State} (h : Inv s) (hpc : s.pc = .sockatmark) :
    Inv { s with
      pc := .read
      log := if UrgentInline.sockatmark s.conn then s.log ++ [.atMark]
        else s.log } := by
  have heof := h.running (by simp [hpc])
  have hbefore : ∀ p ∈ marks s.log, p ∈ s.conn.urgents ∧ p < s.conn.read := by
    intro p hp
    obtain ⟨hu, hlt⟩ := h.urgent p hp
    refine ⟨hu, hlt.resolve_right ?_⟩
    simp [hpc]
  cases hat : UrgentInline.sockatmark s.conn with
  | false =>
      refine ⟨h.sound, h.read_le, h.shown, h.sorted, ?_, fun h' => absurd h' heof, ?_,
        nofun⟩
      · exact fun p hp => ⟨(hbefore p hp).1, .inl (hbefore p hp).2⟩
      · intro hlast
        have hmarked := (h.marked hlast).1
        rw [hpc] at hmarked
        simp at hmarked
  | true =>
      have hurgent := atMark_urgent h hat
      refine ⟨h.sound, h.read_le, ?_, ?_, ?_, ?_, fun _ => ⟨rfl, hurgent⟩, nofun⟩
      · simpa [Event.bytes] using h.shown
      · simp only [if_true, marks_atMark, h.length_shown]
        rw [List.pairwise_append]
        refine ⟨h.sorted, List.pairwise_singleton _ _, ?_⟩
        intro p hp q hq
        rw [List.mem_singleton.mp hq]
        exact (hbefore p hp).2
      · intro p hp
        simp only [if_true, marks_atMark, h.length_shown] at hp
        rcases List.mem_append.mp hp with hp | hp
        · exact ⟨(hbefore p hp).1, .inl (hbefore p hp).2⟩
        · rw [List.mem_singleton.mp hp]
          exact ⟨hurgent, .inr ⟨rfl, rfl⟩⟩
      · intro hmem
        simp only [if_true, List.mem_append, List.mem_singleton, reduceCtorEq,
          or_false] at hmem
        exact absurd hmem heof

theorem Inv.read {s : State} {n : Nat} (h : Inv s) (hpc : s.pc = .read)
    (hpos : 0 < n) (havail : n ≤ available s.conn) :
    Inv { s with
      pc := .sockatmark
      conn := { s.conn with read := s.conn.read + n }
      log := s.log ++ [.read ((s.conn.stream.drop s.conn.read).take n)] } := by
  have heof := h.running (by simp [hpc])
  have hlimit := limit_le_arrived s.conn
  rw [available] at havail
  refine ⟨h.sound.process _ _, ?_, ?_, ?_, ?_, ?_, ?_, nofun⟩
  · show s.conn.read + n ≤ s.conn.arrived
    omega
  · show UrgentInline.shown (s.log ++ _) = s.conn.stream.take (s.conn.read + n)
    rw [shown_append, h.shown, shown_single, Event.bytes, List.take_add]
  · simpa only [marks_read] using h.sorted
  · intro p hp
    simp only [marks_read] at hp
    obtain ⟨hu, hlt⟩ := h.urgent p hp
    refine ⟨hu, .inl ?_⟩
    show p < s.conn.read + n
    omega
  · intro hmem
    simp only [List.mem_append, List.mem_singleton, reduceCtorEq, or_false] at hmem
    exact absurd hmem heof
  · simp

theorem Inv.eof {s : State} (h : Inv s) (havail : available s.conn = 0)
    (hfin : s.conn.fin = true) :
    Inv { s with pc := .exited, log := s.log ++ [.eof] } := by
  have hall : s.conn.read = s.conn.stream.length := by
    have hle := h.read_le
    have hend := (h.sound.fin hfin).2
    rw [available, Conn.limit] at havail
    cases hmark : s.conn.mark with
    | none =>
        simp only [hmark] at havail
        omega
    | some p =>
        simp only [hmark] at havail
        split at havail <;> omega
  refine ⟨h.sound, h.read_le, ?_, ?_, ?_, fun _ => ⟨rfl, hfin, hall⟩, ?_, ?_⟩
  · simpa [Event.bytes] using h.shown
  · simpa only [marks_eof] using h.sorted
  · intro p hp
    simp only [marks_eof] at hp
    obtain ⟨hu, hlt⟩ := h.urgent p hp
    refine ⟨hu, .inl ?_⟩
    rw [hall]
    exact h.sound.sent p hu
  · simp
  · simp

theorem Inv.step {s t : State} {a : Act} (h : Inv s)
    (hstep : system.step s a = some t) : Inv t := by
  cases a with
  | net a =>
      obtain ⟨c, hnet, rfl⟩ := Option.map_eq_some_iff.mp hstep
      exact h.net hnet
  | sockatmark =>
      obtain ⟨hpc, rfl⟩ := guard_eq_some.mp hstep
      exact h.sockatmark hpc
  | read n =>
      obtain ⟨⟨hpc, hpos, -, havail⟩, rfl⟩ := guard_eq_some.mp hstep
      exact h.read hpc hpos havail
  | eof =>
      obtain ⟨⟨-, havail, hfin⟩, rfl⟩ := guard_eq_some.mp hstep
      exact h.eof havail hfin

theorem reachable_inv {s : State} (hs : system.Reachable s) : Inv s := by
  refine hs.invariant (P := Inv) ?_ ?_
  · rintro s rfl
    exact inv_start
  · intro s a t _ h hstep
    exact h.step hstep

/-- The announcement of an urgent byte finds the process before its `Sockatmark`
at that byte, and past all urgent bytes before it. -/
def InTime (s : State) : Act → Prop
  | .net (.announce p) =>
      (s.conn.read < p ∨ s.conn.read = p ∧ s.pc = .sockatmark) ∧
        ∀ u ∈ s.conn.urgents, u < p → u < s.conn.read
  | _ => True

instance (s : State) (a : Act) : Decidable (InTime s a) := by
  unfold InTime
  split <;> infer_instance

/-- No urgent byte was passed without a word. -/
structure Noted (s : State) : Prop where
  earlier : ∀ p ∈ s.conn.mark, ∀ u ∈ s.conn.urgents, u < p → u < s.conn.read
  noted : ∀ u ∈ s.conn.urgents, u < s.conn.read → u ∈ marks s.log
  tested : s.pc = .read → ∀ p ∈ s.conn.mark, p = s.conn.read →
    p ∈ marks s.log

theorem Noted.net {s : State} {c : Conn} {a : NetAct} (hinv : Inv s)
    (h : Noted s) (htime : InTime s (.net a)) (hnet : s.conn.netStep a = some c) :
    Noted { s with conn := c } := by
  have hgrows := netStep_grows hnet
  have hread := hgrows.read
  have hold : ∀ u ∈ c.urgents, u < s.conn.stream.length → u ∈ s.conn.urgents := by
    intro u hu hlt
    exact (hgrows.urgents u hu).resolve_right (Nat.not_le.mpr hlt)
  have hle : s.conn.read ≤ s.conn.stream.length :=
    Nat.le_trans hinv.read_le hinv.sound.arrived
  have hnoted : ∀ u ∈ c.urgents, u < c.read → u ∈ marks s.log := by
    intro u hu hlt
    rw [hread] at hlt
    exact h.noted u (hold u hu (Nat.lt_of_lt_of_le hlt hle)) hlt
  rcases netStep_mark hnet with ⟨-, hmark, -⟩ | ⟨p, rfl, -, -⟩
  · refine ⟨?_, hnoted, ?_⟩
    · intro p hp u hu hlt
      rw [hmark] at hp
      have hsent := hinv.sound.sent p (hinv.sound.mark p hp)
      show u < c.read
      rw [hread]
      exact h.earlier p hp u (hold u hu (Nat.lt_trans hlt hsent)) hlt
    · intro hpc p hp heq
      change p ∈ c.mark at hp
      change p = c.read at heq
      rw [hmark] at hp
      rw [hread] at heq
      exact h.tested hpc p hp heq
  · obtain ⟨-, rfl⟩ := guard_eq_some.mp hnet
    obtain ⟨hahead, hpassed⟩ := htime
    refine ⟨?_, h.noted, ?_⟩
    · intro q hq
      obtain rfl := Option.some.inj hq
      exact hpassed
    · intro hpc q hq heq
      obtain rfl := Option.some.inj hq
      change p = s.conn.read at heq
      rcases hahead with hlt | ⟨-, hbefore⟩
      · omega
      · rw [show s.pc = .read from hpc] at hbefore
        simp at hbefore

theorem Noted.read {s : State} {n : Nat} (hinv : Inv s) (h : Noted s)
    (hpc : s.pc = .read) (havail : n ≤ available s.conn) :
    Noted { s with
      pc := .sockatmark
      conn := { s.conn with read := s.conn.read + n }
      log := s.log ++ [.read ((s.conn.stream.drop s.conn.read).take n)] } := by
  have hlimit := limit_le_arrived s.conn
  rw [available] at havail
  refine ⟨?_, ?_, nofun⟩
  · intro p hp u hu hlt
    have hpassed := h.earlier p hp u hu hlt
    show u < s.conn.read + n
    omega
  · intro u hu hlt
    change u < s.conn.read + n at hlt
    simp only [marks_read]
    by_cases hpassed : u < s.conn.read
    · exact h.noted u hu hpassed
    · obtain ⟨p, hp, hle⟩ := hinv.sound.announced u hu (by omega)
      have hup : u = p := by
        by_contra hne
        exact hpassed (h.earlier p hp u hu (by omega))
      subst hup
      apply h.tested hpc u hp
      by_contra hne
      have hbefore := limit_le_mark hp (by omega)
      omega

theorem Noted.step {s t : State} {a : Act} (hinv : Inv s) (htime : InTime s a)
    (h : Noted s) (hstep : system.step s a = some t) : Noted t := by
  cases a with
  | net a =>
      obtain ⟨c, hnet, rfl⟩ := Option.map_eq_some_iff.mp hstep
      exact h.net hinv htime hnet
  | sockatmark =>
      obtain ⟨hpc, rfl⟩ := guard_eq_some.mp hstep
      cases hat : UrgentInline.sockatmark s.conn with
      | false =>
          refine ⟨h.earlier, h.noted, ?_⟩
          intro _ p hp heq
          change p = s.conn.read at heq
          subst heq
          rw [UrgentInline.sockatmark, show s.conn.mark = _ from hp] at hat
          simp at hat
      | true =>
          refine ⟨h.earlier, ?_, ?_⟩
          · intro u hu hlt
            simp only [if_true, marks_atMark]
            exact List.mem_append_left _ (h.noted u hu hlt)
          · intro _ p _ heq
            simp only [if_true, marks_atMark, hinv.length_shown]
            exact List.mem_append_right _ (List.mem_singleton.mpr heq)
  | read n =>
      obtain ⟨⟨hpc, -, -, havail⟩, rfl⟩ := guard_eq_some.mp hstep
      exact h.read hinv hpc havail
  | eof =>
      obtain ⟨-, rfl⟩ := guard_eq_some.mp hstep
      refine ⟨h.earlier, ?_, nofun⟩
      simpa only [marks_eof] using h.noted

theorem restrict_noted {s : State} (hs : (system.restrict InTime).Reachable s) :
    Noted s := by
  refine System.Reachable.restrict_invariant (P := Noted) ?_ ?_ hs
  · rintro s rfl
    refine ⟨?_, ?_, nofun⟩ <;> simp [State.start, Conn.start]
  · intro s a t hreach htime h hstep
    exact h.step (reachable_inv hreach) htime hstep

theorem text_of_inv {s : State} (h : Inv s) (hnul : 0 ∉ s.conn.stream) :
    ∀ e ∈ s.log, e.bytes <:+: e.text := by
  intro e he
  cases e with
  | atMark => exact List.nil_infix
  | read bs =>
      apply printRead_infix
      intro hmem
      have hshown : 0 ∈ UrgentInline.shown s.log := List.mem_flatMap.mpr ⟨_, he, hmem⟩
      rw [h.shown] at hshown
      exact hnul (List.mem_of_mem_take hshown)
  | eof => exact List.nil_infix

/-- In every run: the data read so far, put together, is a prefix of what was sent,
urgent bytes included, and all of it at end of file; it is printed, as far as no NUL ends
the string; "at OOB mark" stands only in front of urgent bytes, in their order and once
for each, and what comes next is a `Read` that begins with that byte. In a run in which
every urgent byte is announced in time, it stands in front of each that has been read. -/
theorem inline_law (s : State) :
    (system.Reachable s →
      shown s.log = s.conn.stream.take s.conn.read ∧
        (.eof ∈ s.log → shown s.log = s.conn.stream) ∧
        (0 ∉ s.conn.stream → ∀ e ∈ s.log, e.bytes <:+: e.text) ∧
        (marks s.log).Pairwise (· < ·) ∧
        (∀ p ∈ marks s.log, p ∈ s.conn.urgents ∧ p ≤ s.conn.read) ∧
        (s.log.getLast? = some .atMark → s.pc = .read ∧
          s.conn.read ∈ s.conn.urgents ∧ ∀ a t, system.step s a = some t →
            (∃ c, t = { s with conn := c }) ∨
              ∃ bs b, t.log = s.log ++ [.read bs] ∧ bs.head? = some b ∧
                s.conn.stream[s.conn.read]? = some b)) ∧
      ((system.restrict InTime).Reachable s →
        ∀ u ∈ s.conn.urgents, u < s.conn.read → u ∈ marks s.log) := by
  constructor
  · intro hs
    have hinv := reachable_inv hs
    refine ⟨hinv.shown, ?_, text_of_inv hinv, hinv.sorted, ?_, ?_⟩
    · intro heof
      rw [hinv.shown, (hinv.ended heof).2.2, List.take_length]
    · intro p hp
      obtain ⟨hu, hlt⟩ := hinv.urgent p hp
      exact ⟨hu, by omega⟩
    · intro hlast
      obtain ⟨hpc, hu⟩ := hinv.marked hlast
      have hsent := hinv.sound.sent _ hu
      refine ⟨hpc, hu, ?_⟩
      intro a t hstep
      cases a with
      | net a =>
          obtain ⟨c, -, rfl⟩ := Option.map_eq_some_iff.mp hstep
          exact .inl ⟨c, rfl⟩
      | sockatmark =>
          obtain ⟨hbad, -⟩ := guard_eq_some.mp hstep
          rw [hpc] at hbad
          simp at hbad
      | read n =>
          obtain ⟨⟨-, hpos, -, havail⟩, rfl⟩ := guard_eq_some.mp hstep
          refine .inr ⟨_, s.conn.stream[s.conn.read], rfl, ?_,
            List.getElem?_eq_getElem hsent⟩
          rw [List.head?_take, if_neg (by omega), List.head?_drop,
            List.getElem?_eq_getElem hsent]
      | eof =>
          obtain ⟨⟨-, havail, hfin⟩, rfl⟩ := guard_eq_some.mp hstep
          have hall := ((hinv.eof havail hfin).ended (by simp)).2.2
          change s.conn.read = s.conn.stream.length at hall
          omega
  · intro hs
    exact (restrict_noted hs).noted

theorem inline_law_sender04 : ∃ s : State, 3 ∈ marks s.log ∧
    s.log = [.read [49, 50, 51], .atMark, .read [52, 53], .eof] := by
  have hmap : ((system.restrict InTime).run .start
      [.net (.send [49, 50, 51]), .net (.sendOob 52), .net (.announce 3),
        .net (.send [53]), .net .close, .net (.arrive 5), .net .arriveFin,
        .sockatmark, .read 3, .sockatmark, .read 2, .sockatmark, .eof]).map
          (fun s => (s.conn.urgents, s.conn.read, s.log)) =
      some ([3], 5, [.read [49, 50, 51], .atMark, .read [52, 53], .eof]) := by
    decide +kernel
  obtain ⟨s, hrun, hfacts⟩ := Option.map_eq_some_iff.mp hmap
  obtain ⟨hurgents, hrest⟩ := Prod.mk.inj hfacts
  obtain ⟨hread, hlog⟩ := Prod.mk.inj hrest
  have hnoted := (inline_law s).2 ⟨_, _, rfl, hrun⟩
  refine ⟨s, hnoted 3 ?_ ?_, hlog⟩
  · rw [hurgents]
    exact List.mem_singleton_self 3
  · rw [hread]
    decide

end MyUnp.UrgentInline
