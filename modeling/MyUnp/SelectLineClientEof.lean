import MyUnp.SelectLineClient

namespace MyUnp.SelectLineClientEof

open MyUnp.TransitionSystem
open MyUnp.Fifo
open MyUnp.LinePieces
open MyUnp.Unp
open MyUnp.EchoServer
open MyUnp.Readline
open MyUnp.SelectLineClient

variable {C₁ C₂ : Nat}

def unprinted : Pc → List Byte
  | .readline acc => acc
  | .fputs line => line
  | _ => []

def unsent : Pc → List Byte
  | .writen rest => rest
  | _ => []

def unfinished : Pc → List Byte
  | .fgets acc => acc
  | _ => []

def content (s : State C₁ C₂) : List Byte :=
  unprinted s.pc ++ s.readBuf.unread ++ s.link.inFlight ++ unsent s.pc

structure Inv (input : List Byte) (s : State C₁ C₂) : Prop where
  supply : s.lines.flatten ++ unfinished s.pc ++ s.stdio ++ s.arrived ++
    s.coming = input
  ended : s.ended = true → s.coming = []
  flow : s.stdout ++ content s = (s.lines.map cString).flatten

theorem inv_start (input : List Byte) :
    Inv input (State.start input : State C₁ C₂) :=
  ⟨rfl, by simp [State.start], rfl⟩

theorem Inv.zero_not_mem {input : List Byte} {s : State C₁ C₂}
    (hs : Inv input s) : 0 ∉ content s := by
  intro hmem
  have hall : (0 : Byte) ∈ (s.lines.map cString).flatten := by
    rw [← hs.flow]
    exact List.mem_append_right _ hmem
  obtain ⟨w, hw, hzero⟩ := List.mem_flatten.mp hall
  obtain ⟨l, -, rfl⟩ := List.mem_map.mp hw
  exact zero_not_mem_cString l hzero

theorem Inv.gotLine {input : List Byte} {s : State C₁ C₂} {acc : List Byte}
    (hs : Inv input s) (hpc : s.pc = .fgets acc) (line stdio : List Byte)
    (hline : line ++ stdio = acc ++ s.stdio) :
    Inv input ({ s with stdio := stdio }.gotLine line) := by
  obtain ⟨hsupply, hended, hflow⟩ := hs
  simp only [hpc, unfinished, content, unprinted, unsent] at hsupply hflow
  refine ⟨?_, hended, ?_⟩
  · rw [List.append_assoc _ acc, ← hline] at hsupply
    simpa [State.gotLine, unfinished] using hsupply
  · simp only [State.gotLine, content, unprinted, unsent, List.map_append,
      List.flatten_append]
    simp [← hflow]

theorem Inv.step {R : ReadRule} {B : Nat} {input : List Byte}
    {s t : State C₁ C₂} {a : Act} (hs : Inv input s)
    (h : s.step R B a = some t) : Inv input t := by
  have hzero := hs.zero_not_mem
  obtain ⟨hsupply, hended, hflow⟩ := id hs
  cases State.step_move h with
  | arrive =>
      refine ⟨by simpa using hsupply, ?_, hflow⟩
      intro h
      simp [hended h]
  | hangUp hcoming => exact ⟨hsupply, fun _ => hcoming, hflow⟩
  | fillEintr => exact hs
  | fill hpc hempty hrecv =>
      refine ⟨hsupply, hended, ?_⟩
      simp only [content, hempty, List.append_nil] at hflow ⊢
      rw [List.append_assoc (unprinted s.pc), Link.receive_inFlight hrecv]
      exact hflow
  | @fillEof acc hpc hempty heof =>
      simp only [hpc, content, unfinished, unprinted, unsent] at hsupply hflow
      by_cases hacc : acc = []
      · subst hacc
        exact ⟨hsupply, hended, hflow⟩
      · simp only [if_neg hacc]
        exact ⟨hsupply, hended, hflow⟩
  | byte hpc hunread =>
      simp only [hpc, content, unfinished, unprinted, unsent, hunread] at hsupply hflow
      refine ⟨?_, hended, ?_⟩
      · split <;> simpa [unfinished] using hsupply
      · split <;> simpa [content, unprinted, unsent] using hflow
  | fputs hpc =>
      simp only [hpc, content, unfinished, unprinted, unsent] at hsupply hflow hzero
      simp only [List.mem_append, not_or] at hzero
      refine ⟨hsupply, hended, ?_⟩
      rw [cString_eq_self hzero.1.1.1]
      simpa [content, unprinted, unsent] using hflow
  | stdioFill hpc hempty =>
      rw [hempty] at hsupply
      exact ⟨by simpa using hsupply, hended, hflow⟩
  | @stdioEof acc hpc hempty harrived hdone =>
      split
      · rename_i hacc
        subst hacc
        simp only [hpc, content, unfinished, unprinted, unsent] at hsupply hflow
        exact ⟨hsupply, hended, hflow⟩
      · exact hs.gotLine hpc acc s.stdio rfl
  | @stdioByte acc rest c hpc hunread =>
      have hline : (acc ++ [c]) ++ rest = acc ++ s.stdio := by simp [hunread]
      split
      · exact hs.gotLine hpc _ rest hline
      · simp only [hpc, content, unfinished, unprinted, unsent] at hsupply hflow
        refine ⟨?_, hended, hflow⟩
        simpa [unfinished, hunread] using hsupply
  | send hpc hsend =>
      simp only [hpc, content, unfinished, unprinted, unsent] at hsupply hflow
      refine ⟨hsupply, hended, ?_⟩
      simpa [content, unprinted, unsent, Link.send_inFlight hsend] using hflow
  | server hserver =>
      refine ⟨hsupply, hended, ?_⟩
      simpa [content, Link.serverStep_inFlight hserver] using hflow
  | testSock hpc =>
      simp only [hpc, content, unfinished, unprinted, unsent] at hsupply hflow
      refine ⟨?_, hended, ?_⟩
      · split <;> exact hsupply
      · split <;> exact hflow
  | testInput hpc =>
      simp only [hpc, content, unfinished, unprinted, unsent] at hsupply hflow
      refine ⟨?_, hended, ?_⟩
      · split <;> exact hsupply
      · split <;> exact hflow
  | _ hpc =>
      simp only [hpc, content, unfinished, unprinted, unsent] at hsupply hflow
      exact ⟨hsupply, hended, hflow⟩

theorem reachable_inv {R : ReadRule} {B : Nat} {input : List Byte}
    {s : State C₁ C₂} (h : (system C₁ C₂ R B input).Reachable s) :
    Inv input s := by
  refine h.invariant ?_ fun _ _ _ _ hs hstep => hs.step hstep
  rintro s rfl
  exact inv_start input

/-- The bytes sent whose echo `Readline` has not taken: in the buffer of `my_read`, on
the connection or at the server. -/
def underWay (s : State C₁ C₂) : List Byte := s.readBuf.unread ++ s.link.inFlight

def behindLine (stream : List Byte) : List Byte :=
  (nextPiece newline (MAXLINE - 1) stream).2

/-- Nothing is left of the input: `Select` reports it only for its end. -/
def InputOver (s : State C₁ C₂) : Prop :=
  s.ended = true ∧ s.arrived = [] ∧ s.stdio = []

/-- At most one line is under way, and it has begun to arrive. -/
def OneReplyAtMost (s : State C₁ C₂) : Prop :=
  if s.ready.sockfd = true then behindLine (underWay s) = [] else underWay s = []

/-- If the step is a `Select` that reports the end of the input, there is no more to
come than the reply that it reports too. -/
def RepliedAtEof (s : State C₁ C₂) (a : Act) : Prop :=
  a = .select → InputOver s → OneReplyAtMost s

instance (s : State C₁ C₂) : Decidable (InputOver s) :=
  inferInstanceAs (Decidable (_ ∧ _ ∧ _))

instance (s : State C₁ C₂) : Decidable (OneReplyAtMost s) := by
  unfold OneReplyAtMost
  infer_instance

instance (s : State C₁ C₂) (a : Act) : Decidable (RepliedAtEof s a) :=
  inferInstanceAs (Decidable (_ → _ → _))

theorem cString_lines {input : List Byte} {lines : List (List Byte)}
    {rest : List Byte} (hnul : 0 ∉ input) (h : lines.flatten ++ rest = input) :
    lines.map cString = lines := by
  have hself : ∀ l ∈ lines, cString l = l := by
    intro l hl
    apply cString_eq_self
    intro hmem
    apply hnul
    rw [← h]
    exact List.mem_append_left _ (List.mem_flatten.mpr ⟨l, hl, hmem⟩)
  exact (List.map_congr_left hself).trans (List.map_id lines)

structure Going (s : State C₁ C₂) : Prop where
  line : ∀ acc, s.pc = .readline acc → newline ∉ acc ∧ acc.length + 1 < MAXLINE
  link : s.link.Ok
  request : s.link.request.closed = false

theorem Going.not_atEof {s : State C₁ C₂} (h : Going s) : ¬s.link.reply.AtEof := by
  intro heof
  have hclosed := (h.link.reply_atEof heof).2
  rw [h.request] at hclosed
  cases hclosed

theorem Going.step {R : ReadRule} {B : Nat} {s t : State C₁ C₂} {a : Act}
    (hs : Going s) (h : s.step R B a = some t) : Going t := by
  obtain ⟨hline, hlink, hrequest⟩ := id hs
  cases State.step_move h with
  | arrive => exact ⟨hline, hlink, hrequest⟩
  | hangUp hcoming => exact ⟨hline, hlink, hrequest⟩
  | fillEintr => exact hs
  | fill hpc hempty hrecv =>
      obtain ⟨-, -, -, -, hsame, -⟩ := Link.receive_eq_some hrecv
      exact ⟨hline, hlink.receive hrecv, hsame ▸ hrequest⟩
  | fillEof hpc hempty heof => exact absurd heof hs.not_atEof
  | @byte acc rest c hpc hunread =>
      refine ⟨?_, hlink, hrequest⟩
      intro acc' hpc'
      simp only at hpc'
      split at hpc'
      · cases hpc'
      · rename_i hends
        obtain rfl := Pc.readline.inj hpc'
        simp only [endsLine, Bool.or_eq_true, decide_eq_true_eq, not_or] at hends
        obtain ⟨hnot, -⟩ := hline acc hpc
        rw [List.mem_append, List.mem_singleton, List.length_append, List.length_singleton]
        exact ⟨not_or.mpr ⟨hnot, Ne.symm hends.1⟩, by omega⟩
  | stdioFill hpc hempty => exact ⟨hline, hlink, hrequest⟩
  | stdioEof hpc hempty harrived hended =>
      split
      · exact ⟨fun _ h => (by cases h), hlink, hrequest⟩
      · exact ⟨fun _ h => (by cases h), hlink, hrequest⟩
  | stdioByte hpc hunread =>
      split
      · exact ⟨fun _ h => (by cases h), hlink, hrequest⟩
      · exact ⟨fun _ h => (by cases h), hlink, hrequest⟩
  | send hpc hsend =>
      obtain ⟨-, -, -, hopen, -, -⟩ := Link.send_eq_some hsend
      exact ⟨fun _ h => (by cases h), hlink.send hsend, hopen⟩
  | server hserver =>
      exact ⟨hline, hlink.serverStep hserver,
        (Link.serverStep_request_closed hserver).trans hrequest⟩
  | testSock hpc =>
      refine ⟨?_, hlink, hrequest⟩
      intro acc hpc'
      simp only at hpc'
      split at hpc'
      · obtain rfl := Pc.readline.inj hpc'
        exact ⟨List.not_mem_nil, by decide⟩
      · cases hpc'
  | testInput hpc =>
      refine ⟨?_, hlink, hrequest⟩
      intro acc hpc'
      simp only at hpc'
      split at hpc' <;> cases hpc'
  | _ hpc => exact ⟨fun _ h => (by cases h), hlink, hrequest⟩

theorem reachable_going {R : ReadRule} {B : Nat} {input : List Byte}
    {s : State C₁ C₂} (h : (system C₁ C₂ R B input).Reachable s) : Going s := by
  refine h.invariant ?_ fun _ _ _ _ hs hstep => hs.step hstep
  rintro s rfl
  exact ⟨fun _ h => (by cases h), Link.start_ok, rfl⟩

theorem behindLine_byte {acc : List Byte} (hnot : newline ∉ acc)
    (hlen : acc.length + 1 < MAXLINE) (c : Byte) (rest : List Byte) :
    behindLine (acc ++ c :: rest) =
      if endsLine MAXLINE acc c then rest else behindLine (acc ++ [c] ++ rest) := by
  split
  · rename_i hends
    simp only [endsLine, Bool.or_eq_true, decide_eq_true_eq] at hends
    by_cases hc : c = newline
    · rw [behindLine, hc, nextPiece_line hnot (by omega)]
    · have hfull : MAXLINE - 1 = (acc ++ [c]).length + 0 := by
        rw [List.length_append, List.length_singleton]
        have hle := hends.resolve_left hc
        omega
      have hnot' : newline ∉ acc ++ [c] := by
        rw [List.mem_append, List.mem_singleton]
        exact not_or.mpr ⟨hnot, Ne.symm hc⟩
      rw [behindLine, ← List.singleton_append, ← List.append_assoc, hfull,
        nextPiece_of_not_mem hnot']
      rfl
  · rw [List.append_assoc, List.singleton_append]

/-- In the last turn of the loop: `Select` has reported the end of the input. -/
def LastTurn (s : State C₁ C₂) : Prop :=
  (match s.pc with
    | .testSock => s.rset.fp = true
    | .readline _ => s.rset.fp = true
    | .fputs _ => s.rset.fp = true
    | .testInput => s.rset.fp = true
    | .fgets acc => acc = []
    | .returned => True
    | _ => False) ∧
  s.stdio = [] ∧ s.arrived = [] ∧ s.coming = []

/-- What the rest of the turn leaves unprinted of all that is under way. -/
def lost (s : State C₁ C₂) : List Byte :=
  match s.pc with
  | .testSock => if s.rset.sockfd = true then behindLine (underWay s) else underWay s
  | .readline acc => behindLine (acc ++ underWay s)
  | _ => underWay s

theorem returned_step {R : ReadRule} {B : Nat} {s t : State C₁ C₂} {a : Act}
    (h : s.step R B a = some t) (hpc : t.pc = .returned) :
    s.pc = .returned ∨
      (a = .stdioEof ∧ s.pc = .fgets []) := by
  cases State.step_move h with
  | arrive => exact .inl hpc
  | hangUp hcoming => exact .inl hpc
  | fill hpc' hempty hrecv => exact .inl hpc
  | fillEintr => exact .inl hpc
  | stdioFill hpc' hempty => exact .inl hpc
  | server hserver => exact .inl hpc
  | @stdioEof acc hpc' hempty harrived hdone =>
      by_cases hacc : acc = []
      · subst hacc
        exact .inr ⟨rfl, hpc'⟩
      · rw [if_neg hacc] at hpc
        simp [State.gotLine] at hpc
  | stdioByte hpc' hunread => split at hpc <;> simp [State.gotLine] at hpc
  | fillEof hpc' hempty heof => split at hpc <;> simp at hpc
  | byte hpc' hunread => split at hpc <;> simp at hpc
  | testSock hpc' => split at hpc <;> simp at hpc
  | testInput hpc' => split at hpc <;> simp at hpc
  | _ => simp at hpc

theorem lastTurn_step {R : ReadRule} {B : Nat} {s t : State C₁ C₂} {a : Act}
    (hgoing : Going s) (h : s.step R B a = some t) (ha : a ≠ .select) :
    (LastTurn t ↔ LastTurn s) ∧ (LastTurn s → lost t = lost s) := by
  cases State.step_move h with
  | @arrive k =>
      refine ⟨and_congr_right fun _ => and_congr_right fun _ => ?_, fun _ => rfl⟩
      have hsplit := List.take_append_drop k s.coming
      rw [List.append_eq_nil_iff, and_assoc, ← List.append_eq_nil_iff, hsplit]
  | hangUp hcoming => exact ⟨Iff.rfl, fun _ => rfl⟩
  | fillEintr => exact ⟨Iff.rfl, fun _ => rfl⟩
  | select hpc => exact absurd rfl ha
  | fill hpc hempty hrecv =>
      refine ⟨Iff.rfl, fun _ => ?_⟩
      simp only [lost, hpc, underWay, hempty, List.nil_append, Link.receive_inFlight hrecv]
  | fillEof hpc hempty heof => exact absurd heof hgoing.not_atEof
  | @byte acc rest c hpc hunread =>
      obtain ⟨hnot, hlen⟩ := hgoing.line acc hpc
      have hbehind := behindLine_byte hnot hlen c (rest ++ s.link.inFlight)
      by_cases hends : endsLine MAXLINE acc c = true
      · rw [if_pos hends] at hbehind
        simp only [LastTurn, lost, hpc, underWay, hunread, List.cons_append, hends,
          ↓reduceIte, hbehind, implies_true, and_true]
      · rw [if_neg hends] at hbehind
        simp only [LastTurn, lost, hpc, underWay, hunread, List.cons_append, hends,
          ↓reduceIte, hbehind, Bool.false_eq_true, implies_true, and_true]
  | fputs hpc =>
      simp only [LastTurn, lost, hpc]
      exact ⟨trivial, fun _ => rfl⟩
  | @stdioFill k acc hpc hempty =>
      simp only [LastTurn, lost, hpc, hempty]
      refine ⟨and_congr_right fun _ => ?_, fun _ => rfl⟩
      have hsplit := List.take_append_drop k s.arrived
      rw [← and_assoc, ← List.append_eq_nil_iff, hsplit, true_and]
  | @stdioEof acc hpc hempty harrived hended =>
      simp only [LastTurn, lost, hpc]
      by_cases hacc : acc = []
      · rw [if_pos hacc]
        exact ⟨and_congr_left fun _ => iff_of_true trivial hacc, fun _ => rfl⟩
      · rw [if_neg hacc]
        exact ⟨iff_of_false And.left fun h => hacc h.1, fun h => absurd h.1 hacc⟩
  | @stdioByte acc rest c hpc hunread =>
      have hnot : ¬LastTurn s := by
        rintro ⟨-, hnone, -⟩
        rw [hunread] at hnone
        cases hnone
      refine ⟨iff_of_false ?_ hnot, fun h => absurd h hnot⟩
      split
      · exact And.left
      · rintro ⟨hnil, -⟩
        exact absurd hnil (List.append_ne_nil_of_right_ne_nil _ (List.cons_ne_nil c []))
  | server hserver =>
      refine ⟨Iff.rfl, fun _ => ?_⟩
      simp only [lost, underWay, Link.serverStep_inFlight hserver]
  | testSock hpc =>
      simp only [LastTurn, lost, hpc]
      cases s.rset.sockfd with
      | true => exact ⟨Iff.rfl, fun _ => rfl⟩
      | false => exact ⟨Iff.rfl, fun _ => rfl⟩
  | testInput hpc =>
      simp only [LastTurn, lost, hpc]
      cases s.rset.fp with
      | true => exact ⟨and_congr_left fun _ => iff_of_true rfl rfl, fun _ => rfl⟩
      | false => exact ⟨iff_of_false And.left nofun, nofun⟩
  | _ hpc =>
      simp only [LastTurn, hpc]
      exact ⟨trivial, fun h => h.1.elim⟩

theorem lastTurn_select {R : ReadRule} {B : Nat} {input : List Byte} {s t : State C₁ C₂}
    (hs : Inv input s) (h : s.step R B .select = some t) :
    (LastTurn t ↔ InputOver s) ∧ (lost t = [] ↔ OneReplyAtMost s) := by
  cases State.step_move h with
  | select hpc =>
      refine ⟨⟨?_, ?_⟩, ?_⟩
      · rintro ⟨hfp, hstdio, harrived, -⟩
        refine ⟨?_, harrived, hstdio⟩
        have hready : (!s.arrived.isEmpty || s.ended) = true := hfp
        rw [show s.arrived = [] from harrived] at hready
        exact hready
      · rintro ⟨hended, harrived, hstdio⟩
        refine ⟨?_, hstdio, harrived, hs.ended hended⟩
        change (!s.arrived.isEmpty || s.ended) = true
        rw [hended, Bool.or_true]
      · rw [lost, OneReplyAtMost]
        dsimp only
        split <;> exact Iff.rfl

theorem lastTurn_of_returned {R : ReadRule} {B : Nat} {input : List Byte} {t : State C₁ C₂}
    (h : (system C₁ C₂ R B input).Reachable t) : t.pc = .returned → LastTurn t := by
  refine h.invariant (P := fun t => t.pc = .returned → LastTurn t) ?_ ?_
  · rintro s rfl hpc
    cases hpc
  · intro s a t hreach hs hstep hpc
    have hstep' : s.step R B a = some t := hstep
    have hinv := reachable_inv hreach
    by_cases ha : a = .select
    · subst ha
      cases State.step_move hstep' with
      | select => cases hpc
    · rw [(lastTurn_step (reachable_going hreach) hstep' ha).1]
      rcases returned_step hstep' hpc with hold | ⟨rfl, hfgets⟩
      · exact hs hold
      · cases State.step_move hstep' with
        | stdioEof hpc' hempty harrived hended =>
            simp only [LastTurn, hfgets]
            exact ⟨trivial, hempty, harrived, hinv.ended hended⟩

theorem Inv.returned {input : List Byte} (hnul : 0 ∉ input) {t : State C₁ C₂}
    (ht : Inv input t) (hpc : t.pc = .returned) (hlast : LastTurn t) :
    t.stdout = input ↔ lost t = [] := by
  obtain ⟨hsupply, hended, hflow⟩ := ht
  obtain ⟨-, hstdio, harrived, hcoming⟩ := hlast
  simp only [hpc, content, unfinished, unprinted, unsent, hstdio, harrived, hcoming,
    List.append_nil, List.nil_append] at hsupply hflow
  have hlines : t.lines.flatten ++ [] = input := by rw [List.append_nil, hsupply]
  rw [cString_lines hnul hlines, hsupply] at hflow
  simp only [lost, hpc, underWay]
  rw [← hflow]
  exact List.self_eq_append_right

theorem stdout_of_returned {R : ReadRule} {B : Nat} {input : List Byte}
    (hnul : 0 ∉ input) {t : State C₁ C₂}
    (h : ((system C₁ C₂ R B input).restrict RepliedAtEof).Reachable t)
    (hpc : t.pc = .returned) : t.stdout = input := by
  have hreach := h.of_restrict
  have hlast := lastTurn_of_returned hreach hpc
  rw [(reachable_inv hreach).returned hnul hpc hlast]
  revert hlast
  refine System.Reachable.restrict_invariant (P := fun t => LastTurn t → lost t = []) ?_ ?_ h
  · rintro s rfl ⟨hnot, -⟩
    exact hnot.elim
  · intro s a t hreach hreplied hs hstep hlast
    have hstep' : s.step R B a = some t := hstep
    by_cases ha : a = .select
    · subst ha
      obtain ⟨hover, hlost⟩ := lastTurn_select (reachable_inv hreach) hstep'
      exact hlost.mpr (hreplied rfl (hover.mp hlast))
    · obtain ⟨hturn, hlost⟩ := lastTurn_step (reachable_going hreach) hstep' ha
      have hbefore := hturn.mp hlast
      exact (hlost hbefore).trans (hs hbefore)

theorem run_lost {R : ReadRule} {B : Nat} {input : List Byte} {s t : State C₁ C₂}
    {ls : List Act} (hreach : (system C₁ C₂ R B input).Reachable s) (hs : LastTurn s)
    (hrun : (system C₁ C₂ R B input).run s ls = some t) :
    LastTurn t ∧ lost t = lost s := by
  induction ls generalizing s with
  | nil =>
      obtain rfl := Option.some.inj hrun
      exact ⟨hs, rfl⟩
  | cons a ls ih =>
      obtain ⟨u, hstep, hrest⟩ := Option.bind_eq_some_iff.mp hrun
      have hstep' : s.step R B a = some u := hstep
      have ha : a ≠ .select := by
        rintro rfl
        cases State.step_move hstep' with
        | select hpc =>
            rw [LastTurn, hpc] at hs
            exact hs.1
      obtain ⟨hturn, hlost⟩ := lastTurn_step (reachable_going hreach) hstep' ha
      obtain ⟨ht, hsame⟩ := ih (hreach.step hstep) (hturn.mpr hs) hrest
      exact ⟨ht, hsame.trans (hlost hs)⟩

/-- In every run in which no `Select` reports the end of the input before the replies
have come, but for one line that it reports too, `str_cli` returns with all of the
input on `stdout`; and a run that goes on from a `Select` that reports the end of the
input returns with all of it only then. -/
theorem strCli_eof_iff (C₁ C₂ B : Nat) (input : List Byte) (hnul : 0 ∉ input) :
    (∀ t : State C₁ C₂,
      ((system C₁ C₂ .short B input).restrict RepliedAtEof).Reachable t →
        t.pc = .returned → t.stdout = input) ∧
      ∀ (s t : State C₁ C₂) (ls : List Act), (system C₁ C₂ .short B input).Reachable s →
        InputOver s → (system C₁ C₂ .short B input).run s (.select :: ls) = some t →
          t.pc = .returned → (t.stdout = input ↔ OneReplyAtMost s) := by
  refine ⟨fun t ht => stdout_of_returned hnul ht, ?_⟩
  intro s t ls hs hover hrun hpc
  obtain ⟨u, hstep, hrest⟩ := Option.bind_eq_some_iff.mp hrun
  have hstep' : s.step .short B .select = some u := hstep
  have hu := hs.step hstep
  obtain ⟨hturn, hlost⟩ := lastTurn_select (reachable_inv hs) hstep'
  obtain ⟨hlast, hsame⟩ := run_lost hu (hturn.mpr hover) hrest
  rw [(reachable_inv (hu.of_run hrest)).returned hnul hpc hlast, hsame, hlost]

def oneLine : List Act :=
  [.arrive 2, .hangUp, .arm, .select, .testSock, .testInput, .stdioFill 2,
    .stdioByte, .stdioByte, .send, .send, .writenReturn]

theorem strCli_eof_iff_oneLine : ∃ t : State 2 2,
    ((system 2 2 .short 2 [97, 10]).restrict RepliedAtEof).Reachable t ∧
      t.pc = .returned ∧ t.stdout = [97, 10] := by
  have hmap : (((system 2 2 .short 2 [97, 10]).restrict RepliedAtEof).run
      (State.start [97, 10]) (oneLine ++ [.server (.read 2), .server .write,
        .server .write, .arm, .select, .testSock, .fill 2, .byte, .byte, .fputs,
        .testInput, .stdioEof])).map State.pc = some .returned := by decide
  obtain ⟨t, hrun, hpc⟩ := Option.map_eq_some_iff.mp hmap
  have hreach : ((system 2 2 .short 2 [97, 10]).restrict RepliedAtEof).Reachable
      t := ⟨_, _, rfl, hrun⟩
  exact ⟨t, hreach, hpc,
    (strCli_eof_iff 2 2 2 [97, 10] (by decide)).1 t hreach hpc⟩

/-- The client sees the end of its input before the echo of the only line. -/
theorem last_reply_lost :
    ¬∀ (input : List Byte), 0 ∉ input → unterminated newline input = [] →
      ∀ (C₁ C₂ B : Nat) (t : State C₁ C₂),
        (system C₁ C₂ .short B input).Reachable t → t.pc = .returned →
          t.stdout = input := by
  intro hall
  have hmap : ((system 2 2 .short 2 [97, 10]).run (State.start [97, 10])
      (oneLine ++ [.arm, .select, .testSock, .testInput, .stdioEof])).map
        (fun t => (t.pc, t.stdout)) = some (.returned, []) := by decide
  obtain ⟨t, hrun, hfacts⟩ := Option.map_eq_some_iff.mp hmap
  obtain ⟨hpc, hout⟩ := Prod.mk.inj hfacts
  have hlost := hall [97, 10] (by decide) (by decide) 2 2 2 t ⟨_, _, rfl, hrun⟩ hpc
  rw [hout] at hlost
  simp at hlost

end MyUnp.SelectLineClientEof
