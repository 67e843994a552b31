import MyUnp.StopAndWaitHang

namespace MyUnp.StopAndWaitProgress

open MyUnp.EchoServer
open MyUnp.Fifo
open MyUnp.LinePieces
open MyUnp.Readline
open MyUnp.StopAndWaitClient
open MyUnp.StopAndWaitHang
open MyUnp.StopAndWaitSync
open MyUnp.TransitionSystem
open MyUnp.Unp

variable {C₁ C₂ : Nat}

section Rank

/-- A call that returns with `EINTR` is made again. -/
def serverWorks : ServerAct → Bool
  | .readEintr => false
  | _ => true

def works : Act → Bool
  | .fillEintr => false
  | .server a => serverWorks a
  | _ => true

/-- The exit of the child is worth ten more steps, which its parent takes to
collect it. -/
def serverStage : Server → Nat
  | .reading => 12
  | .writen _ => 13
  | .returned => 11
  | .exited => 0

def clientStage : Pc → Nat
  | .head => 2
  | .writen _ => 5
  | .readline _ => 4
  | .fputs _ => 3
  | .returned => 1
  | .errQuit => 1

def linkRank (l : Link C₁ C₂) : Nat :=
  5 * l.request.buf.length + 3 * l.server.held.length + 2 * l.reply.buf.length +
    serverStage l.server

def rank (s : State C₁ C₂) : Nat :=
  10 * s.input.length + 6 * s.pc.unsent.length + s.readBuf.unread.length +
    clientStage s.pc + linkRank s.link

theorem linkRank_step {R : ReadRule} {l m : Link C₁ C₂} {a : ServerAct}
    (h : l.serverStep R a = some m) :
    linkRank m + (if serverWorks a then 1 else 0) ≤ linkRank l := by
  unfold linkRank
  cases Link.serverStep_move h with
  | read hserver hrecv =>
      obtain ⟨hallow, hlen, happ, -⟩ := Channel.recv_eq_some hrecv
      have hpos := R.pos hallow
      have hsum := congrArg List.length happ
      rw [List.length_append] at hsum
      simp only [hserver, Server.held_writen, Server.held_reading, serverStage,
        serverWorks, List.length_nil, if_true]
      omega
  | readEof hserver heof =>
      simp only [hserver, Server.held_returned, Server.held_reading, serverStage,
        serverWorks, if_true]
      omega
  | readEintr hserver => exact Nat.le_refl _
  | write hserver hput =>
      obtain ⟨-, -, hbuf, -⟩ := Channel.put_eq_some hput
      simp only [hserver, hbuf, Server.held_writen, serverStage, serverWorks,
        List.length_append, List.length_cons, List.length_nil, if_true]
      omega
  | writenReturn hserver =>
      simp only [hserver, Server.held_writen, Server.held_reading, serverStage,
        serverWorks, if_true]
      omega
  | exit hserver =>
      simp only [hserver, Server.held_exited, Server.held_returned, serverStage,
        serverWorks, Channel.shut_buf, if_true]
      omega

theorem linkRank_exit {R : ReadRule} {l m : Link C₁ C₂}
    (h : l.serverStep R .exit = some m) : linkRank m + 11 ≤ linkRank l := by
  cases Link.serverStep_move h with
  | exit hserver =>
      simp only [linkRank, hserver, Server.held_exited, Server.held_returned,
        serverStage, Channel.shut_buf]
      omega

theorem rank_step {R : ReadRule} {input : List Byte} {s t : State C₁ C₂} {a : Act}
    (hs : Inv input s) (h : s.step R a = some t) :
    rank t + (if works a then 1 else 0) ≤ rank s := by
  have hnoeof := hs.not_reply_atEof
  unfold rank
  cases State.step_move h with
  | fgets hpc hinput =>
      have hpos := List.length_pos_iff.mpr
        (nextPiece_ne_nil (d := newline) (k := MAXLINE - 1) (by decide) hinput)
      have hsum := congrArg List.length (nextPiece_append newline (MAXLINE - 1) s.input)
      have hcut := (cString_prefix_self
        (nextPiece newline (MAXLINE - 1) s.input).1).length_le
      rw [List.length_append] at hsum
      simp only [hpc, Pc.unsent, clientStage, works, List.length_nil, if_true]
      omega
  | fgetsEof hpc hinput =>
      simp only [hpc, Pc.unsent, clientStage, works, if_true]
      omega
  | send hpc hsend =>
      obtain ⟨-, -, hbuf, -, hreply, hserver⟩ := Link.send_eq_some hsend
      simp only [hpc, linkRank, hbuf, hreply, hserver, Pc.unsent, clientStage, works,
        List.length_append, List.length_cons, List.length_nil, if_true]
      omega
  | writenReturn hpc =>
      simp only [hpc, Pc.unsent, clientStage, works, List.length_nil, if_true]
      omega
  | fill hpc hempty hrecv =>
      obtain ⟨hallow, hlen, happ, -, hrequest, hserver⟩ := Link.receive_eq_some hrecv
      have hpos := R.pos hallow
      have hsum := congrArg List.length happ
      rw [List.length_append] at hsum
      simp only [linkRank, hempty, hrequest, hserver, works, List.length_nil, if_true]
      omega
  | fillEintr hpc => exact Nat.le_refl _
  | fillEof hpc heof => exact absurd heof hnoeof
  | byte hpc hunread =>
      unfold State.store
      split <;>
        simp only [hpc, hunread, Pc.unsent, clientStage, works, List.length_cons,
          List.length_nil, if_true] <;> omega
  | fputs hpc =>
      simp only [hpc, Pc.unsent, clientStage, works, List.length_nil, if_true]
      omega
  | @server a l hserver =>
      have hlink := linkRank_step hserver
      change 10 * s.input.length + 6 * s.pc.unsent.length + s.readBuf.unread.length +
        clientStage s.pc + linkRank l + (if serverWorks a then 1 else 0) ≤ _
      omega

theorem rank_start (input : List Byte) :
    rank (.start input : State C₁ C₂) = 10 * input.length + 14 := rfl

end Rank

section Stuck

def ClientStuck (s : State C₁ C₂) : Prop :=
  ∀ a, (∀ b, a ≠ .server b) → works a = true → s.step .short a = none

def ServerStuck (l : Link C₁ C₂) : Prop :=
  ∀ a, serverWorks a = true → l.serverStep .short a = none

theorem ClientStuck.cases {s : State C₁ C₂} {input : List Byte} (h : ClientStuck s)
    (hs : Inv input s) :
    (∃ rest, s.pc = .writen rest ∧ rest ≠ [] ∧ s.link.request.buf.length = C₁) ∨
      (∃ acc, s.pc = .readline acc ∧ s.readBuf.unread = [] ∧ s.link.reply.buf = []) ∨
      s.pc = .returned := by
  cases hpc : s.pc with
  | head =>
      by_cases hinput : s.input = []
      · have hnone := h .fgetsEof (by simp) rfl
        simp [State.step, hpc, hinput] at hnone
      · have hnone := h .fgets (by simp) rfl
        simp [State.step, hpc, hinput] at hnone
  | writen rest =>
      cases rest with
      | nil =>
          have hnone := h .writenReturn (by simp) rfl
          simp [State.step, hpc] at hnone
      | cons b rest =>
          refine .inl ⟨_, rfl, by simp, ?_⟩
          have hnone := h .send (by simp) rfl
          rw [State.step, hpc, Option.map_eq_none_iff, Link.send,
            Option.map_eq_none_iff] at hnone
          by_contra hroom
          have hlt := Nat.lt_of_le_of_ne s.link.request.bounded hroom
          obtain ⟨d, hput, -⟩ := Channel.put_of_room hs.isOpen hlt b
          rw [hnone] at hput
          cases hput
  | readline acc =>
      refine .inr (.inl ⟨_, rfl, ?_⟩)
      cases hunread : s.readBuf.unread with
      | cons c rest =>
          have hnone := h .byte (by simp) rfl
          simp [State.step, hpc, hunread] at hnone
      | nil =>
          refine ⟨rfl, ?_⟩
          by_contra hreply
          have hpos := List.length_pos_iff.mpr hreply
          have hnone := h (.fill 1) (by simp) rfl
          rw [State.step, hpc] at hnone
          simp only [hunread, if_true] at hnone
          rw [Option.map_eq_none_iff, Link.receive, Option.map_eq_none_iff] at hnone
          obtain ⟨d, hrecv, -⟩ := Channel.recv_of_allows
            (ReadRule.short_allows (n := MAXLINE) (by decide) (by decide) hpos)
          rw [hnone] at hrecv
          cases hrecv
  | fputs line =>
      have hnone := h .fputs (by simp) rfl
      simp [State.step, hpc] at hnone
  | returned => exact .inr (.inr rfl)
  | errQuit =>
      have hex := hs.exchange
      rw [Exchange, hpc] at hex
      exact hex.elim

theorem ServerStuck.cases {l : Link C₁ C₂} (h : ServerStuck l) (hl : l.Ok) :
    (l.server = .reading ∧ l.request.buf = [] ∧ l.request.closed = false) ∨
      (∃ rest, l.server = .writen rest ∧ rest ≠ [] ∧ l.reply.buf.length = C₂) ∨
      l.server = .exited := by
  cases hserver : l.server with
  | reading =>
      refine .inl ⟨rfl, ?_⟩
      have hbuf : l.request.buf = [] := by
        by_contra hne
        have hpos := List.length_pos_iff.mpr hne
        have hnone := h (.read 1) rfl
        rw [Link.serverStep, if_pos hserver, Option.map_eq_none_iff] at hnone
        obtain ⟨d, hrecv, -⟩ := Channel.recv_of_allows
          (ReadRule.short_allows (n := MAXLINE) (by decide) (by decide) hpos)
        rw [hnone] at hrecv
        cases hrecv
      refine ⟨hbuf, ?_⟩
      by_contra hclosed
      have hnone := h .readEof rfl
      simp [Link.serverStep, hserver, Channel.AtEof, hbuf, hclosed] at hnone
  | writen rest =>
      cases rest with
      | nil =>
          have hnone := h .writenReturn rfl
          simp [Link.serverStep, hserver] at hnone
      | cons b rest =>
          refine .inr (.inl ⟨_, rfl, by simp, ?_⟩)
          have hnone := h .write rfl
          rw [Link.serverStep, hserver, Option.map_eq_none_iff] at hnone
          have hopen : l.reply.closed = false := by
            rw [← Bool.not_eq_true, hl.closed_iff, hserver]
            simp
          by_contra hroom
          have hlt := Nat.lt_of_le_of_ne l.reply.bounded hroom
          obtain ⟨d, hput, -⟩ := Channel.put_of_room hopen hlt b
          rw [hnone] at hput
          cases hput
  | returned =>
      have hnone := h .exit rfl
      simp [Link.serverStep, hserver] at hnone
  | exited => exact .inr (.inr rfl)

/-- Both ends stand still only at the end or in a hang, if the connection has room
for all of a line but two bytes: with less, each end could wait for the other to
read. -/
theorem returned_or_hang {input : List Byte} {s : State C₁ C₂} (hs : Inv input s)
    (hC₁ : 0 < C₁) (hC₂ : 0 < C₂) (hroom : MAXLINE ≤ C₁ + C₂ + 2)
    (hclient : ClientStuck s) (hserver : ServerStuck s.link) :
    s.pc = .returned ∨ Hang s := by
  have hnotExited : s.link.server ≠ .exited := by
    intro hexited
    have hclosed := (hs.link.atEof (.inr hexited)).2
    rw [hs.isOpen] at hclosed
    cases hclosed
  have hex := hs.exchange
  rcases hclient.cases hs with ⟨rest, hpc, hrest, hfull⟩ | ⟨acc, hpc, hbuf, hreply⟩ | hpc
  · rcases hserver.cases hs.link with ⟨-, hempty, -⟩ | ⟨held, hheld, hne, hback⟩ | hexited
    · rw [hempty, List.length_nil] at hfull
      omega
    · -- the whole chunk is under way
      rw [Exchange, hpc] at hex
      have hmem : returning s ++ rest ∈ s.chunks := by
        rw [hex.2]
        exact List.mem_append_right _ (List.mem_singleton_self _)
      have hlen := (hs.of_mem_chunks hmem).1.2
      have hone := List.length_pos_iff.mpr hne
      have htwo := List.length_pos_iff.mpr hrest
      simp only [returning, Link.inFlight, hheld, Server.held_writen,
        List.length_append] at hlen
      omega
    · exact absurd hexited hnotExited
  · rcases hserver.cases hs.link with ⟨hreading, hempty, -⟩ | ⟨held, -, -, hback⟩ | hexited
    · refine .inr ⟨⟨acc, hpc⟩, hbuf, ?_, hreading⟩
      simp [Link.inFlight, hreading, hempty, hreply]
    · rw [hreply, List.length_nil] at hback
      omega
    · exact absurd hexited hnotExited
  · exact .inl hpc

end Stuck

section Fate

def chunks (input : List Byte) : List (List Byte) :=
  (pieces newline (MAXLINE - 1) input).map cString

def Answered (chunk : List Byte) : Bool :=
  decide (Complete newline (MAXLINE - 1) chunk)

/-- The chunks that come back, up to the first whose end `Readline` does not see. -/
def answered (input : List Byte) : List (List Byte) :=
  (chunks input).takeWhile Answered

structure Replied (s : State C₁ C₂) : Prop where
  complete : ∀ r ∈ s.replies, Answered r = true
  ended : s.pc = .returned → s.input = []

theorem Replied.step {R : ReadRule} {input : List Byte} {s t : State C₁ C₂} {a : Act}
    (hs : Inv input s) (hwait : Waiting input s) (h : Replied s)
    (hstep : s.step R a = some t) : Replied t := by
  obtain ⟨hcomplete, hended⟩ := h
  have hnoeof := hs.not_reply_atEof
  cases State.step_move hstep with
  | fgetsEof hpc hinput => exact ⟨hcomplete, fun _ => hinput⟩
  | fillEof hpc heof => exact absurd heof hnoeof
  | @byte acc rest c hpc hunread =>
      obtain ⟨hnl, hlen⟩ := hwait.short acc hpc
      unfold State.store
      split
      · rename_i hends
        refine ⟨?_, by simp⟩
        intro r hr
        rcases List.mem_append.mp hr with hr | hr
        · exact hcomplete r hr
        · obtain rfl := List.mem_singleton.mp hr
          have hone : (acc ++ [c]).length + 1 ≤ MAXLINE := by
            rw [List.length_append, List.length_singleton]
            exact hlen
          exact decide_eq_true ((endsLine_iff hnl hone).mp hends)
      · exact ⟨hcomplete, by simp⟩
  | fill hpc hempty hrecv => exact ⟨hcomplete, hended⟩
  | fillEintr hpc => exact ⟨hcomplete, hended⟩
  | server hserver => exact ⟨hcomplete, hended⟩
  | _ => exact ⟨hcomplete, by simp⟩

theorem reachable_replied {R : ReadRule} {input : List Byte} {s : State C₁ C₂}
    (h : (system C₁ C₂ R input).Reachable s) : Replied s := by
  refine h.invariant ?_ fun s a t hs hr hst =>
    hr.step (reachable_inv hs) (reachable_waiting hs) hst
  rintro s rfl
  exact ⟨by simp [State.start], by simp [State.start]⟩

theorem chunks_cut {R : ReadRule} {input : List Byte} {s : State C₁ C₂}
    (h : (system C₁ C₂ R input).Reachable s) :
    s.chunks ++ chunks s.input = chunks input := by
  rw [chunks, chunks, State.chunks, ← List.map_append, (reachable_waiting h).cut]

theorem stdout_beginning {R : ReadRule} {input : List Byte} {s : State C₁ C₂}
    (h : (system C₁ C₂ R input).Reachable s) : s.stdout <+: (answered input).flatten := by
  have hinv := reachable_inv h
  have hreplies : s.replies <+: answered input := by
    obtain ⟨rest, hrest⟩ := hinv.replies_prefix
    have hcut := chunks_cut h
    rw [← hrest, List.append_assoc] at hcut
    rw [answered, ← hcut, List.takeWhile_append_of_pos (reachable_replied h).complete]
    exact List.prefix_append _ _
  have hout : s.stdout <+: s.replies.flatten := by
    have hex := hinv.exchange
    unfold Exchange at hex
    split at hex
    · rw [hex.2.2, hex.1]
    · rw [hex.2.2, hex.1]
    · rw [hex.1]
    · rw [hex.1]
    · obtain ⟨hreplies, -, earlier, hlast, hstdout⟩ := hex
      rw [hreplies, hlast, hstdout, List.flatten_append]
      exact List.prefix_append _ _
    · exact hex.elim
  exact hout.trans hreplies.flatten

theorem stdout_answered {R : ReadRule} {input : List Byte} {s : State C₁ C₂}
    (h : (system C₁ C₂ R input).Reachable s) (hend : s.pc = .returned ∨ Hang s) :
    s.stdout = (answered input).flatten ∧
      (s.pc = .returned ↔ ∀ c ∈ chunks input, Answered c = true) := by
  obtain ⟨hcomplete, hended⟩ := reachable_replied h
  have hcut := chunks_cut h
  have hex := (reachable_inv h).exchange
  rcases hend with hpc | ⟨⟨acc, hpc⟩, hbuf, hflight, hreading⟩
  · simp only [Exchange, hpc] at hex
    obtain ⟨hreplies, -, hout⟩ := hex
    have hall : ∀ c ∈ chunks input, Answered c = true := by
      rw [← hcut, hended hpc, ← hreplies]
      simpa [chunks] using hcomplete
    refine ⟨?_, iff_of_true hpc hall⟩
    rw [answered, List.takeWhile_eq_self_iff.mpr hall, hout, ← hcut, hended hpc]
    simp [chunks]
  · obtain ⟨hnl, hlen⟩ := (reachable_waiting h).short acc hpc
    simp only [Exchange, hpc, returning, hbuf, hflight, List.append_nil] at hex
    have hnot : Answered acc = false := by
      rw [Answered, decide_eq_false_iff_not, Complete, not_or]
      exact ⟨hnl, by omega⟩
    rw [hex.2, List.append_assoc] at hcut
    constructor
    · rw [answered, ← hcut, List.takeWhile_append_of_pos hcomplete, hex.1]
      simp [hnot]
    · rw [hpc]
      refine iff_of_false (by simp) fun hall => ?_
      have hbad := hall acc (by rw [← hcut]; simp)
      rw [hnot] at hbad
      cases hbad

end Fate

end MyUnp.StopAndWaitProgress
