import MyUnp.SelectClient

namespace MyUnp.SelectClientDeadlock

open MyUnp.TransitionSystem
open MyUnp.Fifo
open MyUnp.Unp
open MyUnp.EchoServer
open MyUnp.SelectClient

variable {C₁ C₂ : Nat}

def ClientBlocked (s : State C₁ C₂) : Prop :=
  ∃ b rest, s.pc = .writen (b :: rest) ∧ s.link.request.buf.length = C₁

def ServerBlocked (s : State C₁ C₂) : Prop :=
  ∃ b rest, s.link.server = .writen (b :: rest) ∧ s.link.reply.buf.length = C₂

/-- Either the reply direction can take all the server holds, or the request
direction can take `m` more bytes. -/
def Slack (l : Link C₁ C₂) (m : Nat) : Prop :=
  l.reply.buf.length + l.server.held.length ≤ C₂ ∨
    l.request.buf.length + m ≤ C₁

theorem Slack.serverStep {l l' : Link C₁ C₂} {a : ServerAct} {m : Nat}
    (h₁ : MAXLINE ≤ C₁) (hm : m ≤ MAXLINE) (hl : Slack l m)
    (h : l.serverStep .full a = some l') : Slack l' m := by
  cases Link.serverStep_move h with
  | @read k buf c hserver hrecv =>
      obtain ⟨hallow, hlen, happ, -⟩ := Channel.recv_eq_some hrecv
      have hk := ReadRule.full_eq_min hallow
      have hbound := l.request.bounded
      have hsplit := congrArg List.length happ
      rw [List.length_append] at hsplit
      right
      change c.buf.length + m ≤ C₁
      omega
  | readEof hserver heof => simpa [Slack, hserver] using hl
  | readEintr hserver => exact hl
  | write hserver hput =>
      obtain ⟨-, -, hbuf, -⟩ := Channel.put_eq_some hput
      simp only [Slack, hserver, hbuf, Server.held_writen, List.length_append,
        List.length_cons, List.length_nil] at hl ⊢
      omega
  | writenReturn hserver => simpa [Slack, hserver] using hl
  | exit hserver => simpa [Slack, hserver] using hl

/-- How much the client may still have to copy at each program point. Before
the socket has been looked at nothing is known; after that, a whole buffer. -/
def Room (s : State C₁ C₂) : Prop :=
  match s.pc with
  | .select => s.rset.sockfd = true
  | .testSock => s.rset.sockfd = false → Slack s.link MAXLINE
  | .write _ | .testInput => Slack s.link MAXLINE
  | .writen rest => rest.length ≤ MAXLINE ∧ Slack s.link rest.length
  | _ => True

structure Inv (s : State C₁ C₂) : Prop where
  link : s.link.Ok
  room : Room s

theorem slack_receive {l l' : Link C₁ C₂} {k : Nat} {buf : List Byte}
    (h₂ : MAXLINE ≤ C₂) (hl : l.Ok)
    (h : l.receive .full MAXLINE k = some (buf, l')) : Slack l' MAXLINE := by
  obtain ⟨hallow, hlen, happ, -, -, hserver⟩ := Link.receive_eq_some h
  have hk := ReadRule.full_eq_min hallow
  have hbound := l.reply.bounded
  have hheld := hl.held_le
  have hsplit := congrArg List.length happ
  rw [List.length_append] at hsplit
  left
  rw [hserver]
  omega

theorem slack_of_reply_nil {l : Link C₁ C₂} (h₂ : MAXLINE ≤ C₂) (hl : l.Ok)
    (hreply : l.reply.buf = []) (m : Nat) : Slack l m := by
  left
  rw [hreply]
  exact (Nat.zero_add _).le.trans (hl.held_le.trans h₂)

theorem Inv.step (h₁ : MAXLINE ≤ C₁) (h₂ : MAXLINE ≤ C₂) {s t : State C₁ C₂}
    {a : Act} (hs : Inv s) (h : s.step .full a = some t) : Inv t := by
  obtain ⟨hlink, hroom⟩ := hs
  cases State.step_move h with
  | arm hpc => exact ⟨hlink, rfl⟩
  | @select fpReady hpc =>
      simp only [Room, hpc] at hroom
      refine ⟨hlink, fun hset => ?_⟩
      -- `select` found the socket unreadable, so no reply was waiting
      have hreply : s.link.reply.buf = [] := by
        simp only [State.ready, hroom, Bool.true_and, Bool.or_eq_false_iff,
          Bool.not_eq_false', List.isEmpty_iff] at hset
        exact hset.1
      exact slack_of_reply_nil h₂ hlink hreply _
  | skipSock hpc hset =>
      simp only [Room, hpc] at hroom
      exact ⟨hlink, hroom hset⟩
  | readSock hpc hrecv =>
      exact ⟨hlink.receive hrecv, slack_receive h₂ hlink hrecv⟩
  | readSockEof hpc heof =>
      refine ⟨hlink, ?_⟩
      cases s.stdineof <;> trivial
  | write hpc =>
      simp only [Room, hpc] at hroom
      exact ⟨hlink, hroom⟩
  | skipInput hpc => exact ⟨hlink, trivial⟩
  | readInput hpc hset hk =>
      simp only [Room, hpc] at hroom
      have hlen : (s.input.take _).length ≤ MAXLINE :=
        (List.length_take_le _ _).trans hk
      refine ⟨hlink, hlen, ?_⟩
      simp only [Slack] at hroom ⊢
      omega
  | readInputEof hpc hset hinput => exact ⟨hlink, trivial⟩
  | shutdown hpc => exact ⟨hlink.shutdown, trivial⟩
  | send hpc hsend =>
      obtain ⟨-, -, hbuf, -, hreply, hserver⟩ := Link.send_eq_some hsend
      simp only [Room, hpc, List.length_cons] at hroom
      refine ⟨hlink.send hsend, Nat.le_of_succ_le hroom.1, ?_⟩
      have hslack := hroom.2
      simp only [Slack, hbuf, hreply, hserver, List.length_append,
        List.length_cons, List.length_nil] at hslack ⊢
      omega
  | writenReturn hpc => exact ⟨hlink, trivial⟩
  | server hserver =>
      refine ⟨hlink.serverStep hserver, ?_⟩
      have hstep := fun m hm hl =>
        Slack.serverStep (m := m) h₁ hm hl hserver
      revert hroom
      simp only [Room]
      split
      · exact id
      · exact fun hroom hset => hstep _ (Nat.le_refl _) (hroom hset)
      · exact hstep _ (Nat.le_refl _)
      · exact hstep _ (Nat.le_refl _)
      · exact fun hroom => ⟨hroom.1, hstep _ hroom.1 hroom.2⟩
      · exact id

theorem reachable_inv (h₁ : MAXLINE ≤ C₁) (h₂ : MAXLINE ≤ C₂)
    {input : List Byte} {s : State C₁ C₂}
    (h : (system C₁ C₂ .full input).Reachable s) : Inv s := by
  refine h.invariant ?_ fun _ _ _ _ hs hstep => hs.step h₁ h₂ hstep
  rintro s rfl
  exact ⟨Link.start_ok, trivial⟩

/-- Client and server never wait for each other inside `Writen`. -/
theorem not_both_blocked (C₁ C₂ : Nat) (h₁ : MAXLINE ≤ C₁) (h₂ : MAXLINE ≤ C₂)
    (input : List Byte) (s : State C₁ C₂)
    (h : (system C₁ C₂ .full input).Reachable s) :
    ¬ (ClientBlocked s ∧ ServerBlocked s) := by
  rintro ⟨⟨b, rest, hpc, hfull⟩, ⟨b', rest', hserver, hfull'⟩⟩
  have hroom := (reachable_inv h₁ h₂ h).room
  simp only [Room, hpc, Slack, hserver, Server.held_writen,
    List.length_cons] at hroom
  omega

theorem not_both_blocked_sending : ∃ s : State MAXLINE MAXLINE,
    (system MAXLINE MAXLINE .full [104]).Reachable s ∧ s.pc = .writen [104] ∧
      ¬ (ClientBlocked s ∧ ServerBlocked s) := by
  obtain ⟨s, hrun, hpc⟩ : ∃ s : State MAXLINE MAXLINE,
      (system MAXLINE MAXLINE .full [104]).run (.start [104])
        [.arm, .select true, .skipSock, .readInput 1] = some s ∧
        s.pc = .writen [104] := ⟨_, rfl, rfl⟩
  have hreach : (system MAXLINE MAXLINE .full [104]).Reachable s :=
    ⟨_, _, rfl, hrun⟩
  exact ⟨s, hreach, hpc, not_both_blocked MAXLINE MAXLINE (Nat.le_refl _)
    (Nat.le_refl _) [104] s hreach⟩

end MyUnp.SelectClientDeadlock
