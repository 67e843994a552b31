import MyUnp.SctpStrCliReply

namespace MyUnp.SctpStrCliLoop

open MyUnp.SctpStrCli MyUnp.SctpStrCliReply MyUnp.TransitionSystem
open MyUnp.PartialDelivery (isNotification)
open MyUnp.Unp hiding MAXLINE

inductive Answer
  | check (notification : List Byte) (rd_len : Int)
  | print (sri : Sri) (rd_sz : Int)
  deriving DecidableEq

def answerOf : Event → Option Answer
  | .notification recvline rd_len => some (.check (recvline.take rd_len.toNat) rd_len)
  | .fromStr sri rd_sz _ => some (.print sri rd_sz)
  | _ => none

def due : Act → Option Answer
  | .recv (.message sri flags data) =>
      some <| if isNotification flags then .check (replyOf data) (replyOf data).length
        else .print sri (replyOf data).length
  | _ => none

/-- Each message is answered once, in the order of arrival, nothing else is answered,
and an error ends the loop. -/
structure ReplyLoop (beyond file : List Byte) (s : State) (ls : List Act) (t : State) :
    Prop where
  answers : t.log.filterMap answerOf = ls.filterMap due
  ends : ∀ ms rest u, ls = ms ++ .recv .error :: rest →
    (system .getLocalAndPeerAddr beyond file).run s (ms ++ [.recv .error]) = some u →
      u.pc ≠ .recvmsg

variable {beyond file : List Byte} {s t : State}

theorem check_log (beyond : List Byte) (s : State) (rd_sz : Int) :
    ∃ e, (s.check beyond rd_sz).log = s.log ++ [e] ∧
      answerOf e = some (if isNotification s.msg_flags
        then .check (s.recvline.1.take rd_sz.toNat) rd_sz
        else .print s.sri rd_sz) := by
  unfold State.check
  split_ifs
  · exact ⟨_, rfl, rfl⟩
  · exact ⟨_, rfl, rfl⟩

theorem step_answers {l : Act}
    (h : (system .getLocalAndPeerAddr beyond file).step s l = some t) :
    ∃ es, t.log = s.log ++ es ∧
      (es.filterMap answerOf).length =
        (due l).toList.length + (if l = .recv .error then 1 else 0) ∧
      (l ≠ .recv .error → es.filterMap answerOf = (due l).toList) := by
  cases step_move h with
  | eof hpc hinput => exact ⟨[], (List.append_nil _).symm, rfl, fun _ => rfl⟩
  | reject hpc hinput hform => exact ⟨[.formError], rfl, rfl, fun _ => rfl⟩
  | @send sendOk hpc hinput hform =>
      cases sendOk with
      | true => exact ⟨_, rfl, rfl, fun _ => rfl⟩
      | false => exact ⟨_, rfl, rfl, fun _ => rfl⟩
  | @recv r hpc =>
      cases r with
      | error =>
          obtain ⟨e, hlog, he⟩ := check_log beyond
            { s with log := s.log ++ [.perror "sctp_recvmsg error"] } (-1)
          refine ⟨[.perror "sctp_recvmsg error", e], ?_, ?_, fun hne => absurd rfl hne⟩
          · rw [List.append_cons]
            exact hlog
          · rw [List.filterMap_cons_none rfl, List.filterMap_cons_some he, List.filterMap_nil]
            rfl
      | message sri flags data =>
          obtain ⟨e, hlog, he⟩ := check_log beyond (s.take sri flags data)
            (replyOf data).length
          have hfront : (s.take sri flags data).recvline.1.take
              ((replyOf data).length : Int).toNat = replyOf data := by
            change (received s.recvline data).1.take _ = _
            rw [received_cells, Int.toNat_natCast, List.take_left]
          rw [hfront] at he
          have hes : [e].filterMap answerOf = (due (.recv (.message sri flags data))).toList := by
            rw [List.filterMap_cons_some he, List.filterMap_nil]
            rfl
          refine ⟨[e], hlog, ?_, fun _ => hes⟩
          rw [hes]
          rfl

theorem run_answers {ls : List Act}
    (h : (system .getLocalAndPeerAddr beyond file).run s ls = some t) :
    ∃ es, t.log = s.log ++ es ∧
      (es.filterMap answerOf).length = (ls.filterMap due).length + ls.count (.recv .error) ∧
      (.recv .error ∉ ls → es.filterMap answerOf = ls.filterMap due) := by
  induction ls generalizing s with
  | nil =>
      obtain rfl := Option.some.inj h
      exact ⟨[], (List.append_nil _).symm, rfl, fun _ => rfl⟩
  | cons l ls ih =>
      obtain ⟨u, hstep, hrest⟩ := Option.bind_eq_some_iff.mp h
      obtain ⟨es, hlog, hlen, hdue⟩ := step_answers hstep
      obtain ⟨es', hlog', hlen', hdue'⟩ := ih hrest
      have hcons : (l :: ls).filterMap due = (due l).toList ++ ls.filterMap due := by
        rw [List.filterMap_cons]
        cases due l with
        | none => rfl
        | some a => rfl
      refine ⟨es ++ es', ?_, ?_, fun hmem => ?_⟩
      · rw [hlog', hlog, List.append_assoc]
      · rw [List.filterMap_append, hcons, List.length_append, List.length_append, hlen, hlen',
          List.count_cons]
        simp only [beq_iff_eq]
        omega
      · rw [List.mem_cons, not_or] at hmem
        rw [List.filterMap_append, hcons, hdue (Ne.symm hmem.1), hdue' hmem.2]

theorem errors_keep_loop (hpc : s.pc = .recvmsg) (hflags : isNotification s.msg_flags)
    (n : Nat) :
    ∃ u, (system .getLocalAndPeerAddr beyond file).run s (List.replicate n (.recv .error)) =
      some u ∧ u.pc = .recvmsg := by
  induction n generalizing s with
  | zero => exact ⟨s, rfl, hpc⟩
  | succ n ih =>
      have hstep : (system .getLocalAndPeerAddr beyond file).step s (.recv .error) =
          some { s with log := s.log ++ [.perror "sctp_recvmsg error"] ++
            [.notification s.recvline.1 (-1)] } := by
        change s.step .getLocalAndPeerAddr beyond (.recv .error) = _
        rw [State.step, hpc]
        dsimp only
        rw [State.receive, State.check, if_pos hflags, ← hpc]
      rw [List.replicate_succ, System.run_cons_of_step hstep]
      exact ih hpc hflags

/-- Over every run of the client, the loop does what it should exactly if no
`sctp_recvmsg` fails. -/
theorem reply_loop_iff {ls : List Act} (hs : State.IsStart file s)
    (hrun : (system .getLocalAndPeerAddr beyond file).run s ls = some t) :
    ReplyLoop beyond file s ls t ↔ .recv .error ∉ ls := by
  obtain ⟨es, hlog, hlen, hdue⟩ := run_answers hrun
  rw [hs.log, List.nil_append] at hlog
  rw [← hlog] at hlen hdue
  constructor
  · intro hloop
    have hcount : ls.count (.recv .error) = 0 := by
      rw [hloop.answers] at hlen
      omega
    exact List.count_eq_zero.mp hcount
  · intro hmem
    refine ⟨hdue hmem, fun ms rest u hls _ => ?_⟩
    refine absurd ?_ hmem
    rw [hls]
    exact List.mem_append_right _ List.mem_cons_self

def exampleNotified : State :=
  ((State.start [91, 48, 93, 97, 10]).send true).receive .getLocalAndPeerAddr []
    (.message ⟨0, 0, 0⟩ 0x8000 [1])

theorem reply_loop_iff_notified :
    ReplyLoop [] [91, 48, 93, 97, 10] (.start [91, 48, 93, 97, 10])
        [.line true, .recv (.message ⟨0, 0, 0⟩ 0x8000 [1])] exampleNotified ↔
      Act.recv .error ∉ [Act.line true, .recv (.message ⟨0, 0, 0⟩ 0x8000 [1])] :=
  reply_loop_iff (State.start_isStart _) rfl

/-- A notification is handed over a second time after an error, and the loop goes on. -/
theorem error_repeats_notification :
    ¬ ∀ (file : List Byte) (s t : State) (ls : List Act), State.IsStart file s →
      (system .getLocalAndPeerAddr [] file).run s ls = some t → ReplyLoop [] file s ls t := by
  intro hall
  have hloop := hall _ _ (exampleNotified.receive .getLocalAndPeerAddr [] .error)
    [.line true, .recv (.message ⟨0, 0, 0⟩ 0x8000 [1]), .recv .error]
    (State.start_isStart [91, 48, 93, 97, 10]) rfl
  have hpc := hloop.ends [.line true, .recv (.message ⟨0, 0, 0⟩ 0x8000 [1])] []
    (exampleNotified.receive .getLocalAndPeerAddr [] .error) rfl rfl
  exact hpc rfl

end MyUnp.SctpStrCliLoop
