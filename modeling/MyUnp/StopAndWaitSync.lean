import MyUnp.StopAndWaitClient

namespace MyUnp.StopAndWaitSync

open MyUnp.TransitionSystem
open MyUnp.Fifo
open MyUnp.LinePieces
open MyUnp.Unp
open MyUnp.EchoServer
open MyUnp.Readline
open MyUnp.StopAndWaitClient

variable {C₁ C₂ : Nat}

def returning (s : State C₁ C₂) : List Byte :=
  s.readBuf.unread ++ s.link.inFlight

def IsLine (l : List Byte) : Prop :=
  OneLine newline l ∧ l.length + 1 ≤ MAXLINE

theorem isLine_nextPiece (s : List Byte) :
    IsLine (nextPiece newline (MAXLINE - 1) s).1 := by
  refine ⟨nextPiece_oneLine _ _ _, ?_⟩
  have hlen := nextPiece_length_le newline (MAXLINE - 1) s
  have hpos := MAXLINE_pos
  omega

theorem IsLine.of_prefix {l m : List Byte} (hl : IsLine l) (h : m <+: l) :
    IsLine m := by
  obtain ⟨rest, rfl⟩ := h
  refine ⟨fun front back hm => ?_, ?_⟩
  · have hback := hl.1 front (back ++ rest) (by simp [hm])
    exact (List.append_eq_nil_iff.mp hback).1
  · have hlen := hl.2
    rw [List.length_append] at hlen
    omega

theorem isLine_cString {l : List Byte} (hl : IsLine l) : IsLine (cString l) :=
  hl.of_prefix (cString_prefix_self l)

/-- `Readline` stops exactly where a line does: the byte that ends its loop is
the last of the line it is reading. -/
theorem IsLine.rest_nil {acc rest : List Byte} {c : Byte}
    (hl : IsLine (acc ++ c :: rest)) (h : endsLine MAXLINE acc c = true) :
    rest = [] := by
  simp only [endsLine, Bool.or_eq_true, decide_eq_true_eq] at h
  rcases h with rfl | hfull
  · exact hl.1 acc rest rfl
  · have hlen := hl.2
    rw [List.length_append, List.length_cons] at hlen
    exact List.eq_nil_of_length_eq_zero (by omega)

/-- What is outstanding at each program point. Inside the exchange, the bytes
of the last chunk are spread over the client, the connection, the server and
the buffer of `my_read`, in order. -/
def Exchange (s : State C₁ C₂) : Prop :=
  match s.pc with
  | .head | .returned =>
      s.replies = s.chunks ∧ returning s = [] ∧ s.stdout = s.chunks.flatten
  | .writen rest =>
      s.stdout = s.replies.flatten ∧
        s.chunks = s.replies ++ [returning s ++ rest]
  | .readline acc =>
      s.stdout = s.replies.flatten ∧
        s.chunks = s.replies ++ [acc ++ returning s]
  | .fputs line =>
      s.replies = s.chunks ∧ returning s = [] ∧
        ∃ earlier, s.chunks = earlier ++ [line] ∧ s.stdout = earlier.flatten
  | .errQuit => False

structure Inv (input : List Byte) (s : State C₁ C₂) : Prop where
  link : s.link.Ok
  isOpen : s.link.request.closed = false
  supply : s.lines.flatten ++ s.input = input
  isLine : ∀ l ∈ s.lines, IsLine l
  sent : s.sent ++ s.pc.unsent = s.chunks.flatten
  exchange : Exchange s

theorem inv_start (input : List Byte) :
    Inv input (State.start input : State C₁ C₂) where
  link := Link.start_ok
  isOpen := rfl
  supply := rfl
  isLine _ hl := nomatch hl
  sent := rfl
  exchange := ⟨rfl, rfl, rfl⟩

theorem Inv.of_mem_chunks {input : List Byte} {s : State C₁ C₂}
    (hs : Inv input s) {w : List Byte} (hw : w ∈ s.chunks) :
    IsLine w ∧ cString w = w := by
  obtain ⟨l, hl, rfl⟩ := List.mem_map.mp hw
  exact ⟨isLine_cString (hs.isLine l hl), cString_eq_self (zero_not_mem_cString l)⟩

theorem Inv.not_reply_atEof {input : List Byte} {s : State C₁ C₂}
    (hs : Inv input s) : ¬ s.link.reply.AtEof := by
  intro heof
  have hclosed := (hs.link.reply_atEof heof).2
  simp [hs.isOpen] at hclosed

section Steps

variable {input : List Byte} {s : State C₁ C₂}

theorem Inv.fgets (hs : Inv input s) (hpc : s.pc = .head) :
    Inv input
      { s with
        pc := .writen (cString (nextPiece newline (MAXLINE - 1) s.input).1)
        lines := s.lines ++ [(nextPiece newline (MAXLINE - 1) s.input).1]
        input := (nextPiece newline (MAXLINE - 1) s.input).2 } := by
  obtain ⟨hlink, hopen, hsupply, hline, hsent, hex⟩ := hs
  simp only [hpc, Exchange] at hsent hex
  have happ := nextPiece_append newline (MAXLINE - 1) s.input
  refine ⟨hlink, hopen, ?_, ?_, ?_, ?_⟩
  · rw [← hsupply, List.flatten_append, List.append_assoc]
    congr 1
    simpa using happ
  · intro l hl
    rcases List.mem_append.mp hl with hl | hl
    · exact hline l hl
    · obtain rfl := List.mem_singleton.mp hl
      exact isLine_nextPiece s.input
  · simpa [State.chunks, Pc.unsent] using hsent
  · obtain ⟨hrep, hret, hout⟩ := hex
    refine ⟨hrep ▸ hout, ?_⟩
    change returning s = [] at hret
    simp only [returning] at hret
    simp [State.chunks, returning, hret, hrep]

theorem Inv.send (hs : Inv input s) {b : Byte} {rest : List Byte} {l : Link C₁ C₂}
    (hpc : s.pc = .writen (b :: rest)) (hsend : s.link.send b = some l) :
    Inv input { s with pc := .writen rest, sent := s.sent ++ [b], link := l } := by
  obtain ⟨hlink, -, hsupply, hline, hsent, hex⟩ := hs
  simp only [hpc, Exchange, Pc.unsent] at hsent hex
  obtain ⟨-, -, -, hopen, -, -⟩ := Link.send_eq_some hsend
  refine ⟨hlink.send hsend, hopen, hsupply, hline, ?_, hex.1, ?_⟩
  · simpa [State.chunks, Pc.unsent] using hsent
  · simpa [State.chunks, returning, Link.send_inFlight hsend] using hex.2

theorem Inv.byte (hs : Inv input s) {acc rest : List Byte} {c : Byte}
    (hpc : s.pc = .readline acc) (hunread : s.readBuf.unread = c :: rest) :
    Inv input ({ s with readBuf := ⟨rest⟩ }.store acc c) := by
  have hchunk := @hs.of_mem_chunks
  obtain ⟨hlink, hopen, hsupply, hline, hsent, hex⟩ := hs
  simp only [hpc, Exchange, returning, hunread, List.cons_append] at hsent hex
  have hlast := hex.2
  unfold State.store
  split
  · rename_i hends
    have hmem : acc ++ c :: (rest ++ s.link.inFlight) ∈ s.chunks := by
      simp [hlast]
    have hrest := (hchunk hmem).1.rest_nil hends
    rw [hrest] at hlast
    refine ⟨hlink, hopen, hsupply, hline, hsent, hlast.symm, hrest, s.replies,
      hlast, hex.1⟩
  · refine ⟨hlink, hopen, hsupply, hline, hsent, hex.1, ?_⟩
    simpa [State.chunks, returning] using hlast

theorem Inv.fputs (hs : Inv input s) {line : List Byte} (hpc : s.pc = .fputs line) :
    Inv input { s with pc := .head, stdout := s.stdout ++ cString line } := by
  have hchunk := @hs.of_mem_chunks
  obtain ⟨hlink, hopen, hsupply, hline, hsent, hex⟩ := hs
  simp only [hpc, Exchange] at hsent hex
  obtain ⟨hrep, hret, earlier, hlast, hout⟩ := hex
  have hmem : line ∈ s.chunks := by simp [hlast]
  refine ⟨hlink, hopen, hsupply, hline, hsent, hrep, hret, ?_⟩
  change s.stdout ++ cString line = s.chunks.flatten
  simp [(hchunk hmem).2, hlast, hout]

theorem Inv.step {R : ReadRule} {t : State C₁ C₂} {a : Act} (hs : Inv input s)
    (h : s.step R a = some t) : Inv input t := by
  have hnoeof := hs.not_reply_atEof
  obtain ⟨hlink, hopen, hsupply, hline, hsent, hex⟩ := id hs
  cases State.step_move h with
  | fgets hpc hinput => exact hs.fgets hpc
  | fgetsEof hpc hinput =>
      simp only [hpc, Exchange] at hsent hex
      exact ⟨hlink, hopen, hsupply, hline, hsent, hex⟩
  | send hpc hsend => exact hs.send hpc hsend
  | writenReturn hpc =>
      simp only [hpc, Exchange] at hsent hex
      refine ⟨hlink, hopen, hsupply, hline, hsent, hex.1, ?_⟩
      simpa [State.chunks, returning] using hex.2
  | fill hpc hempty hrecv =>
      obtain ⟨-, -, -, -, hrequest, -⟩ := Link.receive_eq_some hrecv
      refine ⟨hlink.receive hrecv, hrequest ▸ hopen, hsupply, hline, hsent, ?_⟩
      simp only [Exchange, hpc, returning, hempty, State.chunks,
        List.nil_append] at hex ⊢
      rw [Link.receive_inFlight hrecv]
      exact hex
  | fillEintr hpc => exact hs
  | fillEof hpc heof => exact absurd heof hnoeof
  | byte hpc hunread => exact hs.byte hpc hunread
  | fputs hpc => exact hs.fputs hpc
  | server hserver =>
      have hclosed := Link.serverStep_request_closed hserver
      have hflight := Link.serverStep_inFlight hserver
      refine ⟨hlink.serverStep hserver, hclosed.trans hopen, hsupply, hline,
        hsent, ?_⟩
      simpa only [Exchange, returning, hflight, State.chunks] using hex

end Steps

theorem reachable_inv {R : ReadRule} {input : List Byte} {s : State C₁ C₂}
    (h : (system C₁ C₂ R input).Reachable s) : Inv input s := by
  refine h.invariant ?_ fun _ _ _ _ hs hstep => hs.step hstep
  rintro s rfl
  exact inv_start input

theorem Inv.replies_prefix {input : List Byte} {s : State C₁ C₂}
    (hs : Inv input s) : s.replies <+: s.chunks := by
  have hex := hs.exchange
  unfold Exchange at hex
  split at hex
  · exact ⟨[], by rw [hex.1, List.append_nil]⟩
  · exact ⟨[], by rw [hex.1, List.append_nil]⟩
  · exact ⟨_, hex.2.symm⟩
  · exact ⟨_, hex.2.symm⟩
  · exact ⟨[], by rw [hex.1, List.append_nil]⟩
  · exact hex.elim

/-- Stop and wait: whenever the client asks for the next line, all it sent has
come back and is on `stdout`, and the replies so far are the chunks so far. -/
theorem strCli_synchronised (C₁ C₂ : Nat) (input : List Byte) (s : State C₁ C₂)
    (h : (system C₁ C₂ .short input).Reachable s) :
    s.replies <+: s.lines.map cString ∧
      (s.pc = .head →
        s.lines.flatten ++ s.input = input ∧
          s.sent = (s.lines.map cString).flatten ∧
          s.link.inFlight = [] ∧
          s.readBuf.unread = [] ∧
          s.replies = s.lines.map cString ∧
          s.stdout = (s.lines.map cString).flatten) := by
  have hinv := reachable_inv h
  refine ⟨hinv.replies_prefix, fun hpc => ?_⟩
  have hex := hinv.exchange
  have hsent := hinv.sent
  simp only [hpc, Exchange, returning, List.append_eq_nil_iff] at hex hsent
  obtain ⟨hrep, ⟨hbuf, hflight⟩, hout⟩ := hex
  refine ⟨hinv.supply, ?_, hflight, hbuf, hrep, hout⟩
  exact (List.append_nil _).symm.trans hsent

def oneLineRun : List Act :=
  [.fgets, .send, .server (.read 1), .send, .writenReturn, .server .write,
    .fill 1, .byte, .server .writenReturn, .fillEintr, .server (.read 1),
    .server .write, .fill 1, .byte, .fputs]

theorem strCli_synchronised_oneLine : ∃ s : State 1 1,
    (system 1 1 .short [97, 10, 98]).Reachable s ∧ s.pc = .head ∧
      s.stdout = (s.lines.map cString).flatten ∧ s.lines = [[97, 10]] := by
  obtain ⟨s, hrun, hpc, hlines⟩ : ∃ s : State 1 1,
      (system 1 1 .short [97, 10, 98]).run (.start [97, 10, 98]) oneLineRun =
          some s ∧
        s.pc = .head ∧ s.lines = [[97, 10]] := ⟨_, rfl, rfl, rfl⟩
  have hreach : (system 1 1 .short [97, 10, 98]).Reachable s := ⟨_, _, rfl, hrun⟩
  have hfacts := (strCli_synchronised 1 1 [97, 10, 98] s hreach).2 hpc
  exact ⟨s, hreach, hpc, hfacts.2.2.2.2.2, hlines⟩

end MyUnp.StopAndWaitSync
