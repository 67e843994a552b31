import MyUnp.StopAndWaitSync

namespace MyUnp.StopAndWaitHang

open MyUnp.TransitionSystem
open MyUnp.Fifo
open MyUnp.LinePieces
open MyUnp.Unp
open MyUnp.EchoServer
open MyUnp.Readline
open MyUnp.StopAndWaitClient
open MyUnp.StopAndWaitSync

variable {C₁ C₂ : Nat}

/-- The client waits inside `Readline`; the server has echoed all it was sent
and waits for more. -/
def Hang (s : State C₁ C₂) : Prop :=
  (∃ acc, s.pc = .readline acc) ∧ s.readBuf.unread = [] ∧
    s.link.inFlight = [] ∧ s.link.server = .reading

section Safe

/-- The lines so far are the first pieces of the input, and `Readline` has not
seen the end of its line yet. -/
structure Waiting (input : List Byte) (s : State C₁ C₂) : Prop where
  cut : s.lines ++ pieces newline (MAXLINE - 1) s.input =
    pieces newline (MAXLINE - 1) input
  short : ∀ acc, s.pc = .readline acc →
    newline ∉ acc ∧ acc.length + 1 < MAXLINE

theorem Waiting.step {R : ReadRule} {input : List Byte} {s t : State C₁ C₂}
    {a : Act} (hs : Waiting input s) (h : s.step R a = some t) :
    Waiting input t := by
  obtain ⟨hcut, hshort⟩ := hs
  have hpos : 0 < MAXLINE - 1 := by decide
  cases State.step_move h with
  | fgets hpc hinput =>
      refine ⟨?_, by simp⟩
      rw [pieces_eq_cons hpos hinput] at hcut
      simpa using hcut
  | writenReturn hpc =>
      refine ⟨hcut, ?_⟩
      intro acc hacc
      obtain rfl := Pc.readline.inj hacc
      exact ⟨by simp, by decide⟩
  | fillEof hpc heof =>
      split
      · exact ⟨hcut, by simp⟩
      · exact ⟨hcut, by simp⟩
  | @byte acc rest c hpc hunread =>
      unfold State.store
      split
      · exact ⟨hcut, by simp⟩
      · rename_i hends
        refine ⟨hcut, ?_⟩
        intro acc' hacc'
        obtain rfl := Pc.readline.inj hacc'
        obtain ⟨hnl, hlen⟩ := hshort acc hpc
        simp only [endsLine, Bool.or_eq_true, decide_eq_true_eq, not_or] at hends
        refine ⟨?_, by rw [List.length_append]; simp; omega⟩
        simp [hnl, Ne.symm hends.1]
  | fill hpc hempty hrecv => exact ⟨hcut, hshort⟩
  | fillEintr hpc => exact ⟨hcut, hshort⟩
  | server hserver => exact ⟨hcut, hshort⟩
  | _ => exact ⟨hcut, by simp⟩

theorem reachable_waiting {R : ReadRule} {input : List Byte} {s : State C₁ C₂}
    (h : (system C₁ C₂ R input).Reachable s) : Waiting input s := by
  refine h.invariant ?_ fun _ _ _ _ hs hstep => hs.step hstep
  rintro s rfl
  exact ⟨rfl, by simp [State.start]⟩

theorem hang_incomplete {R : ReadRule} {input : List Byte} {s : State C₁ C₂}
    (h : (system C₁ C₂ R input).Reachable s) (hhang : Hang s) :
    ∃ p ∈ pieces newline (MAXLINE - 1) input,
      ¬Complete newline (MAXLINE - 1) (cString p) := by
  obtain ⟨⟨acc, hpc⟩, hbuf, hflight, -⟩ := hhang
  have hwait := reachable_waiting h
  have hex := (reachable_inv h).exchange
  simp only [Exchange, hpc, returning, hbuf, hflight, List.append_nil] at hex
  have hmem : acc ∈ s.chunks := by simp [hex.2]
  obtain ⟨p, hp, rfl⟩ := List.mem_map.mp hmem
  obtain ⟨hnl, hlen⟩ := hwait.short _ hpc
  refine ⟨p, ?_, ?_⟩
  · rw [← hwait.cut]
    exact List.mem_append_left _ hp
  · rintro (hd | hfull)
    · exact hnl hd
    · omega

end Safe

section Stuck

structure View where
  pc : Pc
  unread : List Byte
  input : List Byte
  request : List Byte
  reply : List Byte
  server : Server

def view (s : State MAXLINE MAXLINE) : View :=
  ⟨s.pc, s.readBuf.unread, s.input, s.link.request.buf, s.link.reply.buf,
    s.link.server⟩

def Seen (input : List Byte) (v : View) : Prop :=
  ∃ s, (system MAXLINE MAXLINE .short input).Reachable s ∧ view s = v

theorem Seen.of_step {input : List Byte} {v w : View} (h : Seen input v)
    (hstep : ∀ s, (system MAXLINE MAXLINE .short input).Reachable s →
      view s = v → ∃ a t, s.step .short a = some t ∧ view t = w) :
    Seen input w := by
  obtain ⟨s, hs, hv⟩ := h
  obtain ⟨a, t, hst, ht⟩ := hstep s hs hv
  exact ⟨t, hs.step hst, ht⟩

theorem Seen.of_serverStep {input : List Byte} {v w : View} (h : Seen input v)
    (hstep : ∀ s, (system MAXLINE MAXLINE .short input).Reachable s →
      view s = v → ∃ a l, s.link.serverStep .short a = some l ∧
        view { s with link := l } = w) :
    Seen input w := by
  refine h.of_step fun s hs hv => ?_
  obtain ⟨a, l, hl, hw⟩ := hstep s hs hv
  exact ⟨.server a, { s with link := l }, by simp [State.step, hl], hw⟩

variable {input u i rq rp w : List Byte} {pc : Pc} {sv : Server}

theorem Seen.fgets (h : Seen input ⟨.head, u, i, rq, rp, sv⟩) (hi : i ≠ []) :
    Seen input ⟨.writen (cString (nextPiece newline (MAXLINE - 1) i).1), u,
      (nextPiece newline (MAXLINE - 1) i).2, rq, rp, sv⟩ := by
  refine h.of_step fun s _ hv => ?_
  simp only [view, View.mk.injEq] at hv
  obtain ⟨hpc, rfl, rfl, rfl, rfl, rfl⟩ := hv
  exact ⟨.fgets, _, if_pos ⟨hpc, hi⟩, rfl⟩

theorem Seen.send {b : Byte}
    (h : Seen input ⟨.writen (b :: w), u, i, rq, rp, sv⟩)
    (hroom : rq.length < MAXLINE) :
    Seen input ⟨.writen w, u, i, rq ++ [b], rp, sv⟩ := by
  refine h.of_step fun s hs hv => ?_
  simp only [view, View.mk.injEq] at hv
  obtain ⟨hpc, rfl, rfl, rfl, rfl, rfl⟩ := hv
  obtain ⟨c, hput, hbuf⟩ := Channel.put_of_room (reachable_inv hs).isOpen hroom b
  have hsend : s.link.send b = some { s.link with request := c } := by
    simp [Link.send, hput]
  refine ⟨.send, _, by simp only [State.step, hpc, hsend]; rfl, ?_⟩
  simp [view, hbuf]

theorem Seen.writenReturn (h : Seen input ⟨.writen [], u, i, rq, rp, sv⟩) :
    Seen input ⟨.readline [], u, i, rq, rp, sv⟩ := by
  refine h.of_step fun s _ hv => ?_
  simp only [view, View.mk.injEq] at hv
  obtain ⟨hpc, rfl, rfl, rfl, rfl, rfl⟩ := hv
  exact ⟨.writenReturn, _, if_pos hpc, rfl⟩

theorem Seen.serverRead (h : Seen input ⟨pc, u, i, w, rp, .reading⟩)
    (hw : w ≠ []) (hlen : w.length ≤ MAXLINE) :
    Seen input ⟨pc, u, i, [], rp, .writen w⟩ := by
  refine h.of_serverStep fun s _ hv => ?_
  simp only [view, View.mk.injEq] at hv
  obtain ⟨rfl, rfl, rfl, rfl, rfl, hsv⟩ := hv
  have hallow := ReadRule.short_allows (List.length_pos_iff.mpr hw) hlen
    (Nat.le_refl _)
  obtain ⟨c, hrecv, hbuf⟩ := Channel.recv_of_allows hallow
  refine ⟨.read s.link.request.buf.length,
    { s.link with request := c, server := .writen s.link.request.buf }, ?_, ?_⟩
  · simp [Link.serverStep, hsv, hrecv]
  · simp [view, hbuf]

theorem Seen.serverWrite {b : Byte}
    (h : Seen input ⟨pc, u, i, rq, rp, .writen (b :: w)⟩)
    (hroom : rp.length < MAXLINE) :
    Seen input ⟨pc, u, i, rq, rp ++ [b], .writen w⟩ := by
  refine h.of_serverStep fun s hs hv => ?_
  simp only [view, View.mk.injEq] at hv
  obtain ⟨rfl, rfl, rfl, rfl, rfl, hsv⟩ := hv
  have hopen : s.link.reply.closed = false := by
    simpa [hsv] using mt (reachable_inv hs).link.closed_iff.mp
  obtain ⟨c, hput, hbuf⟩ := Channel.put_of_room hopen hroom b
  refine ⟨.write, { s.link with reply := c, server := .writen w }, ?_, ?_⟩
  · simp [Link.serverStep, hsv, hput]
  · simp [view, hbuf]

theorem Seen.serverReturn (h : Seen input ⟨pc, u, i, rq, rp, .writen []⟩) :
    Seen input ⟨pc, u, i, rq, rp, .reading⟩ := by
  refine h.of_serverStep fun s _ hv => ?_
  simp only [view, View.mk.injEq] at hv
  obtain ⟨rfl, rfl, rfl, rfl, rfl, hsv⟩ := hv
  exact ⟨.writenReturn, _, if_pos hsv, rfl⟩

theorem Seen.fill {acc : List Byte}
    (h : Seen input ⟨.readline acc, [], i, rq, w, sv⟩) (hw : w ≠ [])
    (hlen : w.length ≤ MAXLINE) :
    Seen input ⟨.readline acc, w, i, rq, [], sv⟩ := by
  refine h.of_step fun s _ hv => ?_
  simp only [view, View.mk.injEq] at hv
  obtain ⟨hpc, hempty, rfl, rfl, rfl, rfl⟩ := hv
  have hallow := ReadRule.short_allows (List.length_pos_iff.mpr hw) hlen
    (Nat.le_refl _)
  obtain ⟨c, hrecv, hbuf⟩ := Channel.recv_of_allows hallow
  refine ⟨.fill s.link.reply.buf.length,
    { s with readBuf := ⟨s.link.reply.buf⟩, link := { s.link with reply := c } },
    ?_, ?_⟩
  · simp [State.step, hpc, hempty, Link.receive, hrecv]
  · simp [view, hbuf, hpc]

theorem Seen.byte {acc : List Byte} {c : Byte}
    (h : Seen input ⟨.readline acc, c :: w, i, rq, rp, sv⟩) :
    Seen input ⟨if endsLine MAXLINE acc c then .fputs (acc ++ [c])
      else .readline (acc ++ [c]), w, i, rq, rp, sv⟩ := by
  refine h.of_step fun s _ hv => ?_
  simp only [view, View.mk.injEq] at hv
  obtain ⟨hpc, hunread, rfl, rfl, rfl, rfl⟩ := hv
  refine ⟨.byte, { s with readBuf := ⟨w⟩ }.store acc c, ?_, ?_⟩
  · simp [State.step, hpc, hunread]
  · unfold State.store
    split <;> simp [view]

theorem Seen.fputs {line : List Byte}
    (h : Seen input ⟨.fputs line, u, i, rq, rp, sv⟩) :
    Seen input ⟨.head, u, i, rq, rp, sv⟩ := by
  refine h.of_step fun s _ hv => ?_
  simp only [view, View.mk.injEq] at hv
  obtain ⟨hpc, rfl, rfl, rfl, rfl, rfl⟩ := hv
  refine ⟨.fputs, { s with pc := .head, stdout := s.stdout ++ cString line },
    ?_, rfl⟩
  simp [State.step, hpc]

theorem Seen.sendAll (h : Seen input ⟨.writen w, u, i, rq, rp, sv⟩)
    (hroom : rq.length + w.length ≤ MAXLINE) :
    Seen input ⟨.writen [], u, i, rq ++ w, rp, sv⟩ := by
  induction w generalizing rq with
  | nil => simpa using h
  | cons b w ih =>
      rw [List.length_cons] at hroom
      have hnext := ih (h.send (by omega)) (by simp; omega)
      simpa using hnext

theorem Seen.writeAll (h : Seen input ⟨pc, u, i, rq, rp, .writen w⟩)
    (hroom : rp.length + w.length ≤ MAXLINE) :
    Seen input ⟨pc, u, i, rq, rp ++ w, .writen []⟩ := by
  induction w generalizing rp with
  | nil => simpa using h
  | cons b w ih =>
      rw [List.length_cons] at hroom
      have hnext := ih (h.serverWrite (by omega)) (by simp; omega)
      simpa using hnext

theorem Seen.echoed (h : Seen input ⟨.writen w, [], i, [], [], .reading⟩)
    (hw : w ≠ []) (hlen : w.length ≤ MAXLINE) :
    Seen input ⟨.readline [], w, i, [], [], .reading⟩ := by
  have hsent := (h.sendAll (by simpa using hlen)).writenReturn
  have hread := hsent.serverRead (by simpa using hw) (by simpa using hlen)
  have hback := (hread.writeAll (by simpa using hlen)).serverReturn
  simpa using hback.fill (by simpa using hw) (by simpa using hlen)

theorem endsLine_iff {acc : List Byte} {c : Byte} (hacc : newline ∉ acc)
    (hlen : (acc ++ [c]).length + 1 ≤ MAXLINE) :
    endsLine MAXLINE acc c = true ↔
      Complete newline (MAXLINE - 1) (acc ++ [c]) := by
  have hmem : newline ∈ acc ++ [c] ↔ c = newline := by
    simp [hacc, eq_comm]
  rw [Complete, hmem, endsLine, Bool.or_eq_true, decide_eq_true_eq,
    decide_eq_true_eq]
  rw [List.length_append, List.length_singleton] at hlen ⊢
  refine or_congr_right ?_
  omega

theorem Seen.bytes {acc : List Byte}
    (h : Seen input ⟨.readline acc, w, i, [], [], .reading⟩)
    (hline : IsLine (acc ++ w)) (hacc : newline ∉ acc)
    (hshort : ¬Complete newline (MAXLINE - 1) acc) :
    if Complete newline (MAXLINE - 1) (acc ++ w) then
      Seen input ⟨.head, [], i, [], [], .reading⟩
    else Seen input ⟨.readline (acc ++ w), [], i, [], [], .reading⟩ := by
  induction w generalizing acc with
  | nil =>
      rw [List.append_nil, if_neg hshort]
      exact h
  | cons c w ih =>
      have hstep := h.byte
      have hlen : (acc ++ [c]).length + 1 ≤ MAXLINE := by
        have := hline.2
        simp only [List.length_append, List.length_cons] at this ⊢
        simp only [List.length_nil]
        omega
      by_cases hends : endsLine MAXLINE acc c = true
      · obtain rfl := hline.rest_nil hends
        rw [if_pos ((endsLine_iff hacc hlen).mp hends)]
        rw [if_pos hends] at hstep
        exact hstep.fputs
      · rw [if_neg hends] at hstep
        rw [endsLine_iff hacc hlen] at hends
        have happ : acc ++ c :: w = (acc ++ [c]) ++ w := by simp
        rw [happ] at hline ⊢
        exact ih hstep hline (fun hmem => hends (.inl hmem)) hends

theorem Seen.exchange (h : Seen input ⟨.head, [], i, [], [], .reading⟩)
    (hi : i ≠ []) :
    let p := nextPiece newline (MAXLINE - 1) i
    if Complete newline (MAXLINE - 1) (cString p.1) then
      Seen input ⟨.head, [], p.2, [], [], .reading⟩
    else Seen input ⟨.readline (cString p.1), [], p.2, [], [], .reading⟩ := by
  intro p
  have hline : IsLine (cString p.1) := isLine_cString (isLine_nextPiece i)
  have hnil : ¬Complete newline (MAXLINE - 1) ([] : List Byte) := by decide
  have hchunk := h.fgets hi
  rcases eq_or_ne (cString p.1) [] with hempty | hne
  -- a NUL in front: nothing is sent, and `Readline` waits at once
  · rw [hempty] at hchunk
    rw [hempty, if_neg hnil]
    exact hchunk.writenReturn
  · have hlen : (cString p.1).length ≤ MAXLINE := Nat.le_of_succ_le hline.2
    exact (hchunk.echoed hne hlen).bytes hline (by simp) hnil

theorem seen_hang (h : Seen input ⟨.head, [], i, [], [], .reading⟩)
    (hbad : ∃ p ∈ pieces newline (MAXLINE - 1) i,
      ¬Complete newline (MAXLINE - 1) (cString p)) :
    ∃ s, (system MAXLINE MAXLINE .short input).Reachable s ∧ Hang s := by
  have hpos : 0 < MAXLINE - 1 := by decide
  induction hn : i.length using Nat.strong_induction_on generalizing i with
  | _ n ih =>
      subst hn
      rcases eq_or_ne i [] with rfl | hi
      · simp at hbad
      · have hnext := h.exchange hi
        by_cases hcomplete : Complete newline (MAXLINE - 1)
            (cString (nextPiece newline (MAXLINE - 1) i).1)
        · rw [if_pos hcomplete] at hnext
          refine ih _ (nextPiece_rest_length hpos hi) hnext ?_ rfl
          rw [pieces_eq_cons hpos hi] at hbad
          simpa [hcomplete] using hbad
        · rw [if_neg hcomplete] at hnext
          obtain ⟨s, hs, hv⟩ := hnext
          simp only [view, View.mk.injEq] at hv
          obtain ⟨hpc, hbuf, -, hrq, hrp, hsv⟩ := hv
          exact ⟨s, hs, ⟨_, hpc⟩, hbuf, by simp [Link.inFlight, hrq, hrp, hsv], hsv⟩

end Stuck

theorem seen_start (input : List Byte) :
    Seen input ⟨.head, [], input, [], [], .reading⟩ :=
  ⟨.start input, ⟨[], _, rfl, rfl⟩, rfl⟩

theorem hang_iff (input : List Byte) :
    (∀ C₁ C₂ (s : State C₁ C₂),
      (system C₁ C₂ .short input).Reachable s → ¬Hang s) ↔
      ∀ p ∈ pieces newline (MAXLINE - 1) input,
        Complete newline (MAXLINE - 1) (cString p) := by
  constructor
  · intro hsafe p hp
    by_contra hbad
    obtain ⟨s, hs, hhang⟩ := seen_hang (seen_start input) ⟨p, hp, hbad⟩
    exact hsafe _ _ s hs hhang
  · intro hall C₁ C₂ s hs hhang
    obtain ⟨p, hp, hbad⟩ := hang_incomplete hs hhang
    exact hbad (hall p hp)

theorem zero_not_mem_pieces {input p : List Byte} (hnul : 0 ∉ input)
    (hp : p ∈ pieces newline (MAXLINE - 1) input) : 0 ∉ p := by
  intro hmem
  refine hnul ?_
  rw [← pieces_flatten (d := newline) (k := MAXLINE - 1) (by decide) input]
  exact List.mem_flatten.mpr ⟨p, hp, hmem⟩

/-- Without NUL bytes, the client never waits for a line the server has echoed
exactly when the input ends in a newline, or its unterminated rest fills
`sendline` a whole number of times. -/
theorem strCli_hang_iff (input : List Byte) (hnul : 0 ∉ input) :
    (∀ C₁ C₂ (s : State C₁ C₂),
      (system C₁ C₂ .short input).Reachable s → ¬Hang s) ↔
      MAXLINE - 1 ∣ (unterminated newline input).length := by
  rw [hang_iff, ← pieces_complete_iff (by decide)]
  refine forall_congr' fun p => forall_congr' fun hp => ?_
  rw [cString_eq_self (zero_not_mem_pieces hnul hp)]

theorem strCli_hang_iff_lines :
    MAXLINE - 1 ∣ (unterminated newline [97, 10, 98, 10]).length ∧
      ∀ C₁ C₂ (s : State C₁ C₂),
        (system C₁ C₂ .short [97, 10, 98, 10]).Reachable s → ¬Hang s := by
  have hdvd : MAXLINE - 1 ∣ (unterminated newline [97, 10, 98, 10]).length := by
    decide
  exact ⟨hdvd, (strCli_hang_iff [97, 10, 98, 10] (by decide)).mpr hdvd⟩

/-- The input `a` comes back, and the client waits for its newline. -/
theorem unterminated_line_hangs :
    ¬∀ input : List Byte, 0 ∉ input → ∀ C₁ C₂ (s : State C₁ C₂),
      (system C₁ C₂ .short input).Reachable s → ¬Hang s := by
  intro hall
  have hmap : ((system 1 1 .short [97]).run (State.start [97])
      [.fgets, .send, .writenReturn, .server (.read 1), .server .write,
        .server .writenReturn, .fill 1, .byte]).map
          (fun s => (s.pc, s.readBuf.unread, s.link.inFlight, s.link.server)) =
      some (.readline [97], [], [], .reading) := by decide
  obtain ⟨s, hrun, hfacts⟩ := Option.map_eq_some_iff.mp hmap
  simp only [Prod.mk.injEq] at hfacts
  obtain ⟨hpc, hbuf, hflight, hserver⟩ := hfacts
  exact hall [97] (by decide) 1 1 s ⟨_, _, rfl, hrun⟩
    ⟨⟨_, hpc⟩, hbuf, hflight, hserver⟩

end MyUnp.StopAndWaitHang
