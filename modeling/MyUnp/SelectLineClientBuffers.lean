import MyUnp.SelectLineClient

namespace MyUnp.SelectLineClientBuffers

open MyUnp.TransitionSystem
open MyUnp.Fifo
open MyUnp.LinePieces
open MyUnp.Unp
open MyUnp.EchoServer
open MyUnp.Readline
open MyUnp.SelectLineClient

variable {C₁ C₂ : Nat}

def inReadline : Pc → Option (List Byte)
  | .readline acc => some acc
  | _ => none

def inFgets : Pc → Option (List Byte)
  | .fgets acc => some acc
  | _ => none

/-- No complete line waits in the buffer, apart from the one that is being
assembled. -/
def Clean (line : Option (List Byte)) (buf : List Byte) : Prop :=
  match line with
  | some acc => OneLineAhead newline (MAXLINE - 1) acc buf
  | none => newline ∉ buf

def ReplyClean (s : State C₁ C₂) : Prop :=
  Clean (inReadline s.pc) s.readBuf.unread

def InputClean (s : State C₁ C₂) : Prop := Clean (inFgets s.pc) s.stdio

theorem Clean.of_none {buf : List Byte} (h : Clean none buf)
    (line : Option (List Byte)) : Clean line buf := by
  cases line with
  | none => exact h
  | some acc => exact oneLineAhead_of_not_mem h _ acc

theorem clean_nil (line : Option (List Byte)) : Clean line [] := by
  cases line with
  | none => simp [Clean]
  | some acc => exact oneLineAhead_nil _ _ _

/-- What the step reads into one of the buffers, with the line so far. -/
def filled (s : State C₁ C₂) : Act → Option (List Byte × List Byte)
  | .fill k =>
      match s.pc with
      | .readline acc => some (acc, s.link.reply.buf.take k)
      | _ => none
  | .stdioFill k =>
      match s.pc with
      | .fgets acc => some (acc, s.arrived.take k)
      | _ => none
  | _ => none

/-- A read on one of the descriptors brings no newline beyond the end of the
line that is being assembled. -/
def FillsOneLine (s : State C₁ C₂) (a : Act) : Prop :=
  ∀ p ∈ filled s a, OneLineAhead newline (MAXLINE - 1) p.1 p.2

instance (s : State C₁ C₂) (a : Act) : Decidable (FillsOneLine s a) :=
  inferInstanceAs (Decidable (∀ p ∈ filled s a, _))

def Short (s : State C₁ C₂) : Prop :=
  ∀ acc, s.pc = .readline acc ∨ s.pc = .fgets acc → acc.length + 1 < MAXLINE

theorem short_append {acc : List Byte} {c : Byte}
    (h : ¬endsLine MAXLINE acc c = true) : (acc ++ [c]).length + 1 < MAXLINE := by
  simp only [endsLine, Bool.or_eq_true, decide_eq_true_eq, not_or] at h
  rw [List.length_append, List.length_singleton]
  omega

theorem Short.step {R : ReadRule} {B : Nat} {s t : State C₁ C₂} {a : Act}
    (hs : Short s) (h : s.step R B a = some t) : Short t := by
  have hnil : ([] : List Byte).length + 1 < MAXLINE := by decide
  intro acc hpc
  cases State.step_move h with
  | arrive => exact hs acc hpc
  | hangUp hcoming => exact hs acc hpc
  | fill hpc' hempty hrecv => exact hs acc hpc
  | fillEintr => exact hs acc hpc
  | stdioFill hpc' hempty => exact hs acc hpc
  | server hserver => exact hs acc hpc
  | byte hpc' hunread =>
      split at hpc
      · simp at hpc
      · rename_i hends
        obtain rfl : _ = acc := by simpa using hpc
        exact short_append hends
  | stdioByte hpc' hunread =>
      split at hpc
      · simp [State.gotLine] at hpc
      · rename_i hends
        obtain rfl : _ = acc := by simpa using hpc
        exact short_append hends
  | testSock hpc' =>
      split at hpc
      · obtain rfl : [] = acc := by simpa using hpc
        exact hnil
      · simp at hpc
  | testInput hpc' =>
      split at hpc
      · obtain rfl : [] = acc := by simpa using hpc
        exact hnil
      · simp at hpc
  | fillEof hpc' hempty heof => split at hpc <;> simp at hpc
  | stdioEof hpc' hempty harrived hdone =>
      split at hpc <;> simp [State.gotLine] at hpc
  | _ => simp at hpc

theorem reachable_short {R : ReadRule} {B : Nat} {input : List Byte}
    {s : State C₁ C₂} (h : (system C₁ C₂ R B input).Reachable s) : Short s := by
  refine h.invariant ?_ fun _ _ _ _ hs hstep => hs.step hstep
  rintro s rfl acc hpc
  simp [State.start] at hpc

theorem clean_byte {acc rest : List Byte} {c : Byte}
    (hshort : acc.length + 1 < MAXLINE) :
    Clean (some acc) (c :: rest) ↔
      Clean (if endsLine MAXLINE acc c then none else some (acc ++ [c])) rest := by
  have hlen : acc.length < MAXLINE - 1 := by omega
  split
  · rename_i hends
    simp only [endsLine, Bool.or_eq_true, decide_eq_true_eq] at hends
    refine oneLineAhead_last (hends.imp id fun hfull => ?_) hlen rest
    omega
  · rename_i hends
    simp only [endsLine, Bool.or_eq_true, decide_eq_true_eq, not_or] at hends
    exact oneLineAhead_cons hends.1 hlen rest

theorem replyClean_step {R : ReadRule} {B : Nat} {s t : State C₁ C₂} {a : Act}
    (hshort : Short s) (h : s.step R B a = some t) (hcall : a ≠ .testSock)
    (hfill : ∀ k, a ≠ .fill k) : ReplyClean t ↔ ReplyClean s := by
  cases State.step_move h with
  | arrive => rfl
  | hangUp hcoming => rfl
  | server hserver => rfl
  | fillEintr => rfl
  | stdioFill hpc hempty => rfl
  | testSock hpc => exact absurd rfl hcall
  | @fill k acc buf l hpc hempty hrecv => exact absurd rfl (hfill k)
  | fillEof hpc hempty heof =>
      rw [ReplyClean, ReplyClean, hempty]
      exact iff_of_true (clean_nil _) (clean_nil _)
  | @byte acc rest c hpc hunread =>
      have hlen := hshort acc (.inl hpc)
      rw [ReplyClean, ReplyClean, hpc, hunread, inReadline, clean_byte hlen]
      split <;> rfl
  | stdioEof hpc hempty harrived hdone =>
      rw [ReplyClean, ReplyClean, hpc]
      split <;> rfl
  | stdioByte hpc hunread =>
      rw [ReplyClean, ReplyClean, hpc]
      split <;> rfl
  | testInput hpc =>
      rw [ReplyClean, ReplyClean, hpc]
      split <;> rfl
  | _ hpc =>
      rw [ReplyClean, ReplyClean, hpc]
      rfl

theorem inputClean_step {R : ReadRule} {B : Nat} {s t : State C₁ C₂} {a : Act}
    (hshort : Short s) (h : s.step R B a = some t) (hcall : a ≠ .testInput)
    (hfill : ∀ k, a ≠ .stdioFill k) : InputClean t ↔ InputClean s := by
  cases State.step_move h with
  | arrive => rfl
  | hangUp hcoming => rfl
  | server hserver => rfl
  | fillEintr => rfl
  | fill hpc hempty hrecv => rfl
  | testInput hpc => exact absurd rfl hcall
  | @stdioFill k acc hpc hempty => exact absurd rfl (hfill k)
  | stdioEof hpc hempty harrived hdone =>
      refine iff_of_true ?_ (by rw [InputClean, hempty]; exact clean_nil _)
      split
      · rw [InputClean, hempty]
        exact clean_nil _
      · rw [InputClean, State.gotLine, hempty]
        exact clean_nil _
  | @stdioByte acc rest c hpc hunread =>
      have hlen := hshort acc (.inr hpc)
      rw [InputClean, InputClean, hpc, hunread, inFgets, clean_byte hlen]
      split <;> rfl
  | fillEof hpc hempty heof =>
      rw [InputClean, InputClean, hpc]
      split <;> rfl
  | byte hpc hunread =>
      rw [InputClean, InputClean, hpc]
      split <;> rfl
  | testSock hpc =>
      rw [InputClean, InputClean, hpc]
      split <;> rfl
  | _ hpc =>
      rw [InputClean, InputClean, hpc]
      rfl

theorem replyClean_fill {R : ReadRule} {B k : Nat} {s t : State C₁ C₂}
    (h : s.step R B (.fill k) = some t) :
    ReplyClean t ↔ FillsOneLine s (.fill k) := by
  cases State.step_move h with
  | @fill k acc buf l hpc hempty hrecv =>
      obtain ⟨-, hlen, happ, -⟩ := Link.receive_eq_some hrecv
      have hbuf : s.link.reply.buf.take k = buf := by
        rw [← happ, List.take_left' hlen]
      simp [ReplyClean, FillsOneLine, filled, hpc, inReadline, Clean, hbuf]

theorem inputClean_fill {R : ReadRule} {B k : Nat} {s t : State C₁ C₂}
    (h : s.step R B (.stdioFill k) = some t) :
    InputClean t ↔ FillsOneLine s (.stdioFill k) := by
  cases State.step_move h with
  | stdioFill hpc hempty =>
      simp [InputClean, FillsOneLine, filled, hpc, inFgets, Clean]

theorem ReplyClean.step {R : ReadRule} {B : Nat} {s t : State C₁ C₂} {a : Act}
    (hs : ReplyClean s) (hshort : Short s) (hone : FillsOneLine s a)
    (h : s.step R B a = some t) : ReplyClean t := by
  by_cases hcall : a = .testSock
  · subst hcall
    cases State.step_move h with
    | testSock hpc =>
        rw [ReplyClean, hpc] at hs
        exact hs.of_none _
  · by_cases hfill : ∃ k, a = .fill k
    · obtain ⟨k, rfl⟩ := hfill
      exact (replyClean_fill h).mpr hone
    · exact (replyClean_step hshort h hcall (not_exists.mp hfill)).mpr hs

theorem InputClean.step {R : ReadRule} {B : Nat} {s t : State C₁ C₂} {a : Act}
    (hs : InputClean s) (hshort : Short s) (hone : FillsOneLine s a)
    (h : s.step R B a = some t) : InputClean t := by
  by_cases hcall : a = .testInput
  · subst hcall
    cases State.step_move h with
    | testInput hpc =>
        rw [InputClean, hpc] at hs
        exact hs.of_none _
  · by_cases hfill : ∃ k, a = .stdioFill k
    · obtain ⟨k, rfl⟩ := hfill
      exact (inputClean_fill h).mpr hone
    · exact (inputClean_step hshort h hcall (not_exists.mp hfill)).mpr hs

theorem clean_of_fillsOneLine {R : ReadRule} {B : Nat} {input : List Byte}
    {t : State C₁ C₂}
    (h : ((system C₁ C₂ R B input).restrict FillsOneLine).Reachable t) :
    ReplyClean t ∧ InputClean t := by
  refine System.Reachable.restrict_invariant
    (P := fun t => ReplyClean t ∧ InputClean t) ?_ ?_ h
  · rintro s rfl
    exact ⟨clean_nil none, clean_nil none⟩
  · rintro s a t hreach hone ⟨hreply, hinput⟩ hstep
    have hshort := reachable_short hreach
    exact ⟨hreply.step hshort hone hstep, hinput.step hshort hone hstep⟩

section Waits

variable {R : ReadRule} {B : Nat} {input : List Byte} {s u : State C₁ C₂}

theorem reply_waits (hreach : (system C₁ C₂ R B input).Reachable s)
    (hs : ¬ReplyClean s) {ls : List Act} (hls : .testSock ∉ ls)
    (hrun : (system C₁ C₂ R B input).run s ls = some u) : ¬ReplyClean u := by
  refine System.Reachable.run_invariant (P := fun s => ¬ReplyClean s)
    (C := (· ≠ .testSock)) ?_ hreach hs
    (fun a ha => ne_of_mem_of_not_mem ha hls) hrun
  intro s a t hreach hcall hs hstep
  by_cases hfill : ∃ k, a = .fill k
  · obtain ⟨k, rfl⟩ := hfill
    have hfilled : s.step R B (.fill k) = some t := hstep
    cases State.step_move hfilled with
    | fill hpc hempty hrecv =>
        rw [ReplyClean, hempty] at hs
        exact absurd (clean_nil _) hs
  · have hiff := replyClean_step (reachable_short hreach) hstep hcall
      (not_exists.mp hfill)
    exact mt hiff.mp hs

theorem input_waits (hreach : (system C₁ C₂ R B input).Reachable s)
    (hs : ¬InputClean s) {ls : List Act} (hls : .testInput ∉ ls)
    (hrun : (system C₁ C₂ R B input).run s ls = some u) : ¬InputClean u := by
  refine System.Reachable.run_invariant (P := fun s => ¬InputClean s)
    (C := (· ≠ .testInput)) ?_ hreach hs
    (fun a ha => ne_of_mem_of_not_mem ha hls) hrun
  intro s a t hreach hcall hs hstep
  by_cases hfill : ∃ k, a = .stdioFill k
  · obtain ⟨k, rfl⟩ := hfill
    have hfilled : s.step R B (.stdioFill k) = some t := hstep
    cases State.step_move hfilled with
    | stdioFill hpc hempty =>
        rw [InputClean, hempty] at hs
        exact absurd (clean_nil _) hs
  · have hiff := inputClean_step (reachable_short hreach) hstep hcall
      (not_exists.mp hfill)
    exact mt hiff.mp hs

end Waits

/-- While every read brings no newline beyond the line that is being assembled,
no complete line waits in a buffer when the program blocks in `Select`. After a
read that does, one waits whenever the program is at `Select`, up to the next
`FD_ISSET` of that descriptor. -/
theorem strCli_select_buffers (C₁ C₂ B : Nat) (input : List Byte) :
    (∀ t : State C₁ C₂,
      ((system C₁ C₂ .short B input).restrict FillsOneLine).Reachable t →
        Blocked t → newline ∉ t.stdio ∧ newline ∉ t.readBuf.unread) ∧
      (∀ (s t u : State C₁ C₂) (k : Nat) (ls : List Act),
        (system C₁ C₂ .short B input).Reachable s →
          s.step .short B (.fill k) = some t → ¬FillsOneLine s (.fill k) →
            (system C₁ C₂ .short B input).run t ls = some u →
              .testSock ∉ ls → u.pc = .select → newline ∈ u.readBuf.unread) ∧
      ∀ (s t u : State C₁ C₂) (k : Nat) (ls : List Act),
        (system C₁ C₂ .short B input).Reachable s →
          s.step .short B (.stdioFill k) = some t →
            ¬FillsOneLine s (.stdioFill k) →
              (system C₁ C₂ .short B input).run t ls = some u →
                .testInput ∉ ls → u.pc = .select → newline ∈ u.stdio := by
  refine ⟨?_, ?_, ?_⟩
  · rintro t ht ⟨hpc, -⟩
    obtain ⟨hreply, hinput⟩ := clean_of_fillsOneLine ht
    rw [ReplyClean, hpc] at hreply
    rw [InputClean, hpc] at hinput
    exact ⟨hinput, hreply⟩
  · intro s t u k ls hs hstep hbad hrun hls hpc
    have ht := mt (replyClean_fill hstep).mp hbad
    have hreach : (system C₁ C₂ .short B input).Reachable t :=
      hs.step (l := .fill k) hstep
    have hu := reply_waits hreach ht hls hrun
    rw [ReplyClean, hpc] at hu
    exact not_not.mp hu
  · intro s t u k ls hs hstep hbad hrun hls hpc
    have ht := mt (inputClean_fill hstep).mp hbad
    have hreach : (system C₁ C₂ .short B input).Reachable t :=
      hs.step (l := .stdioFill k) hstep
    have hu := input_waits hreach ht hls hrun
    rw [InputClean, hpc] at hu
    exact not_not.mp hu

theorem strCli_select_buffers_oneLine :
    ∃ t : State 4 4, ((system 4 4 .short 4 [97, 10]).restrict FillsOneLine).Reachable t ∧
      Blocked t ∧ newline ∉ t.stdio ∧ newline ∉ t.readBuf.unread := by
  have hmap : (((system 4 4 .short 4 [97, 10]).restrict FillsOneLine).run
      (State.start [97, 10]) [.arrive 2, .arm, .select, .testSock, .testInput,
        .stdioFill 2, .stdioByte, .stdioByte, .send, .send, .writenReturn,
        .arm]).map (fun t => (t.pc, t.ready)) = some (.select, ⟨false, false⟩) := by decide
  obtain ⟨t, hrun, hfacts⟩ := Option.map_eq_some_iff.mp hmap
  have hreach : ((system 4 4 .short 4 [97, 10]).restrict FillsOneLine).Reachable t :=
    ⟨_, _, rfl, hrun⟩
  have hblocked : Blocked t := Prod.mk.inj hfacts
  exact ⟨t, hreach, hblocked,
    (strCli_select_buffers 4 4 4 [97, 10]).1 t hreach hblocked⟩

/-- Two lines arrive at once: the second is in stdio's buffer while the program
waits for more input or for the reply to the first. -/
theorem second_line_waits :
    ¬∀ (C₁ C₂ B : Nat) (input : List Byte) (t : State C₁ C₂),
      (system C₁ C₂ .short B input).Reachable t → Blocked t →
        newline ∉ t.stdio ∧ newline ∉ t.readBuf.unread := by
  intro hall
  have hmap : ((system 4 4 .short 4 [97, 10, 98, 10]).run
      (State.start [97, 10, 98, 10]) [.arrive 4, .arm, .select, .testSock,
        .testInput, .stdioFill 4, .stdioByte, .stdioByte, .send, .send,
        .writenReturn, .arm]).map (fun t => (t.pc, t.ready, t.stdio)) =
      some (.select, ⟨false, false⟩, [98, 10]) := by decide
  obtain ⟨t, hrun, hfacts⟩ := Option.map_eq_some_iff.mp hmap
  simp only [Prod.mk.injEq] at hfacts
  obtain ⟨hpc, hready, hstdio⟩ := hfacts
  have hnone := (hall 4 4 4 _ t ⟨_, _, rfl, hrun⟩ ⟨hpc, hready⟩).1
  rw [hstdio] at hnone
  exact hnone (by decide)

end MyUnp.SelectLineClientBuffers
