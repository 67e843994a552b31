import MyUnp.LinePieces
import MyUnp.MemoryBlock
import MyUnp.TransitionSystem
import MyUnp.Unp

/-!
The datagram client of Chapter 8 that compares the sender of a reply with the
server's address (`dgcliaddr.c`), and the echo server `dg_echo`. Datagrams are
neither lost nor reordered, but anybody may send the client some.
-/

namespace MyUnp.DatagramClient

open MyUnp.LinePieces MyUnp.MemoryBlock MyUnp.TransitionSystem MyUnp.Unp

/-- A datagram at the client's socket; `answers` is the number of the line it
replies to, if it is a reply. -/
structure Datagram where
  src : List Byte
  payload : List Byte
  answers : Option Nat
  deriving DecidableEq

structure Request where
  id : Nat
  payload : List Byte
  deriving DecidableEq

inductive Event
  | sent (id : Nat) (payload : List Byte)
  | printed (answers : Option Nat) (text : List Byte)
  deriving DecidableEq

/-- Before `Fgets`, in `Recvfrom`, or returned from `dg_cli`. -/
inductive Pc
  | fgets
  | recvfrom
  | returned
  deriving DecidableEq

/-- `count` numbers the lines; `log` is what the client has sent and printed. No
step looks at these two. -/
structure State where
  pc : Pc
  input : List Byte
  recvline : List Byte
  requests : List Request
  inbox : List Datagram
  count : Nat
  log : List Event
  deriving DecidableEq

inductive Act
  | fgets
  | serve
  | foreign (src payload : List Byte)
  | recvfrom
  deriving DecidableEq

/-- `len != srvlen || memcmp(psrvaddr, preply_addr, len) != 0` does not hold. The
address of the sender is stored as far as it fits. -/
def fromServer (srvaddr src : List Byte) : Bool :=
  src.length = srvaddr.length ∧
    srvaddr.take src.length = (src.take srvaddr.length).take src.length

def State.fgets (s : State) : State :=
  let line := nextPiece newline (MAXLINE - 1) s.input
  { s with
    pc := .recvfrom
    input := line.2
    requests := s.requests ++ [⟨s.count, cString line.1⟩]
    count := s.count + 1
    log := s.log ++ [.sent s.count (cString line.1)] }

def State.serve (s : State) (srvaddr : List Byte) (r : Request)
    (rest : List Request) : State :=
  { s with
    requests := rest
    inbox := s.inbox ++ [⟨srvaddr, r.payload.take MAXLINE, some r.id⟩] }

/-- `Recvfrom` stores what fits; a reply is terminated and printed, anything else
takes the client back to `Fgets`. -/
def State.recvfrom (s : State) (srvaddr : List Byte) (d : Datagram)
    (rest : List Datagram) : State :=
  let data := d.payload.take MAXLINE
  let recvline := store s.recvline 0 data
  if fromServer srvaddr d.src then
    let terminated := recvline.set data.length 0
    { s with
      pc := .fgets
      inbox := rest
      recvline := terminated
      log := s.log ++ [.printed d.answers (cString terminated)] }
  else { s with pc := .fgets, inbox := rest, recvline := recvline }

def State.step (srvaddr : List Byte) (s : State) : Act → Option State
  | .fgets =>
      match s.pc, s.input with
      | .fgets, [] => some { s with pc := .returned }
      | .fgets, _ :: _ => some s.fgets
      | _, _ => none
  | .serve =>
      match s.requests with
      | [] => none
      | r :: rest => some (s.serve srvaddr r rest)
  | .foreign src payload =>
      if fromServer srvaddr src then none
      else some { s with inbox := s.inbox ++ [⟨src, payload, none⟩] }
  | .recvfrom =>
      match s.pc, s.inbox with
      | .recvfrom, d :: rest => some (s.recvfrom srvaddr d rest)
      | _, _ => none

structure State.IsStart (file : List Byte) (s : State) : Prop where
  pc : s.pc = .fgets
  input : s.input = file
  recvline : s.recvline.length = MAXLINE
  requests : s.requests = []
  inbox : s.inbox = []
  count : s.count = 0
  log : s.log = []

def system (srvaddr file : List Byte) : System State Act where
  init := State.IsStart file
  step := State.step srvaddr

inductive Move (srvaddr : List Byte) (s : State) : Act → State → Prop
  | eof (hpc : s.pc = .fgets) (hinput : s.input = []) :
      Move srvaddr s .fgets { s with pc := .returned }
  | fgets (hpc : s.pc = .fgets) (hinput : s.input ≠ []) :
      Move srvaddr s .fgets s.fgets
  | serve {r : Request} {rest : List Request} (hrequests : s.requests = r :: rest) :
      Move srvaddr s .serve (s.serve srvaddr r rest)
  | foreign {src payload : List Byte} (hsrc : fromServer srvaddr src = false) :
      Move srvaddr s (.foreign src payload)
        { s with inbox := s.inbox ++ [⟨src, payload, none⟩] }
  | recvfrom {d : Datagram} {rest : List Datagram} (hpc : s.pc = .recvfrom)
      (hinbox : s.inbox = d :: rest) :
      Move srvaddr s .recvfrom (s.recvfrom srvaddr d rest)

variable {srvaddr file : List Byte}

theorem step_move {s t : State} {l : Act}
    (h : (system srvaddr file).step s l = some t) : Move srvaddr s l t := by
  change s.step srvaddr l = some t at h
  cases l with
  | fgets =>
      rw [State.step] at h
      split at h
      · rename_i hpc hinput
        obtain rfl := Option.some.inj h
        exact .eof hpc hinput
      · rename_i hpc hinput
        obtain rfl := Option.some.inj h
        exact .fgets hpc (by rw [hinput]; exact List.cons_ne_nil _ _)
      · cases h
  | serve =>
      rw [State.step] at h
      split at h
      · cases h
      · rename_i hrequests
        obtain rfl := Option.some.inj h
        exact .serve hrequests
  | foreign src payload =>
      rw [State.step] at h
      split at h
      · cases h
      · rename_i hsrc
        obtain rfl := Option.some.inj h
        exact .foreign (Bool.eq_false_iff.mpr hsrc)
  | recvfrom =>
      rw [State.step] at h
      split at h
      · rename_i hpc hinbox
        obtain rfl := Option.some.inj h
        exact .recvfrom hpc hinbox
      · cases h

theorem fromServer_iff (src : List Byte) : fromServer srvaddr src = true ↔ src = srvaddr := by
  unfold fromServer
  rw [decide_eq_true_iff]
  constructor
  · rintro ⟨hlen, heq⟩
    rw [hlen, List.take_length, List.take_take, Nat.min_self, ← hlen,
      List.take_length] at heq
    exact heq.symm
  · rintro rfl
    refine ⟨rfl, ?_⟩
    rw [List.take_length, List.take_length]

theorem fromServer_self (srvaddr : List Byte) : fromServer srvaddr srvaddr = true :=
  (fromServer_iff srvaddr).mpr rfl

theorem cString_terminated {block data : List Byte} (h : data.length < block.length) :
    cString ((store block 0 data).set data.length 0) = cString data := by
  rw [store_zero h.le, List.set_append_right _ _ (Nat.le_refl _), Nat.sub_self,
    List.drop_eq_getElem_cons h, List.set_cons_zero, cString_append_nul]

def lines (file : List Byte) : List (List Byte) :=
  (pieces newline (MAXLINE - 1) file).map cString

def exchanges : Nat → List (List Byte) → List Event
  | _, [] => []
  | k, text :: rest => .sent k text :: .printed (some k) text :: exchanges (k + 1) rest

theorem exchanges_snoc (k : Nat) (done : List (List Byte)) (text : List Byte) :
    exchanges k (done ++ [text]) =
      exchanges k done ++ [.sent (k + done.length) text] ++
        [.printed (some (k + done.length)) text] := by
  induction done generalizing k with
  | nil => rfl
  | cons x done ih =>
      rw [List.cons_append, exchanges, exchanges, ih, List.length_cons,
        Nat.add_right_comm k 1, Nat.add_assoc k]
      rfl

/-- Every text printed is the reply to the line sent last, and every line sent has
its reply printed before the next line is read. -/
def Matched (file : List Byte) (s : State) : Prop :=
  match s.pc with
  | .fgets => ∃ done, s.log = exchanges 0 done ∧ done ++ lines s.input = lines file
  | .recvfrom => ∃ done text, s.log = exchanges 0 done ++ [.sent done.length text] ∧
      done ++ text :: lines s.input = lines file
  | .returned => s.log = exchanges 0 (lines file)

def TakesReply (srvaddr : List Byte) (s : State) (l : Act) : Prop :=
  l = .recvfrom → ∀ d ∈ s.inbox.head?, d.src = srvaddr

instance (srvaddr : List Byte) (s : State) (l : Act) :
    Decidable (TakesReply srvaddr s l) :=
  inferInstanceAs (Decidable (l = .recvfrom → ∀ d ∈ s.inbox.head?, d.src = srvaddr))

def replies (srvaddr : List Byte) (s : State) : List Datagram :=
  s.inbox.filter fun d => fromServer srvaddr d.src

def Idle (srvaddr : List Byte) (s : State) : Prop :=
  s.requests = [] ∧ replies srvaddr s = []

def Outstanding (srvaddr : List Byte) (s : State) (id : Nat) (text : List Byte) : Prop :=
  (s.requests = [⟨id, text⟩] ∧ replies srvaddr s = []) ∨
    (s.requests = [] ∧ replies srvaddr s = [⟨srvaddr, text, some id⟩])

def Phase (srvaddr file : List Byte) (s : State) : Prop :=
  match s.pc with
  | .fgets => ∃ done, s.log = exchanges 0 done ∧ s.count = done.length ∧
      done ++ lines s.input = lines file ∧ Idle srvaddr s
  | .recvfrom => ∃ done text, s.log = exchanges 0 done ++ [.sent done.length text] ∧
      s.count = done.length + 1 ∧ done ++ text :: lines s.input = lines file ∧
      0 ∉ text ∧ text.length < MAXLINE ∧ Outstanding srvaddr s done.length text
  | .returned => s.log = exchanges 0 (lines file) ∧ Idle srvaddr s

structure Inv (srvaddr file : List Byte) (s : State) : Prop where
  recvline : s.recvline.length = MAXLINE
  phase : Phase srvaddr file s

theorem lines_nil : lines [] = [] := rfl

theorem lines_of_ne_nil {file : List Byte} (h : file ≠ []) :
    lines file = cString (nextPiece newline (MAXLINE - 1) file).1 ::
      lines (nextPiece newline (MAXLINE - 1) file).2 := by
  rw [lines, pieces_eq_cons (by decide) h]
  rfl

theorem cString_length_le (s : List Byte) : (cString s).length ≤ s.length :=
  (cString_prefix_self s).length_le

section Steps

variable {s : State}

theorem Inv.fgets (h : Inv srvaddr file s) (hpc : s.pc = .fgets) (hinput : s.input ≠ []) :
    Inv srvaddr file s.fgets := by
  have hphase := h.phase
  rw [Phase, hpc] at hphase
  obtain ⟨done, hlog, hcount, hlines, hidle⟩ := hphase
  refine ⟨h.recvline, done, cString (nextPiece newline (MAXLINE - 1) s.input).1, ?_, ?_, ?_,
    zero_not_mem_cString _, ?_, .inl ⟨?_, hidle.2⟩⟩
  · change s.log ++ [.sent s.count _] = _
    rw [hlog, hcount]
  · change s.count + 1 = _
    rw [hcount]
  · rw [lines_of_ne_nil hinput] at hlines
    exact hlines
  · have hle := nextPiece_length_le newline (MAXLINE - 1) s.input
    have hle' := cString_length_le (nextPiece newline (MAXLINE - 1) s.input).1
    have hpos := MAXLINE_pos
    omega
  · change s.requests ++ [⟨s.count, _⟩] = _
    rw [hidle.1, hcount]
    rfl

theorem Inv.serve (h : Inv srvaddr file s) {r : Request} {rest : List Request}
    (hrequests : s.requests = r :: rest) : Inv srvaddr file (s.serve srvaddr r rest) := by
  have hphase := h.phase
  refine ⟨h.recvline, ?_⟩
  have hbusy : ¬ Idle srvaddr s := by
    rintro ⟨hnone, _⟩
    rw [hnone] at hrequests
    cases hrequests
  have hsame : (s.serve srvaddr r rest).pc = s.pc := rfl
  unfold Phase at hphase ⊢
  rw [hsame]
  cases hpc : s.pc with
  | fgets =>
      rw [hpc] at hphase
      obtain ⟨_, _, _, _, hidle⟩ := hphase
      exact absurd hidle hbusy
  | returned =>
      rw [hpc] at hphase
      exact absurd hphase.2 hbusy
  | recvfrom =>
      rw [hpc] at hphase
      obtain ⟨done, text, hlog, hcount, hlines, hzero, hlen, hout⟩ := hphase
      refine ⟨done, text, hlog, hcount, hlines, hzero, hlen, .inr ?_⟩
      rcases hout with ⟨hone, hreplies⟩ | ⟨hnone, _⟩
      · rw [hone] at hrequests
        obtain ⟨rfl, rfl⟩ := List.cons.inj hrequests
        refine ⟨rfl, ?_⟩
        change List.filter _ (s.inbox ++ [_]) = _
        rw [List.filter_append]
        change replies srvaddr s ++ _ = _
        rw [hreplies, List.nil_append, List.take_of_length_le hlen.le]
        exact List.filter_cons_of_pos (fromServer_self srvaddr)
      · rw [hnone] at hrequests
        cases hrequests

theorem Inv.foreign (h : Inv srvaddr file s) {src payload : List Byte}
    (hsrc : fromServer srvaddr src = false) :
    Inv srvaddr file { s with inbox := s.inbox ++ [⟨src, payload, none⟩] } := by
  have hreplies : replies srvaddr { s with inbox := s.inbox ++ [⟨src, payload, none⟩] } =
      replies srvaddr s := by
    change List.filter _ (s.inbox ++ [_]) = _
    rw [List.filter_append, List.filter_cons_of_neg (by simp [hsrc])]
    exact List.append_nil _
  refine ⟨h.recvline, ?_⟩
  have hphase := h.phase
  unfold Phase Idle Outstanding at hphase ⊢
  rw [hreplies]
  exact hphase

theorem Inv.recvfrom (h : Inv srvaddr file s) {d : Datagram} {rest : List Datagram}
    (hpc : s.pc = .recvfrom) (hinbox : s.inbox = d :: rest) (hsrc : d.src = srvaddr) :
    Inv srvaddr file (s.recvfrom srvaddr d rest) := by
  have hphase := h.phase
  rw [Phase, hpc] at hphase
  obtain ⟨done, text, hlog, hcount, hlines, hzero, hlen, hout⟩ := hphase
  have hserver : fromServer srvaddr d.src = true := (fromServer_iff d.src).mpr hsrc
  have hreplies : replies srvaddr s =
      d :: rest.filter fun d => fromServer srvaddr d.src := by
    rw [replies, hinbox]
    exact List.filter_cons_of_pos hserver
  rcases hout with ⟨_, hnone⟩ | ⟨hrequests, hone⟩
  · rw [hreplies] at hnone
    cases hnone
  · rw [hreplies] at hone
    obtain ⟨rfl, hrest⟩ := List.cons.inj hone
    have hdata : text.take MAXLINE = text := List.take_of_length_le hlen.le
    have htext : cString ((store s.recvline 0 text).set text.length 0) = text := by
      rw [cString_terminated (by rw [h.recvline]; exact hlen), cString_eq_self hzero]
    unfold State.recvfrom
    rw [hserver]
    dsimp only
    rw [if_pos rfl, hdata, htext]
    refine ⟨?_, done ++ [text], ?_, ?_, ?_, hrequests, hrest⟩
    · rw [List.length_set, store_length]
      exact h.recvline
    · rw [exchanges_snoc, hlog, Nat.zero_add]
    · rw [List.length_append]
      exact hcount
    · rw [List.append_assoc]
      exact hlines

end Steps

theorem restrict_inv {s : State}
    (h : ((system srvaddr file).restrict (TakesReply srvaddr)).Reachable s) :
    Inv srvaddr file s := by
  refine System.Reachable.restrict_invariant (P := Inv srvaddr file) ?_ ?_ h
  · rintro s ⟨hpc, hinput, hrecvline, hrequests, hinbox, hcount, hlog⟩
    refine ⟨hrecvline, ?_⟩
    rw [Phase, hpc]
    refine ⟨[], hlog, hcount, by rw [hinput]; rfl, hrequests, ?_⟩
    rw [replies, hinbox]
    rfl
  · intro s l t _ hreply hs hstep
    cases step_move hstep with
    | eof hpc hinput =>
        have hphase := hs.phase
        rw [Phase, hpc] at hphase
        obtain ⟨done, hlog, _, hlines, hidle⟩ := hphase
        rw [hinput, lines_nil, List.append_nil] at hlines
        exact ⟨hs.recvline, hlines ▸ hlog, hidle⟩
    | fgets hpc hinput => exact hs.fgets hpc hinput
    | serve hrequests => exact hs.serve hrequests
    | foreign hsrc => exact hs.foreign hsrc
    | recvfrom hpc hinbox =>
        exact hs.recvfrom hpc hinbox (hreply rfl _ (by rw [hinbox]; rfl))

theorem Inv.matched {s : State} (h : Inv srvaddr file s) : Matched file s := by
  have hphase := h.phase
  unfold Phase at hphase
  unfold Matched
  cases hpc : s.pc with
  | fgets =>
      rw [hpc] at hphase
      obtain ⟨done, hlog, _, hlines, _⟩ := hphase
      exact ⟨done, hlog, hlines⟩
  | recvfrom =>
      rw [hpc] at hphase
      obtain ⟨done, text, hlog, _, hlines, _⟩ := hphase
      exact ⟨done, text, hlog, hlines⟩
  | returned =>
      rw [hpc] at hphase
      exact hphase.1

theorem recvfrom_log {s : State} (h : (system srvaddr file).Reachable s)
    (hpc : s.pc = .recvfrom) : ∃ log id text, s.log = log ++ [.sent id text] := by
  revert hpc
  refine h.invariant (P := fun s => s.pc = .recvfrom →
    ∃ log id text, s.log = log ++ [.sent id text]) ?_ ?_
  · intro s hs hpc
    rw [hs.pc] at hpc
    cases hpc
  · intro s l t _ hs hstep hpc
    cases step_move hstep with
    | eof => cases hpc
    | fgets => exact ⟨s.log, s.count, _, rfl⟩
    | serve => exact hs hpc
    | foreign => exact hs hpc
    | @recvfrom d rest _ _ =>
        unfold State.recvfrom at hpc
        split at hpc <;> cases hpc

theorem exchanges_ne_snoc_sent (done : List (List Byte)) (log : List Event) (id : Nat)
    (text : List Byte) : exchanges 0 done ≠ log ++ [.sent id text] := by
  rcases List.eq_nil_or_concat done with rfl | ⟨front, last, rfl⟩
  · intro h
    exact absurd h.symm (List.append_ne_nil_of_right_ne_nil _ (List.cons_ne_nil _ _))
  · intro h
    rw [List.concat_eq_append, exchanges_snoc] at h
    cases List.singleton_inj.mp (List.append_inj_right' h rfl)

theorem not_matched_of_foreign {s t : State} (h : (system srvaddr file).Reachable s)
    (hforeign : ¬ TakesReply srvaddr s .recvfrom)
    (hstep : (system srvaddr file).step s .recvfrom = some t) : ¬ Matched file t := by
  cases step_move hstep with
  | @recvfrom d rest hpc hinbox =>
      obtain ⟨log, id, text, hlog⟩ := recvfrom_log h hpc
      have hsrc : fromServer srvaddr d.src = false := by
        rw [Bool.eq_false_iff]
        intro htrue
        refine hforeign fun _ d' hd' => ?_
        rw [hinbox] at hd'
        obtain rfl : d = d' := Option.some_inj.mp hd'
        exact (fromServer_iff d.src).mp htrue
      unfold State.recvfrom
      rw [hsrc]
      rintro ⟨done, hdone, _⟩
      exact exchanges_ne_snoc_sent done log id text (hdone.symm.trans hlog)

/-- In a run in which no `Recvfrom` takes a datagram from elsewhere the replies
match the lines; one that does leaves a line without its reply. -/
theorem dgCli_matched_iff (srvaddr file : List Byte) :
    (∀ s, ((system srvaddr file).restrict (TakesReply srvaddr)).Reachable s →
      Matched file s) ∧
    ∀ s t, (system srvaddr file).Reachable s →
      ¬ TakesReply srvaddr s .recvfrom →
      (system srvaddr file).step s .recvfrom = some t → ¬ Matched file t :=
  ⟨fun _ h => (restrict_inv h).matched, fun _ _ => not_matched_of_foreign⟩

/-- A datagram from elsewhere comes in before the reply to the first of two lines:
the reply to that line is printed after the second. -/
theorem foreign_datagram_shifts_replies :
    ¬ ∀ s, (system [1] [97, 10, 98, 10]).Reachable s → Matched [97, 10, 98, 10] s := by
  intro hall
  have hmap : ((system [1] [97, 10, 98, 10]).run
      ⟨.fgets, [97, 10, 98, 10], List.replicate MAXLINE 0, [], [], 0, []⟩
      [.fgets, .foreign [2] [120], .serve, .recvfrom, .fgets, .recvfrom]).map
        (fun s => (s.pc, s.log)) =
      some (.fgets, [.sent 0 [97, 10], .sent 1 [98, 10], .printed (some 0) [97, 10]]) := by
    decide +kernel
  obtain ⟨s, hrun, hfacts⟩ := Option.map_eq_some_iff.mp hmap
  obtain ⟨hpc, hlog⟩ := Prod.mk.inj hfacts
  have hmatched := hall s ⟨_, _, ⟨rfl, rfl, List.length_replicate, rfl, rfl, rfl, rfl⟩, hrun⟩
  rw [Matched, hpc] at hmatched
  obtain ⟨done, hdone, _⟩ := hmatched
  rw [hlog] at hdone
  cases done with
  | nil => cases hdone
  | cons x done => cases hdone

end MyUnp.DatagramClient
