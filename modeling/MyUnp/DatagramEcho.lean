import Mathlib.Algebra.BigOperators.Fin
import MyUnp.DatagramClient

namespace MyUnp.DatagramEcho

open MyUnp.DatagramClient
open MyUnp.LinePieces
open MyUnp.MemoryBlock
open MyUnp.TransitionSystem
open MyUnp.Unp

/-- A client before `Fgets`, in `Read`, or returned from `dg_cli`; `sent` and
`printed` are what it has written to the socket and to standard output. -/
structure Client where
  pc : Pc
  input : List Byte
  recvline : List Byte
  sent : List (List Byte)
  printed : List (List Byte)
  deriving DecidableEq

abbrev Datagram (n : Nat) := Fin n × List Byte

/-- Clients of `dgcliconnect.c`, the datagrams on their way to the server and back, and the one
that `dg_echo` has received and not sent back. `lost` counts the lost datagrams
of each client; no step looks at it. -/
structure State (n : Nat) where
  client : Fin n → Client
  toServer : List (Datagram n)
  msg : Option (Datagram n)
  toClient : List (Datagram n)
  lost : Fin n → Nat

inductive Act (n : Nat) where
  | fgets (i : Fin n)
  | recvfrom (d : Datagram n)
  | sendto
  | read (d : Datagram n)
  | loseRequest (d : Datagram n)
  | loseReply (d : Datagram n)

variable {n : Nat}

def State.setClient (s : State n) (i : Fin n) (c : Client) : State n :=
  { s with client := Function.update s.client i c }

def State.fgets (s : State n) (i : Fin n) (c : Client) : State n :=
  let line := nextPiece newline (MAXLINE - 1) c.input
  { s.setClient i { c with
      pc := .recvfrom
      input := line.2
      sent := c.sent ++ [cString line.1] } with
    toServer := s.toServer ++ [(i, cString line.1)] }

def Client.read (c : Client) (payload : List Byte) : Client :=
  let data := payload.take MAXLINE
  let recvline := (store c.recvline 0 data).set data.length 0
  { c with
    pc := .fgets
    recvline := recvline
    printed := c.printed ++ [cString recvline] }

/-- A connected socket receives from its peer only, so every datagram to a client
is a reply. -/
def State.step (s : State n) : Act n → Option (State n)
  | .fgets i =>
      match (s.client i).pc, (s.client i).input with
      | .fgets, [] => some (s.setClient i { s.client i with pc := .returned })
      | .fgets, _ :: _ => some (s.fgets i (s.client i))
      | _, _ => none
  | .recvfrom d =>
      if s.msg = none ∧ d ∈ s.toServer then
        some { s with
          toServer := s.toServer.erase d
          msg := some (d.1, d.2.take MAXLINE) }
      else none
  | .sendto =>
      match s.msg with
      | some d => some { s with msg := none, toClient := s.toClient ++ [d] }
      | none => none
  | .read d =>
      if (s.client d.1).pc = .recvfrom ∧ d ∈ s.toClient then
        some { s.setClient d.1 ((s.client d.1).read d.2) with
          toClient := s.toClient.erase d }
      else none
  | .loseRequest d =>
      if d ∈ s.toServer then
        some { s with
          toServer := s.toServer.erase d
          lost := Function.update s.lost d.1 (s.lost d.1 + 1) }
      else none
  | .loseReply d =>
      if d ∈ s.toClient then
        some { s with
          toClient := s.toClient.erase d
          lost := Function.update s.lost d.1 (s.lost d.1 + 1) }
      else none

structure Client.IsStart (file : List Byte) (c : Client) : Prop where
  pc : c.pc = .fgets
  input : c.input = file
  recvline : c.recvline.length = MAXLINE
  sent : c.sent = []
  printed : c.printed = []

structure State.IsStart (file : Fin n → List Byte) (s : State n) : Prop where
  client : ∀ i, (s.client i).IsStart (file i)
  toServer : s.toServer = []
  msg : s.msg = none
  toClient : s.toClient = []
  lost : ∀ i, s.lost i = 0

def system (file : Fin n → List Byte) : System (State n) (Act n) where
  init := State.IsStart file
  step := State.step

inductive Move (s : State n) : Act n → State n → Prop where
  | eof {i : Fin n} (hpc : (s.client i).pc = .fgets) (hinput : (s.client i).input = []) :
      Move s (.fgets i) (s.setClient i { s.client i with pc := .returned })
  | fgets {i : Fin n} (hpc : (s.client i).pc = .fgets)
      (hinput : (s.client i).input ≠ []) :
      Move s (.fgets i) (s.fgets i (s.client i))
  | recvfrom {d : Datagram n} (hmsg : s.msg = none) (hd : d ∈ s.toServer) :
      Move s (.recvfrom d) { s with
        toServer := s.toServer.erase d
        msg := some (d.1, d.2.take MAXLINE) }
  | sendto {d : Datagram n} (hmsg : s.msg = some d) :
      Move s .sendto { s with msg := none, toClient := s.toClient ++ [d] }
  | read {d : Datagram n} (hpc : (s.client d.1).pc = .recvfrom) (hd : d ∈ s.toClient) :
      Move s (.read d) { s.setClient d.1 ((s.client d.1).read d.2) with
        toClient := s.toClient.erase d }
  | loseRequest {d : Datagram n} (hd : d ∈ s.toServer) :
      Move s (.loseRequest d) { s with
        toServer := s.toServer.erase d
        lost := Function.update s.lost d.1 (s.lost d.1 + 1) }
  | loseReply {d : Datagram n} (hd : d ∈ s.toClient) :
      Move s (.loseReply d) { s with
        toClient := s.toClient.erase d
        lost := Function.update s.lost d.1 (s.lost d.1 + 1) }

variable {file : Fin n → List Byte}

theorem step_move {s t : State n} {l : Act n} (h : (system file).step s l = some t) :
    Move s l t := by
  change s.step l = some t at h
  cases l with
  | fgets i =>
      rw [State.step] at h
      split at h
      · rename_i hpc hinput
        obtain rfl := Option.some.inj h
        exact .eof hpc hinput
      · rename_i hpc hinput
        obtain rfl := Option.some.inj h
        exact .fgets hpc (by rw [hinput]; exact List.cons_ne_nil _ _)
      · cases h
  | recvfrom d =>
      obtain ⟨⟨hmsg, hd⟩, rfl⟩ := guard_eq_some.mp h
      exact .recvfrom hmsg hd
  | sendto =>
      rw [State.step] at h
      split at h
      · rename_i hmsg
        obtain rfl := Option.some.inj h
        exact .sendto hmsg
      · cases h
  | read d =>
      obtain ⟨⟨hpc, hd⟩, rfl⟩ := guard_eq_some.mp h
      exact .read hpc hd
  | loseRequest d =>
      obtain ⟨hd, rfl⟩ := guard_eq_some.mp h
      exact .loseRequest hd
  | loseReply d =>
      obtain ⟨hd, rfl⟩ := guard_eq_some.mp h
      exact .loseReply hd

def State.datagrams (s : State n) : List (Datagram n) :=
  s.toServer ++ s.msg.toList ++ s.toClient

def State.own (s : State n) (i : Fin n) : List (Datagram n) :=
  s.datagrams.filter fun d => decide (d.1 = i)

def Phase (file : List Byte) (i : Fin n) (c : Client) (lost : Nat)
    (own : List (Datagram n)) : Prop :=
  match c.pc with
  | .fgets => lost = 0 ∧ own = [] ∧ c.sent = c.printed ∧
      c.printed ++ lines c.input = lines file
  | .recvfrom => ∃ text, c.sent = c.printed ++ [text] ∧
      c.printed ++ text :: lines c.input = lines file ∧ 0 ∉ text ∧
      text.length < MAXLINE ∧
      (lost = 0 ∧ own = [(i, text)] ∨ lost = 1 ∧ own = [])
  | .returned => lost = 0 ∧ own = [] ∧ c.sent = c.printed ∧ c.printed = lines file

structure Inv (file : Fin n → List Byte) (s : State n) : Prop where
  recvline : ∀ i, (s.client i).recvline.length = MAXLINE
  phase : ∀ i, Phase (file i) i (s.client i) (s.lost i) (s.own i)

theorem Phase.congr {file : List Byte} {i : Fin n} {c : Client} {lost : Nat}
    {own own' : List (Datagram n)} (h : Phase file i c lost own) (hown : own.Perm own') :
    Phase file i c lost own' := by
  unfold Phase at h ⊢
  have hnil : own = [] → own' = [] := by
    rintro rfl
    exact List.Perm.nil_eq hown |>.symm
  cases hpc : c.pc with
  | fgets =>
      rw [hpc] at h
      exact ⟨h.1, hnil h.2.1, h.2.2⟩
  | recvfrom =>
      rw [hpc] at h
      obtain ⟨text, hsent, hlines, hzero, hlen, hcase⟩ := h
      refine ⟨text, hsent, hlines, hzero, hlen, ?_⟩
      rcases hcase with ⟨hlost, hone⟩ | ⟨hlost, hnone⟩
      · rw [hone] at hown
        exact .inl ⟨hlost, List.perm_singleton.mp hown.symm⟩
      · exact .inr ⟨hlost, hnil hnone⟩
  | returned =>
      rw [hpc] at h
      exact ⟨h.1, hnil h.2.1, h.2.2⟩

theorem Inv.owner {s : State n} (h : Inv file s) {d : Datagram n}
    (hd : d ∈ s.datagrams) :
    (s.client d.1).pc = .recvfrom ∧ s.lost d.1 = 0 ∧ s.own d.1 = [d] ∧
      d.2.length < MAXLINE := by
  have hmem : d ∈ s.own d.1 := List.mem_filter.mpr ⟨hd, by simp⟩
  have hphase := h.phase d.1
  unfold Phase at hphase
  cases hpc : (s.client d.1).pc with
  | fgets =>
      rw [hpc] at hphase
      rw [hphase.2.1] at hmem
      cases hmem
  | recvfrom =>
      rw [hpc] at hphase
      obtain ⟨text, -, -, -, hlen, ⟨hlost, hone⟩ | ⟨-, hnone⟩⟩ := hphase
      · rw [hone] at hmem
        have heq := List.mem_singleton.mp hmem
        have htext : d.2 = text := congrArg Prod.snd heq
        refine ⟨rfl, hlost, ?_, htext ▸ hlen⟩
        rw [hone, ← heq]
      · rw [hnone] at hmem
        cases hmem
  | returned =>
      rw [hpc] at hphase
      rw [hphase.2.1] at hmem
      cases hmem

theorem own_perm {s t : State n} (h : s.datagrams.Perm t.datagrams) (i : Fin n) :
    (s.own i).Perm (t.own i) := h.filter _

theorem own_cons {s t : State n} {d : Datagram n}
    (h : s.datagrams.Perm (d :: t.datagrams)) (i : Fin n) :
    if i = d.1 then (s.own i).Perm (d :: t.own i) else (s.own i).Perm (t.own i) := by
  have hfilter := h.filter fun e => decide (e.1 = i)
  split
  · rename_i heq
    rwa [List.filter_cons_of_pos (by simp [heq])] at hfilter
  · rename_i hne
    rwa [List.filter_cons_of_neg (by simpa using fun heq => hne heq.symm)] at hfilter

theorem perm_gone {s t : State n} {d : Datagram n} {es : List (Datagram n)}
    (ds fs : List (Datagram n)) (hd : d ∈ es) (hs : s.datagrams = ds ++ es ++ fs)
    (ht : t.datagrams = ds ++ es.erase d ++ fs) :
    s.datagrams.Perm (d :: t.datagrams) := by
  rw [hs, ht]
  refine (((List.perm_cons_erase hd).append_left ds).append_right fs).trans ?_
  rw [List.append_assoc, List.append_assoc, List.cons_append]
  exact List.perm_middle

section Steps

variable {s t : State n}

theorem Inv.moved (h : Inv file s) (hclient : t.client = s.client)
    (hlost : t.lost = s.lost) (hperm : s.datagrams.Perm t.datagrams) : Inv file t := by
  constructor
  · rw [hclient]
    exact h.recvline
  · intro i
    rw [hclient, hlost]
    exact (h.phase i).congr (own_perm hperm i)

theorem Inv.eof (h : Inv file s) {i : Fin n} (hpc : (s.client i).pc = .fgets)
    (hinput : (s.client i).input = []) :
    Inv file (s.setClient i { s.client i with pc := .returned }) := by
  constructor
  · intro j
    rcases eq_or_ne j i with rfl | hji
    · simpa [State.setClient] using h.recvline j
    · simpa [State.setClient, hji] using h.recvline j
  · intro j
    have hphase := h.phase j
    rcases eq_or_ne j i with rfl | hji
    · rw [Phase, hpc] at hphase
      obtain ⟨hlost, hown, hsent, hlines⟩ := hphase
      rw [hinput, lines_nil, List.append_nil] at hlines
      simp only [State.setClient, Function.update_self]
      exact ⟨hlost, hown, hsent, hlines⟩
    · have hsame : (s.setClient i { s.client i with pc := .returned }).client j =
          s.client j := Function.update_of_ne hji ..
      rw [hsame]
      exact hphase

theorem Inv.fgets (h : Inv file s) {i : Fin n} (hpc : (s.client i).pc = .fgets)
    (hinput : (s.client i).input ≠ []) : Inv file (s.fgets i (s.client i)) := by
  have hperm : (s.fgets i (s.client i)).datagrams.Perm
      ((i, cString (nextPiece newline (MAXLINE - 1) (s.client i).input).1) ::
        s.datagrams) := by
    simp only [State.datagrams, State.fgets, List.append_assoc, List.cons_append,
      List.nil_append]
    exact List.perm_middle
  constructor
  · intro j
    rcases eq_or_ne j i with rfl | hji
    · simpa [State.fgets, State.setClient] using h.recvline j
    · simpa [State.fgets, State.setClient, hji] using h.recvline j
  · intro j
    have hown := own_cons hperm j
    have hphase := h.phase j
    rcases eq_or_ne j i with rfl | hji
    · rw [if_pos rfl] at hown
      rw [Phase, hpc] at hphase
      obtain ⟨hlost, hnone, hsent, hlines⟩ := hphase
      rw [hnone] at hown
      rw [lines_of_ne_nil hinput] at hlines
      have hle := nextPiece_length_le newline (MAXLINE - 1) (s.client j).input
      have hle' := cString_length_le
        (nextPiece newline (MAXLINE - 1) (s.client j).input).1
      have hpos := MAXLINE_pos
      have hone := List.perm_singleton.mp hown
      simp only [State.fgets, State.setClient, Function.update_self] at hone ⊢
      refine ⟨_, by rw [← hsent], hlines, zero_not_mem_cString _, by omega,
        .inl ⟨hlost, hone⟩⟩
    · rw [if_neg hji] at hown
      have hsame : (s.fgets i (s.client i)).client j = s.client j :=
        Function.update_of_ne hji ..
      rw [hsame]
      exact hphase.congr hown.symm

theorem Inv.read (h : Inv file s) {d : Datagram n} (hpc : (s.client d.1).pc = .recvfrom)
    (hd : d ∈ s.toClient) :
    Inv file { s.setClient d.1 ((s.client d.1).read d.2) with
      toClient := s.toClient.erase d } := by
  have hmem : d ∈ s.datagrams := List.mem_append_right _ hd
  obtain ⟨-, hlost, hone, hlen⟩ := h.owner hmem
  have hdata : d.2.take MAXLINE = d.2 := List.take_of_length_le hlen.le
  constructor
  · intro j
    rcases eq_or_ne j d.1 with rfl | hji
    · simpa [State.setClient, Client.read] using h.recvline d.1
    · simpa [State.setClient, hji] using h.recvline j
  · intro j
    have hown := own_cons (t := { s.setClient d.1 ((s.client d.1).read d.2) with
      toClient := s.toClient.erase d })
      (perm_gone _ [] hd (List.append_nil _).symm (List.append_nil _).symm) j
    have hphase := h.phase j
    rcases eq_or_ne j d.1 with rfl | hji
    · rw [if_pos rfl, hone] at hown
      rw [Phase, hpc] at hphase
      obtain ⟨text, hsent, hlines, hzero, -, ⟨-, howned⟩ | ⟨-, hnone⟩⟩ := hphase
      · rw [hone] at howned
        have htext : d.2 = text := congrArg Prod.snd (List.singleton_inj.mp howned)
        have hshown : cString ((store (s.client d.1).recvline 0 d.2).set d.2.length 0) =
            d.2 := by
          rw [cString_terminated (by rw [h.recvline]; exact hlen), cString_eq_self]
          rwa [htext]
        simp only [State.setClient, Function.update_self] at hown ⊢
        refine ⟨hlost, ?_, ?_, ?_⟩
        · exact List.Perm.eq_nil (List.Perm.cons_inv hown).symm
        · simp only [Client.read, hdata, hshown]
          rw [hsent, htext]
        · simp only [Client.read, hdata, hshown]
          rw [← hlines, htext, List.append_assoc]
          rfl
      · rw [hnone] at hone
        cases hone
    · rw [if_neg hji] at hown
      simp only [State.setClient, Function.update_of_ne hji] at hown ⊢
      exact hphase.congr hown

theorem Inv.lose (h : Inv file s) {d : Datagram n} (hd : d ∈ s.datagrams)
    (hclient : t.client = s.client)
    (hlost : t.lost = Function.update s.lost d.1 (s.lost d.1 + 1))
    (hperm : s.datagrams.Perm (d :: t.datagrams)) : Inv file t := by
  obtain ⟨hpc, hzero, hone, -⟩ := h.owner hd
  constructor
  · rw [hclient]
    exact h.recvline
  · intro j
    have hown := own_cons hperm j
    have hphase := h.phase j
    rw [hclient, hlost]
    rcases eq_or_ne j d.1 with rfl | hji
    · rw [if_pos rfl, hone] at hown
      rw [Phase, hpc] at hphase ⊢
      obtain ⟨text, hsent, hlines, hnul, hlen, -⟩ := hphase
      refine ⟨text, hsent, hlines, hnul, hlen, .inr ⟨?_, ?_⟩⟩
      · rw [Function.update_self, hzero]
      · exact List.Perm.eq_nil (List.Perm.cons_inv hown).symm
    · rw [if_neg hji] at hown
      rw [Function.update_of_ne hji]
      exact hphase.congr hown

end Steps

theorem Inv.step {s t : State n} {l : Act n} (h : Inv file s)
    (hstep : (system file).step s l = some t) : Inv file t := by
  cases step_move hstep with
  | eof hpc hinput => exact h.eof hpc hinput
  | fgets hpc hinput => exact h.fgets hpc hinput
  | @recvfrom d hmsg hd =>
      have hmem : d ∈ s.datagrams := by simp [State.datagrams, hd]
      have hdata := List.take_of_length_le (h.owner hmem).2.2.2.le
      refine h.moved rfl rfl ?_
      simp only [State.datagrams, hmsg, hdata, Option.toList_none, Option.toList_some,
        List.append_nil]
      refine ((List.perm_cons_erase hd).append_right s.toClient).trans ?_
      rw [List.append_assoc, List.cons_append, List.singleton_append]
      exact List.perm_middle.symm
  | @sendto d hmsg =>
      refine h.moved rfl rfl ?_
      simp only [State.datagrams, hmsg, Option.toList_none, Option.toList_some,
        List.append_nil, List.append_assoc]
      exact (List.perm_append_comm).append_left s.toServer
  | read hpc hd => exact h.read hpc hd
  | loseRequest hd =>
      refine h.lose (by simp [State.datagrams, hd]) rfl rfl ?_
      refine perm_gone [] (s.msg.toList ++ s.toClient) hd ?_ ?_
      · simp [State.datagrams]
      · simp [State.datagrams]
  | loseReply hd =>
      refine h.lose (by simp [State.datagrams, hd]) rfl rfl ?_
      exact perm_gone _ [] hd (List.append_nil _).symm (List.append_nil _).symm

theorem reachable_inv {s : State n} (hs : (system file).Reachable s) : Inv file s := by
  refine hs.invariant (P := Inv file) ?_ ?_
  · rintro s ⟨hclient, hto, hmsg, hback, hlost⟩
    refine ⟨fun i => (hclient i).recvline, fun i => ?_⟩
    obtain ⟨hpc, hinput, -, hsent, hprinted⟩ := hclient i
    rw [Phase, hpc]
    refine ⟨hlost i, ?_, ?_, ?_⟩
    · simp [State.own, State.datagrams, hto, hmsg, hback]
    · rw [hsent, hprinted]
    · rw [hprinted, hinput, List.nil_append]
  · intro s l t _ h hstep
    exact h.step hstep

def loses : Act n → Bool
  | .loseRequest _ => true
  | .loseReply _ => true
  | _ => false

def works (l : Act n) : Bool := !loses l

/-- Four steps for each line that is left, and one to find the end of the file. -/
def Client.todo (c : Client) : Nat :=
  4 * (lines c.input).length + if c.pc = .returned then 0 else 1

def State.lineWork (s : State n) : Nat := ∑ i, (s.client i).todo

def State.rank (s : State n) : Nat :=
  s.lineWork + 3 * s.toServer.length + 2 * s.msg.toList.length + s.toClient.length

theorem lineWork_update {s t : State n} {i : Fin n} {c : Client}
    (hclient : t.client = Function.update s.client i c) :
    t.lineWork + (s.client i).todo = s.lineWork + c.todo := by
  have hself : (t.client i).todo = c.todo := by
    rw [hclient, Function.update_self]
  rw [← hself]
  refine sum_rank_of_eq (f := fun j => (t.client j).todo)
    (g := fun j => (s.client j).todo) fun j hj => ?_
  rw [hclient, Function.update_of_ne hj]

theorem rank_step {s t : State n} {l : Act n} (hstep : (system file).step s l = some t) :
    t.rank + (if works l then 1 else 0) ≤ s.rank := by
  cases step_move hstep with
  | @eof i hpc hinput =>
      have hwork := lineWork_update
        (t := s.setClient i { s.client i with pc := .returned }) rfl
      have hone : (s.client i).todo = 1 := by
        simp [Client.todo, hpc, hinput, lines_nil]
      have hzero : Client.todo { s.client i with pc := .returned } = 0 := by
        simp [Client.todo, hinput, lines_nil]
      show _ + 3 * s.toServer.length + 2 * s.msg.toList.length + s.toClient.length + 1 ≤
        s.lineWork + 3 * s.toServer.length + 2 * s.msg.toList.length + s.toClient.length
      omega
  | @fgets i hpc hinput =>
      have hwork := lineWork_update (t := s.fgets i (s.client i)) rfl
      have hbefore : (s.client i).todo =
          4 * ((lines (nextPiece newline (MAXLINE - 1) (s.client i).input).2).length + 1) +
            1 := by
        simp [Client.todo, hpc, lines_of_ne_nil hinput]
      simp only [Client.todo, reduceCtorEq, if_false] at hwork hbefore
      show _ + 3 * (s.toServer ++ [_]).length + 2 * s.msg.toList.length +
          s.toClient.length + 1 ≤
        s.lineWork + 3 * s.toServer.length + 2 * s.msg.toList.length + s.toClient.length
      rw [List.length_append, List.length_singleton]
      omega
  | @recvfrom d hmsg hd =>
      have hlen := List.length_erase_of_mem hd
      have hpos := List.length_pos_of_mem hd
      show s.lineWork + 3 * (s.toServer.erase d).length + 2 * 1 + s.toClient.length + 1 ≤
        s.lineWork + 3 * s.toServer.length + 2 * s.msg.toList.length + s.toClient.length
      omega
  | @sendto d hmsg =>
      show s.lineWork + 3 * s.toServer.length + 2 * 0 + (s.toClient ++ [d]).length + 1 ≤
        s.lineWork + 3 * s.toServer.length + 2 * s.msg.toList.length + s.toClient.length
      rw [hmsg, List.length_append, List.length_singleton, Option.toList_some,
        List.length_singleton]
      omega
  | @read d hpc hd =>
      have hwork := lineWork_update
        (t := { s.setClient d.1 ((s.client d.1).read d.2) with
          toClient := s.toClient.erase d }) rfl
      have hsame : ((s.client d.1).read d.2).todo = (s.client d.1).todo := by
        simp [Client.todo, Client.read, hpc]
      have hlen := List.length_erase_of_mem hd
      have hpos := List.length_pos_of_mem hd
      show _ + 3 * s.toServer.length + 2 * s.msg.toList.length +
          (s.toClient.erase d).length + 1 ≤
        s.lineWork + 3 * s.toServer.length + 2 * s.msg.toList.length + s.toClient.length
      omega
  | @loseRequest d hd =>
      have hlen := List.length_erase_of_mem hd
      show s.lineWork + 3 * (s.toServer.erase d).length + 2 * s.msg.toList.length +
          s.toClient.length + 0 ≤
        s.lineWork + 3 * s.toServer.length + 2 * s.msg.toList.length + s.toClient.length
      omega
  | @loseReply d hd =>
      have hlen := List.length_erase_of_mem hd
      show s.lineWork + 3 * s.toServer.length + 2 * s.msg.toList.length +
          (s.toClient.erase d).length + 0 ≤
        s.lineWork + 3 * s.toServer.length + 2 * s.msg.toList.length + s.toClient.length
      omega

def Stuck (file : Fin n → List Byte) (s : State n) : Prop :=
  ∀ l, works l = true → (system file).step s l = none

theorem Stuck.datagrams {s : State n} (h : Stuck file s) (hinv : Inv file s) :
    s.datagrams = [] := by
  have hmsg : s.msg = none := by
    by_contra hne
    obtain ⟨d, hd⟩ := Option.ne_none_iff_exists'.mp hne
    have hnone := h .sendto rfl
    change s.step .sendto = none at hnone
    simp [State.step, hd] at hnone
  have hto : s.toServer = [] := by
    by_contra hne
    obtain ⟨d, hd⟩ := List.exists_mem_of_ne_nil _ hne
    have hnone := h (.recvfrom d) rfl
    change s.step (.recvfrom d) = none at hnone
    simp [State.step, hmsg, hd] at hnone
  have hback : s.toClient = [] := by
    by_contra hne
    obtain ⟨d, hd⟩ := List.exists_mem_of_ne_nil _ hne
    have hpc := (hinv.owner (List.mem_append_right _ hd)).1
    have hnone := h (.read d) rfl
    change s.step (.read d) = none at hnone
    simp [State.step, hpc, hd] at hnone
  rw [State.datagrams, hmsg, hto, hback]
  rfl

theorem Stuck.client {s : State n} (h : Stuck file s) (hinv : Inv file s) (i : Fin n) :
    (s.client i).pc = .returned ∧ (s.client i).printed = lines (file i) ∧ s.lost i = 0 ∨
      (s.client i).pc = .recvfrom ∧ s.lost i = 1 := by
  have hphase := hinv.phase i
  have hown : s.own i = [] := by rw [State.own, h.datagrams hinv, List.filter_nil]
  unfold Phase at hphase
  cases hpc : (s.client i).pc with
  | fgets =>
      have hnone := h (.fgets i) rfl
      change s.step (.fgets i) = none at hnone
      rw [State.step, hpc] at hnone
      split at hnone <;> simp at hnone
      rename_i hfgets hcons
      cases hinput : (s.client i).input with
      | nil => exact absurd hinput (hfgets rfl)
      | cons b bs => exact absurd hinput (hcons b bs rfl)
  | recvfrom =>
      rw [hpc, hown] at hphase
      obtain ⟨text, -, -, -, -, ⟨-, hone⟩ | ⟨hlost, -⟩⟩ := hphase
      · cases hone
      · exact .inr ⟨rfl, hlost⟩
  | returned =>
      rw [hpc] at hphase
      exact .inl ⟨rfl, hphase.2.2.2, hphase.1⟩

theorem Inv.waits {s : State n} (h : Inv file s) {i : Fin n} (hlost : s.lost i = 1) :
    (s.client i).pc = .recvfrom := by
  have hphase := h.phase i
  unfold Phase at hphase
  cases hpc : (s.client i).pc with
  | fgets =>
      rw [hpc, hlost] at hphase
      exact absurd hphase.1 (by decide)
  | recvfrom => rfl
  | returned =>
      rw [hpc, hlost] at hphase
      exact absurd hphase.1 (by decide)

theorem lost_step {s t : State n} {l : Act n} {i : Fin n} (hinv : Inv file s)
    (hlost : s.lost i = 1) (hstep : (system file).step s l = some t) :
    t.client i = s.client i ∧ t.lost i = 1 := by
  have hpc := hinv.waits hlost
  have howner : ∀ d ∈ s.datagrams, i ≠ d.1 := by
    rintro d hd rfl
    have hzero := (hinv.owner hd).2.1
    rw [hlost] at hzero
    exact absurd hzero (by decide)
  cases step_move hstep with
  | @eof j hj hinput =>
      have hij : i ≠ j := by
        rintro rfl
        rw [hpc] at hj
        cases hj
      exact ⟨Function.update_of_ne hij .., hlost⟩
  | @fgets j hj hinput =>
      have hij : i ≠ j := by
        rintro rfl
        rw [hpc] at hj
        cases hj
      exact ⟨Function.update_of_ne hij .., hlost⟩
  | recvfrom hmsg hd => exact ⟨rfl, hlost⟩
  | sendto hmsg => exact ⟨rfl, hlost⟩
  | read hj hd =>
      have hij := howner _ (List.mem_append_right _ hd)
      exact ⟨Function.update_of_ne hij .., hlost⟩
  | @loseRequest d hd =>
      have hij := howner d (by simp [State.datagrams, hd])
      exact ⟨rfl, (Function.update_of_ne hij ..).trans hlost⟩
  | loseReply hd =>
      have hij := howner _ (List.mem_append_right _ hd)
      exact ⟨rfl, (Function.update_of_ne hij ..).trans hlost⟩

/-- What the clients get, whatever is lost and in whatever order the rest arrives:
each has printed its first lines in their order, and sent at most one more, whose
datagram is the only one of that client; one that has lost a datagram waits for
ever, with the line before it printed last, and no other client notices. When
nothing can be done any more, every other client has its whole file echoed. -/
structure EchoLaw (file : Fin n → List Byte) (s : State n) : Prop where
  printed : ∀ i, (s.client i).printed <+: lines (file i)
  sent : ∀ i, (s.client i).sent = (s.client i).printed ∨
    ∃ text, (s.client i).sent = (s.client i).printed ++ [text] ∧
      (s.client i).sent <+: lines (file i)
  single : ∀ i, (s.own i).length + s.lost i ≤ 1
  returned : ∀ i, (s.client i).pc = .returned →
    (s.client i).printed = lines (file i) ∧ s.lost i = 0
  blocked : ∀ i, s.lost i = 1 → (s.client i).pc = .recvfrom ∧
    ∀ ls t, (system file).run s ls = some t → t.client i = s.client i
  stuck : Stuck file s → ∀ i,
    (s.client i).pc = .returned ∧ (s.client i).printed = lines (file i) ∨ s.lost i = 1

theorem lost_run {s t : State n} {ls : List (Act n)} {i : Fin n}
    (hs : (system file).Reachable s) (hlost : s.lost i = 1)
    (hrun : (system file).run s ls = some t) : t.client i = s.client i := by
  have hkeep := hs.run_invariant (C := fun _ => True)
    (P := fun t => t.client i = s.client i ∧ t.lost i = 1) ?_ ⟨rfl, hlost⟩
    (fun _ _ => trivial) hrun
  · exact hkeep.1
  · rintro u l v hu - ⟨hclient, hone⟩ hstep
    obtain ⟨hsame, hv⟩ := lost_step (reachable_inv hu) hone hstep
    exact ⟨hsame.trans hclient, hv⟩

theorem reachable_echoLaw {s : State n} (hs : (system file).Reachable s) :
    EchoLaw file s := by
  have hinv := reachable_inv hs
  constructor
  · intro i
    have hphase := hinv.phase i
    unfold Phase at hphase
    cases hpc : (s.client i).pc with
    | fgets =>
        rw [hpc] at hphase
        rw [← hphase.2.2.2]
        exact List.prefix_append _ _
    | recvfrom =>
        rw [hpc] at hphase
        obtain ⟨text, -, hlines, -⟩ := hphase
        rw [← hlines]
        exact List.prefix_append _ _
    | returned =>
        rw [hpc] at hphase
        rw [hphase.2.2.2]
  · intro i
    have hphase := hinv.phase i
    unfold Phase at hphase
    cases hpc : (s.client i).pc with
    | fgets =>
        rw [hpc] at hphase
        exact .inl hphase.2.2.1
    | recvfrom =>
        rw [hpc] at hphase
        obtain ⟨text, hsent, hlines, -⟩ := hphase
        refine .inr ⟨text, hsent, ?_⟩
        rw [hsent, ← hlines]
        exact ⟨lines (s.client i).input, by simp⟩
    | returned =>
        rw [hpc] at hphase
        exact .inl hphase.2.2.1
  · intro i
    have hphase := hinv.phase i
    unfold Phase at hphase
    cases hpc : (s.client i).pc with
    | fgets =>
        rw [hpc] at hphase
        rw [hphase.1, hphase.2.1]
        exact Nat.zero_le 1
    | recvfrom =>
        rw [hpc] at hphase
        obtain ⟨text, -, -, -, -, ⟨hlost, hown⟩ | ⟨hlost, hown⟩⟩ := hphase
        all_goals rw [hlost, hown]; exact Nat.le_refl 1
    | returned =>
        rw [hpc] at hphase
        rw [hphase.1, hphase.2.1]
        exact Nat.zero_le 1
  · intro i hpc
    have hphase := hinv.phase i
    rw [Phase, hpc] at hphase
    exact ⟨hphase.2.2.2, hphase.1⟩
  · intro i hlost
    exact ⟨hinv.waits hlost, fun ls t hrun => lost_run hs hlost hrun⟩
  · intro hstuck i
    rcases hstuck.client hinv i with ⟨hpc, hprinted, -⟩ | ⟨-, hlost⟩
    · exact .inl ⟨hpc, hprinted⟩
    · exact .inr hlost

theorem works_lost {s t : State n} {l : Act n} (hl : works l = true)
    (hstep : (system file).step s l = some t) : t.lost = s.lost := by
  cases step_move hstep with
  | loseRequest hd => cases hl
  | loseReply hd => cases hl
  | eof hpc hinput => rfl
  | fgets hpc hinput => rfl
  | recvfrom hmsg hd => rfl
  | sendto hmsg => rfl
  | read hpc hd => rfl

theorem exists_stuck (s : State n) :
    ∃ ls t, (∀ l ∈ ls, works l = true) ∧ (system file).run s ls = some t ∧
      t.lost = s.lost ∧ Stuck file t := by
  have hnext : ∀ u l t, u.lost = s.lost → works l = true →
      (system file).step u l = some t → t.lost = s.lost ∧ t.rank < u.rank := by
    intro u l t hlost hl hstep
    have hrank := rank_step hstep
    rw [hl, if_pos rfl] at hrank
    exact ⟨(works_lost hl hstep).trans hlost, hrank⟩
  obtain ⟨ls, t, hls, hrun, hlost, hdone⟩ := System.exists_run_stuck hnext rfl
  exact ⟨ls, t, hls, hrun, hlost, hdone⟩

/-- In every run, for any files, any losses and any order of delivery: the law holds,
the run has at most four steps for each line and one for each client besides the
losses, and from each of its states, if nothing more is lost, the exchange comes to
its end. -/
theorem lossy_echo {ls : List (Act n)} {s : State n} (h : (system file).Trace ls s) :
    EchoLaw file s ∧
      ls.countP works ≤ ∑ i, (4 * (lines (file i)).length + 1) ∧
      ∃ ms t, (∀ l ∈ ms, works l = true) ∧ (system file).run s ms = some t ∧
        t.lost = s.lost ∧ EchoLaw file t ∧
          ∀ i, (t.client i).printed = lines (file i) ∨ t.lost i = 1 := by
  refine ⟨reachable_echoLaw h.reachable, ?_, ?_⟩
  · have hinit : ∀ s, (system file).init s →
        s.rank ≤ ∑ i, (4 * (lines (file i)).length + 1) := by
      rintro s ⟨hclient, hto, hmsg, hback, -⟩
      have htodo : ∀ i, (s.client i).todo = 4 * (lines (file i)).length + 1 := by
        intro i
        obtain ⟨hpc, hinput, -, -, -⟩ := hclient i
        simp [Client.todo, hpc, hinput]
      simp [State.rank, State.lineWork, hto, hmsg, hback, htodo]
    have hcount := h.countP_le hinit fun _ _ _ _ hstep => rank_step hstep
    exact Nat.le_trans (Nat.le_add_right _ _) hcount
  · obtain ⟨ms, t, hms, hrun, hlost, hstuck⟩ := exists_stuck s
    have hlaw := reachable_echoLaw (h.reachable.of_run hrun)
    exact ⟨ms, t, hms, hrun, hlost, hlaw, fun i => (hlaw.stuck hstuck i).imp_left And.right⟩

def twoClients : State 2 where
  client i := ⟨.fgets, [97 + i.val.toUInt8, 10], List.replicate MAXLINE 0, [], []⟩
  toServer := []
  msg := none
  toClient := []
  lost _ := 0

theorem lossy_echo_two : ∃ s : State 2, s.lost 0 = 1 ∧ s.msg = some (1, [98, 10]) ∧
    EchoLaw (fun i => [97 + i.val.toUInt8, 10]) s := by
  have hmap : ((system fun i : Fin 2 => [97 + i.val.toUInt8, 10]).run twoClients
      [.fgets 0, .loseRequest (0, [97, 10]), .fgets 1, .recvfrom (1, [98, 10])]).map
        (fun s => (s.lost 0, s.msg)) = some (1, some (1, [98, 10])) := by
    decide +kernel
  obtain ⟨s, hrun, hfacts⟩ := Option.map_eq_some_iff.mp hmap
  obtain ⟨hlost, hmsg⟩ := Prod.mk.inj hfacts
  have hstart : State.IsStart (fun i : Fin 2 => [97 + i.val.toUInt8, 10]) twoClients :=
    ⟨fun _ => ⟨rfl, rfl, List.length_replicate, rfl, rfl⟩, rfl, rfl, rfl, fun _ => rfl⟩
  exact ⟨s, hlost, hmsg, (lossy_echo ⟨twoClients, hstart, hrun⟩).1⟩

end MyUnp.DatagramEcho
