import MyUnp.PollServerScan

namespace MyUnp.PollServerEcho

open MyUnp.PollServer
open MyUnp.PollServerRule
open MyUnp.PollServerScan
open MyUnp.PollServerTable
open MyUnp.SlotTable
open MyUnp.TransitionSystem
open MyUnp.Unp

variable {cfg : Config} {e : Env}

def readBytes (c : Nat) : Op → List Byte
  | .read _ _ conn (.data g) => if conn = some c then g.bytes else []
  | _ => []

def writeBytes (c : Nat) : Op → List Byte
  | .write _ _ conn bytes => if conn = some c then bytes else []
  | _ => []

def received (c : Nat) (log : List Op) : List Byte := log.flatMap (readBytes c)

def echoed (c : Nat) (log : List Op) : List Byte := log.flatMap (writeBytes c)

/-- At every moment each client has been sent a prefix of what it sent itself. -/
def EchoPrefix (log : List Op) : Prop :=
  ∀ l, l <+: log → ∀ c, echoed c l <+: received c l

theorem received_snoc (c : Nat) (log : List Op) (op : Op) :
    received c (log ++ [op]) = received c log ++ readBytes c op := by
  simp [received]

theorem echoed_snoc (c : Nat) (log : List Op) (op : Op) :
    echoed c (log ++ [op]) = echoed c log ++ writeBytes c op := by
  simp [echoed]

theorem EchoPrefix.snoc {log : List Op} {op : Op} (h : EchoPrefix log)
    (hop : ∀ c, echoed c log ++ writeBytes c op <+:
      received c log ++ readBytes c op) : EchoPrefix (log ++ [op]) := by
  intro l hl c
  rcases List.prefix_concat_iff.mp hl with rfl | hl
  · rw [echoed_snoc, received_snoc]
    exact hop c
  · exact h l hl c

/-- The echo law: while the program runs and is not inside a service, nothing
is outstanding. -/
structure EchoOk (x : Option Exit) (log : List Op) : Prop where
  sent : EchoPrefix log
  done : x = none → ∀ c, echoed c log = received c log

section Law

variable {log : List Op}

theorem EchoOk.exits (h : EchoOk none log) (x : Option Exit) : EchoOk x log :=
  ⟨h.sent, fun _ => h.done rfl⟩

theorem EchoOk.silent (h : EchoOk none log) {op : Op}
    (hread : ∀ c, readBytes c op = []) (hwrite : ∀ c, writeBytes c op = []) :
    EchoOk none (log ++ [op]) := by
  constructor
  · apply h.sent.snoc
    intro c
    have hdone := h.done rfl c
    simp only [hread, hwrite, hdone, List.prefix_rfl]
  · intro _ c
    rw [echoed_snoc, received_snoc, hread, hwrite, h.done rfl c]

theorem EchoOk.echo (h : EchoOk none log) {x : Option Exit} {conn : Option Nat}
    {g : Segment} {bytes : List Byte} (hbytes : bytes <+: g.bytes)
    (hall : x = none → bytes = g.bytes) (i j : Nat) (fd fd' : Int) :
    EchoOk x (log ++ [.read i fd conn (.data g)] ++ [.write j fd' conn bytes]) := by
  have hdone := h.done rfl
  have hread : EchoPrefix (log ++ [.read i fd conn (.data g)]) := by
    apply h.sent.snoc
    intro c
    rw [hdone c]
    exact (List.prefix_append_right_inj _).mpr List.nil_prefix
  constructor
  · apply hread.snoc
    intro c
    rw [echoed_snoc, received_snoc, hdone c]
    simp only [writeBytes, readBytes, List.append_nil]
    apply (List.prefix_append_right_inj _).mpr
    split
    · exact hbytes
    · exact List.prefix_rfl
  · intro hx c
    rw [echoed_snoc, received_snoc, echoed_snoc, received_snoc, hdone c, hall hx]
    simp [writeBytes, readBytes]

theorem echoOk_acceptClient {s : Server} (h : EchoOk none log) :
    EchoOk (acceptClient cfg e s).exited (log ++ (acceptClient cfg e s).ops) := by
  rcases acceptClient_cases cfg e s with
    ⟨-, heq⟩ | ⟨connfd, -, heq | ⟨-, heq⟩⟩
  · rw [heq, List.append_nil]
    exact h.exits _
  · rw [heq]
    exact (h.silent (fun _ => rfl) fun _ => rfl).exits _
  · rw [heq]
    exact h.silent (fun _ => rfl) fun _ => rfl

theorem echoOk_serve {s : Server} (h : EchoOk none log) (i : Nat) :
    EchoOk (serve e s i).exited (log ++ (serve e s i).ops) := by
  rcases serve_cases e s i with
    ⟨hread, heq⟩ | ⟨hread, heq⟩ | ⟨g, hread, heq | ⟨k, heq⟩⟩
  · rw [heq, hread]
    exact (h.silent (fun _ => rfl) fun _ => rfl).exits _
  · rw [heq, List.append_cons]
    refine (h.silent ?_ fun _ => rfl).silent (fun _ => rfl) fun _ => rfl
    intro c
    rcases hread with hread | hread <;> rw [hread] <;> rfl
  · rw [heq, hread, List.append_cons]
    exact h.echo List.prefix_rfl (fun _ => rfl) ..
  · rw [heq, hread, List.append_cons]
    exact h.echo (x := some .writenError) (List.take_prefix _ _) (by simp) ..

end Law

theorem echoOk_kept (cfg : Config) :
    Kept cfg fun x s log => Inv cfg x s log ∧ EchoOk x log where
  start junk := by
    refine ⟨(inv_kept cfg).start junk, ⟨?_, fun _ _ => rfl⟩⟩
    intro l hl c
    obtain rfl := List.prefix_nil.mp hl
    exact List.prefix_rfl
  poll e h := ⟨(inv_kept cfg).poll e h.1, h.2⟩
  inTable h := (inv_kept cfg).inTable h.1
  accept h hlegal := ⟨inv_acceptClient h.1 hlegal, echoOk_acceptClient h.2⟩
  serve _ h hi := ⟨inv_serve h.1 hi, echoOk_serve h.2 _⟩

/-- Entry `i` held connection `conn` under `fd` when `Poll` was called, and
`Poll` was given the entry and reported it. -/
def Reported (s : Server) (e : Env) (i : Nat) (fd : Int) (conn : Option Nat) :
    Prop :=
  1 ≤ i ∧ i ≤ s.maxi ∧ 0 ≤ fd ∧ (s.client i).fd = fd ∧
    s.kernel.conn fd = conn ∧ e.revents i &&& (POLLRDNORM ||| POLLERR) ≠ 0

theorem read_of_mem_served {s : Server} {i j : Nat} {fd : Int}
    {conn : Option Nat} {r : ReadResult}
    (h : .read i fd conn r ∈ served e s j) :
    i = j ∧ fd = (s.client j).fd ∧ conn = s.kernel.conn fd := by
  rw [served] at h
  rcases serve_cases e s j with ⟨-, heq⟩ | ⟨-, heq⟩ | ⟨g, -, heq | ⟨k, heq⟩⟩
  all_goals
    rw [heq] at h
    simp only [List.mem_cons, Op.read.injEq, List.not_mem_nil, or_false,
      reduceCtorEq] at h
    obtain ⟨rfl, rfl, rfl, -⟩ := h
    exact ⟨rfl, rfl, rfl⟩

theorem reported_of_mem_pass {s : Server} {log : List Op}
    (h : Inv cfg none s log) (hlegal : Legal cfg s e) {i : Nat} {fd : Int}
    {conn : Option Nat} {r : ReadResult}
    (hop : .read i fd conn r ∈ (pass cfg e s).ops) : Reported s e i fd conn := by
  obtain ⟨acc, l, hops, hacc, hpre, -⟩ := handled_pass h hlegal
  rw [hops, List.mem_append] at hop
  rcases hop with hop | hop
  · obtain ⟨fd', c, heq⟩ := hacc _ hop
    simp at heq
  · obtain ⟨j, hj, hserved⟩ := List.mem_flatMap.mp (hpre.subset hop)
    obtain ⟨hmem, hfd, hready⟩ := mem_hits.mp hj
    obtain ⟨rfl, rfl, rfl⟩ := read_of_mem_served hserved
    have hlt : i < cfg.OPEN_MAX := by
      have hfree := freeSlot_le cfg (s.poll e)
      have hmaxi := (h.table rfl).maxi_lt
      rw [List.mem_range'_1, scanEnd, poll_maxi] at hmem
      split at hmem <;> omega
    rw [poll_fd] at hfd ⊢
    have hle := le_maxi_of_fd (h.table rfl) hlt hfd
    refine ⟨(List.mem_range'_1.mp hmem).1, hle, hfd, rfl, rfl, ?_⟩
    rw [PollFd.ready, poll_revents hle hfd, bne_iff_ne] at hready
    exact hready

/-- Every read of the scan is on a descriptor that was in the same entry when
`Poll` was called and that this `Poll` reported; and each client is sent what it
sent itself, in order and nothing else: at every moment a prefix of it, at
every loop head all of it. -/
theorem reads_reported_writes_own {s : State} (h : (system cfg).Reachable s) :
    (s.exited = none → ∀ e, Legal cfg s.server e → ∀ i fd conn r,
      .read i fd conn r ∈ (pass cfg e s.server).ops →
        Reported s.server e i fd conn) ∧
      (∀ l, l <+: s.log → ∀ c, echoed c l <+: received c l) ∧
      (s.exited = none → ∀ c, echoed c s.log = received c s.log) := by
  obtain ⟨hinv, hecho⟩ := (echoOk_kept cfg).reachable h
  refine ⟨?_, hecho.sent, hecho.done⟩
  intro hrun e hlegal i fd conn r hop
  rw [hrun] at hinv
  exact reported_of_mem_pass hinv hlegal hop

theorem reads_reported_writes_own_twoBytes :
    ∃ s : State, received 0 s.log = [104, 105] ∧
      (s.exited = none → ∀ e, Legal small s.server e → ∀ i fd conn r,
        .read i fd conn r ∈ (pass small e s.server).ops →
          Reported s.server e i fd conn) ∧
        (∀ l, l <+: s.log → ∀ c, echoed c l <+: received c l) ∧
        (s.exited = none → ∀ c, echoed c s.log = received c s.log) := by
  have hmap : ((system small).run small.start
      [arrive 4, arrive 5, report 1 (.data ⟨104, [105], by decide⟩)]).map
        (fun s => received 0 s.log) = some [104, 105] := by decide
  obtain ⟨s, hrun, hreceived⟩ := Option.map_eq_some_iff.mp hmap
  have hreach : (system small).Reachable s := ⟨_, small.start, ⟨_, rfl⟩, hrun⟩
  exact ⟨s, hreceived, reads_reported_writes_own hreach⟩

end MyUnp.PollServerEcho
