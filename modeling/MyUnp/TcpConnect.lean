import MyUnp.DescriptorTable
import MyUnp.TcpListen

namespace MyUnp.TcpConnect

open MyUnp.DescriptorTable MyUnp.Unp
open MyUnp.TcpListen (Addrinfo)

universe u v

variable {α : Type u} {β : Type v}

inductive Socket (β : Type v)
  | inherited
  | created (connected : Option β)
  deriving DecidableEq

/-- An address of the list, and whether each call made for it succeeds. -/
structure Entry (α : Type u) where
  addr : α
  socket : Bool
  connect : Bool
  close : Bool
  deriving DecidableEq

/-- How a loop is left: with the rest of the list, `sockfd` and the descriptors, or
by a wrapper that ends the process. -/
inductive Left (α : Type u) (β : Type v)
  | loop (res : List (Entry α)) (sockfd : Int) (table : Table (Socket β))
  | exited (table : Table (Socket β))

structure Run (α : Type u) (β : Type v) where
  left : Left α β
  tried : List α

def Run.after (a : α) (r : Run α β) : Run α β := { r with tried := a :: r.tried }

def newSocket (t : Table (Socket β)) : Nat × Table (Socket β) := alloc (.created none) t

/-- `for ( ; res != NULL; res = res->ai_next)` of `tcp_connect`. -/
def connectEntries (sockfd : Int) (t : Table (Socket Addrinfo)) :
    List (Entry Addrinfo) → Run Addrinfo Addrinfo
  | [] => ⟨.loop [] sockfd t, []⟩
  | x :: rest =>
      Run.after x.addr <|
        if x.socket then
          let fd := (newSocket t).1
          let t' := (newSocket t).2
          if x.connect then ⟨.loop (x :: rest) fd (update t' fd (.created (some x.addr))), []⟩
          else if x.close then connectEntries fd (close t' fd) rest
          -- `Close` reports an error and ends the process
          else ⟨.exited (close t' fd), []⟩
        else connectEntries (-1) t rest

structure ServerAddr where
  sin_port : List Byte
  sin_addr : List Byte
  deriving DecidableEq

/-- `for ( ; *pptr != NULL; pptr++)` of `main`: `Socket` ends the process where it
fails, and what `close` returns is not looked at. -/
def connectAddrs (s_port : List Byte) (sockfd : Int) (t : Table (Socket ServerAddr)) :
    List (Entry (List Byte)) → Run (List Byte) ServerAddr
  | [] => ⟨.loop [] sockfd t, []⟩
  | x :: rest =>
      Run.after x.addr <|
        if x.socket then
          let fd := (newSocket t).1
          let t' := (newSocket t).2
          if x.connect then
            ⟨.loop (x :: rest) fd (update t' fd (.created (some ⟨s_port, x.addr⟩))), []⟩
          else connectAddrs s_port fd (close t' fd) rest
        else ⟨.exited t, []⟩

inductive Outcome
  | connected (sockfd : Int)
  | exited
  deriving DecidableEq

structure Result (α : Type u) (β : Type v) where
  outcome : Outcome
  table : Table (Socket β)
  tried : List α
  freed : List (List (Entry α))

def afterLoop (r : Run α β) (freed : List (List (Entry α))) : Result α β :=
  match r.left with
  | .exited t => ⟨.exited, t, r.tried, []⟩
  | .loop [] _ t => ⟨.exited, t, r.tried, []⟩
  | .loop (_ :: _) sockfd t => ⟨.connected sockfd, t, r.tried, freed⟩

/-- `getaddrinfo` gives `none` where it fails; `garbage` is what the variable
`sockfd` holds before it is first assigned. -/
def tcp_connect (getaddrinfo : Option (List (Entry Addrinfo))) (garbage : Int)
    (before : Table (Socket Addrinfo)) : Result Addrinfo Addrinfo :=
  match getaddrinfo with
  | none => ⟨.exited, before, [], []⟩
  | some entries => afterLoop (connectEntries garbage before entries) [entries]

/-- The address list of `main`: that of `gethostbyname`, or else the one address
that `inet_aton` makes of the argument. -/
def addrList (gethostbyname : Option (List (Entry (List Byte))))
    (inet_aton : Option (Entry (List Byte))) : Option (List (Entry (List Byte))) :=
  match gethostbyname with
  | some entries => some entries
  | none => inet_aton.map fun x => [x]

/-- `main` of `daytimetcpcli1.c` up to its first `Read`; `getservbyname` gives the
port. -/
def daytimetcpcli1 (gethostbyname : Option (List (Entry (List Byte))))
    (inet_aton : Option (Entry (List Byte))) (getservbyname : Option (List Byte))
    (garbage : Int) (before : Table (Socket ServerAddr)) : Result (List Byte) ServerAddr :=
  match addrList gethostbyname inet_aton, getservbyname with
  | some entries, some s_port => afterLoop (connectAddrs s_port garbage before entries) []
  | _, _ => ⟨.exited, before, [], []⟩

def Entry.works (x : Entry α) : Bool := x.socket && x.connect

def upTo (stops : Entry α → Bool) (entries : List (Entry α)) : List (Entry α) :=
  entries.takeWhile (fun x => !stops x) ++ (entries.find? stops).toList

/-- Every address up to the one that stops the loop is tried once, in order. If that
one works, its socket is the only new descriptor, and connected to it; otherwise the
program ends with no new descriptor left. -/
structure Connects (stops : Entry α → Bool) (target : α → β) (entries : List (Entry α))
    (before : Table (Socket β)) (r : Result α β) : Prop where
  tried : r.tried = (upTo stops entries).map Entry.addr
  used : ∀ x, entries.find? stops = some x → x.works = true → ∃ fd : Nat,
    r.outcome = .connected fd ∧ object before fd = none ∧
      ∀ fd', object r.table fd' = if fd' = fd then some (.created (some (target x.addr)))
        else object before fd'
  ended : (∀ x, entries.find? stops = some x → x.works = false) →
    r.outcome = .exited ∧ ∀ fd', object r.table fd' = object before fd'

inductive Turn (stops : Entry α → Bool) (target : α → β)
    (loop : Int → Table (Socket β) → List (Entry α) → Run α β) (x : Entry α)
    (rest : List (Entry α)) (t : Table (Socket β)) : Run α β → Prop
  | works (hstops : stops x = true) (hworks : x.works = true) :
      Turn stops target loop x rest t ⟨.loop (x :: rest) (newSocket t).1
        (update (newSocket t).2 (newSocket t).1 (.created (some (target x.addr)))), []⟩
  | exits {t' : Table (Socket β)} (hstops : stops x = true) (hworks : x.works = false)
      (hsame : ∀ fd, object t' fd = object t fd) :
      Turn stops target loop x rest t ⟨.exited t', []⟩
  | next {fd : Int} {t' : Table (Socket β)} (hstops : stops x = false)
      (hsame : ∀ fd, object t' fd = object t fd) :
      Turn stops target loop x rest t (loop fd t' rest)

theorem object_close_newSocket (t : Table (Socket β)) (fd : Nat) :
    object (close (newSocket t).2 (newSocket t).1) fd = object t fd :=
  object_close_alloc _ t fd

theorem object_connect_newSocket (t : Table (Socket β)) (b : β) (fd : Nat) :
    object (update (newSocket t).2 (newSocket t).1 (.created (some b))) fd =
      if fd = (newSocket t).1 then some (.created (some b)) else object t fd := by
  unfold newSocket
  rw [object_update (object_alloc_self _ t), object_alloc]
  split_ifs <;> rfl

section Loops

variable {stops : Entry α → Bool} {target : α → β}
  {loop : Int → Table (Socket β) → List (Entry α) → Run α β} {before : Table (Socket β)}

theorem connects_of_turns (hnil : ∀ fd t, loop fd t [] = ⟨.loop [] fd t, []⟩)
    (hcons : ∀ x rest fd t, ∃ r, loop fd t (x :: rest) = r.after x.addr ∧
      Turn stops target loop x rest t r)
    (entries : List (Entry α)) (freed : List (List (Entry α))) (garbage : Int)
    {t : Table (Socket β)} (ht : ∀ fd, object t fd = object before fd) :
    let r := afterLoop (loop garbage t entries) freed
    Connects stops target entries before r ∧
      r.freed = if r.outcome = .exited then [] else freed := by
  induction entries generalizing garbage t with
  | nil =>
      rw [hnil]
      exact ⟨⟨rfl, nofun, fun _ => ⟨rfl, ht⟩⟩, rfl⟩
  | cons x rest ih =>
      obtain ⟨r, heq, hturn⟩ := hcons x rest garbage t
      rw [heq]
      cases hturn with
      | works hstops hworks =>
          have hfind : (x :: rest).find? stops = some x := List.find?_cons_of_pos hstops
          refine ⟨⟨?_, ?_, ?_⟩, rfl⟩
          · rw [upTo, List.takeWhile_cons_of_neg (by simp [hstops]), hfind]
            rfl
          · intro y hy _
            obtain rfl := Option.some.inj (hfind.symm.trans hy)
            refine ⟨_, rfl, ?_, fun fd' => ?_⟩
            · rw [← ht]
              exact object_alloc_fst _ t
            · rw [← ht]
              exact object_connect_newSocket t _ fd'
          · intro hnone
            rw [hnone x hfind] at hworks
            cases hworks
      | exits hstops hworks hsame =>
          have hfind : (x :: rest).find? stops = some x := List.find?_cons_of_pos hstops
          refine ⟨⟨?_, ?_, fun _ => ⟨rfl, fun fd => (hsame fd).trans (ht fd)⟩⟩, rfl⟩
          · rw [upTo, List.takeWhile_cons_of_neg (by simp [hstops]), hfind]
            rfl
          · intro y hy hyworks
            obtain rfl := Option.some.inj (hfind.symm.trans hy)
            rw [hworks] at hyworks
            cases hyworks
      | @next fd t' hstops hsame =>
          obtain ⟨⟨htried, hused, hended⟩, hfreed⟩ :=
            ih fd fun fd' => (hsame fd').trans (ht fd')
          have hfind : (x :: rest).find? stops = rest.find? stops :=
            List.find?_cons_of_neg (by simp [hstops])
          have hafter : afterLoop ((loop fd t' rest).after x.addr) freed =
              { afterLoop (loop fd t' rest) freed with
                tried := x.addr :: (afterLoop (loop fd t' rest) freed).tried } := by
            unfold afterLoop Run.after
            rcases (loop fd t' rest).left with ⟨_ | ⟨y, ys⟩, _, _⟩ | _ <;> rfl
          rw [hafter]
          refine ⟨⟨?_, ?_, ?_⟩, hfreed⟩
          · rw [upTo, List.takeWhile_cons_of_pos (by simp [hstops]), hfind]
            exact congrArg (x.addr :: ·) htried
          · rw [hfind]
            exact hused
          · rw [hfind]
            exact hended

end Loops

def connectStops (x : Entry Addrinfo) : Bool := x.socket && (x.connect || !x.close)

theorem connectEntries_turn (x : Entry Addrinfo) (rest : List (Entry Addrinfo)) (fd : Int)
    (t : Table (Socket Addrinfo)) :
    ∃ r, connectEntries fd t (x :: rest) = r.after x.addr ∧
      Turn connectStops id connectEntries x rest t r := by
  refine ⟨_, rfl, ?_⟩
  cases hsocket : x.socket with
  | false =>
      exact .next (by simp [connectStops, hsocket]) fun _ => rfl
  | true =>
      cases hconnect : x.connect with
      | true =>
          exact .works (by simp [connectStops, hsocket, hconnect])
            (by simp [Entry.works, hsocket, hconnect])
      | false =>
          cases hclose : x.close with
          | true =>
              exact .next (by simp [connectStops, hconnect, hclose])
                (object_close_newSocket t)
          | false =>
              exact .exits (by simp [connectStops, hsocket, hclose])
                (by simp [Entry.works, hconnect]) (object_close_newSocket t)

def mainStops (x : Entry (List Byte)) : Bool := !x.socket || x.connect

theorem connectAddrs_turn (s_port : List Byte) (x : Entry (List Byte))
    (rest : List (Entry (List Byte))) (fd : Int) (t : Table (Socket ServerAddr)) :
    ∃ r, connectAddrs s_port fd t (x :: rest) = r.after x.addr ∧
      Turn mainStops (ServerAddr.mk s_port) (connectAddrs s_port) x rest t r := by
  refine ⟨_, rfl, ?_⟩
  cases hsocket : x.socket with
  | false =>
      exact .exits (by simp [mainStops, hsocket]) (by simp [Entry.works, hsocket])
        fun _ => rfl
  | true =>
      cases hconnect : x.connect with
      | true =>
          exact .works (by simp [mainStops, hconnect])
            (by simp [Entry.works, hsocket, hconnect])
      | false =>
          exact .next (by simp [mainStops, hsocket, hconnect]) (object_close_newSocket t)

theorem daytimetcpcli1_connects {gethostbyname : Option (List (Entry (List Byte)))}
    {inet_aton : Option (Entry (List Byte))} {entries : List (Entry (List Byte))}
    (hlist : addrList gethostbyname inet_aton = some entries) (s_port : List Byte)
    (garbage : Int) (before : Table (Socket ServerAddr)) :
    Connects mainStops (ServerAddr.mk s_port) entries before
      (daytimetcpcli1 gethostbyname inet_aton (some s_port) garbage before) := by
  unfold daytimetcpcli1
  rw [hlist]
  exact (connects_of_turns (fun _ _ => rfl) (connectAddrs_turn s_port) entries [] garbage
    fun _ => rfl).1

/-- With a list of addresses, `tcp_connect` connects to the first that works and frees
the list, from its head and once, before it returns; `main` does so too, with the list
of `gethostbyname` or the address of `inet_aton`, but only as long as no `Socket`
fails. Without a list, or without a port, both end. -/
theorem connection_loops (garbage : Int) :
    (∀ before entries, let r := tcp_connect (some entries) garbage before
      Connects connectStops id entries before r ∧
        r.freed = if r.outcome = .exited then [] else [entries]) ∧
    (∀ before, tcp_connect none garbage before = ⟨.exited, before, [], []⟩) ∧
    (∀ entries inet_aton s_port before,
      Connects mainStops (ServerAddr.mk s_port) entries before
        (daytimetcpcli1 (some entries) inet_aton (some s_port) garbage before)) ∧
    (∀ entry s_port before,
      Connects mainStops (ServerAddr.mk s_port) [entry] before
        (daytimetcpcli1 none (some entry) (some s_port) garbage before)) ∧
    (∀ getservbyname before,
      daytimetcpcli1 none none getservbyname garbage before = ⟨.exited, before, [], []⟩) ∧
    ∀ gethostbyname inet_aton before,
      daytimetcpcli1 gethostbyname inet_aton none garbage before =
        ⟨.exited, before, [], []⟩ := by
  refine ⟨?_, fun _ => rfl, ?_, ?_, fun _ _ => rfl, ?_⟩
  · intro before entries
    exact connects_of_turns (fun _ _ => rfl) connectEntries_turn entries [entries] garbage
      fun _ => rfl
  · intro entries inet_aton s_port before
    exact daytimetcpcli1_connects rfl s_port garbage before
  · intro entry s_port before
    exact daytimetcpcli1_connects rfl s_port garbage before
  · intro gethostbyname inet_aton before
    unfold daytimetcpcli1
    cases addrList gethostbyname inet_aton <;> rfl

/-- `socket` fails for the first address; the second would have worked. -/
theorem socket_failure_ends_main :
    ¬ ∀ s_port entries before garbage,
      Connects Entry.works (ServerAddr.mk s_port) entries before
        (daytimetcpcli1 (some entries) none (some s_port) garbage before) := by
  intro hall
  obtain ⟨fd, hout, _⟩ := (hall [] [⟨[1], false, true, true⟩, ⟨[2], true, true, true⟩] [] 0).used
    ⟨[2], true, true, true⟩ rfl rfl
  cases hout

end MyUnp.TcpConnect
