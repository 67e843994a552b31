import MyUnp.DescriptorTable
import MyUnp.Unp

namespace MyUnp.TcpListen

open MyUnp.DescriptorTable MyUnp.Unp

structure Addrinfo where
  ai_family : Int
  ai_socktype : Int
  ai_protocol : Int
  ai_addr : List Byte
  ai_addrlen : Nat
  deriving DecidableEq

inductive Socket
  | inherited
  | created (bound : Option Addrinfo) (listening : Bool)
  deriving DecidableEq

/-- An entry of the list and whether each call made for it succeeds. -/
structure Entry where
  ai : Addrinfo
  socket : Bool
  setsockopt : Bool
  bind : Bool
  close : Bool

inductive Outcome
  | returned (listenfd : Int) (addrlen : Option Nat)
  | exited
  | nullDereference
  deriving DecidableEq

structure Result where
  outcome : Outcome
  table : Table Socket
  listens : List (Int × Table Socket)

inductive Left
  | loop (res : Option Addrinfo) (listenfd : Int) (table : Table Socket)
  | exited (table : Table Socket)

def newSocket (t : Table Socket) : Nat × Table Socket := alloc (.created none false) t

theorem object_close_newSocket (t : Table Socket) (fd : Nat) :
    object (close (newSocket t).2 (newSocket t).1) fd = object t fd :=
  object_close_alloc _ t fd

theorem object_bind_newSocket (t : Table Socket) (ai : Addrinfo) (fd : Nat) :
    object (update (newSocket t).2 (newSocket t).1 (.created (some ai) false)) fd =
      if fd = (newSocket t).1 then some (.created (some ai) false) else object t fd := by
  unfold newSocket
  rw [object_update (object_alloc_self _ t), object_alloc]
  split_ifs <;> rfl

/-- `for ( ; res != NULL; res = res->ai_next)`. -/
def tryEntries (listenfd : Int) (t : Table Socket) : List Entry → Left
  | [] => .loop none listenfd t
  | x :: rest =>
      if x.socket then
        let fd := (newSocket t).1
        let t' := (newSocket t).2
        if x.setsockopt then
          if x.bind then .loop (some x.ai) fd (update t' fd (.created (some x.ai) false))
          -- a socket that cannot be bound is closed before the next entry
          else if x.close then tryEntries fd (close t' fd) rest
          else .exited (close t' fd)
        else .exited t'
      else tryEntries (-1) t rest

def objectOf (t : Table Socket) (fd : Int) : Option Socket :=
  if fd < 0 then none else object t fd.toNat

def setListening : Socket → Socket
  | .inherited => .inherited
  | .created bound _ => .created bound true

/-- `Listen`: `listen` fails on a descriptor that is not open, and may fail on
one that is. -/
def listen (listenOk : Bool) (fd : Int) (t : Table Socket) : Option (Table Socket) :=
  match objectOf t fd with
  | none => none
  | some s => if listenOk then some (update t fd.toNat (setListening s)) else none

/-- What follows the loop. `err_ret` prints its message and comes back, so the
end of the list makes no difference before `*addrlenp = res->ai_addrlen`. -/
def afterLoop (addrlenp listenOk : Bool) (res : Option Addrinfo) (listenfd : Int)
    (t : Table Socket) : Result :=
  match listen listenOk listenfd t with
  | none => ⟨.exited, t, [(listenfd, t)]⟩
  | some t' =>
      if addrlenp then
        match res with
        | some ai => ⟨.returned listenfd (some ai.ai_addrlen), t', [(listenfd, t)]⟩
        | none => ⟨.nullDereference, t', [(listenfd, t)]⟩
      else ⟨.returned listenfd none, t', [(listenfd, t)]⟩

def inheritedTable (before : List Bool) : Table Socket :=
  before.map fun b => if b then some .inherited else none

/-- `getaddrinfo` gives `none` where it fails; `garbage` is what the variable
`listenfd` holds before it is first assigned. -/
def tcp_listen (getaddrinfo : Option (List Entry)) (addrlenp listenOk : Bool)
    (garbage : Int) (before : List Bool) : Result :=
  match getaddrinfo with
  | none => ⟨.exited, inheritedTable before, []⟩
  | some entries =>
      match tryEntries garbage (inheritedTable before) entries with
      | .exited t => ⟨.exited, t, []⟩
      | .loop res listenfd t => afterLoop addrlenp listenOk res listenfd t

def Entry.usable (x : Entry) : Bool := x.socket && x.bind

def Entry.fatal (x : Entry) : Bool :=
  x.socket && (!x.setsockopt || (!x.bind && !x.close))

def Entry.stops (x : Entry) : Bool := x.usable || x.fatal

theorem Entry.stops_of_socket_false {x : Entry} (h : x.socket = false) :
    x.stops = false := by
  simp [stops, usable, fatal, h]

theorem Entry.stops_of_socket {x : Entry} (h : x.socket = true) :
    x.stops = (!x.setsockopt || x.bind || !x.close) := by
  unfold stops usable fatal
  rw [h]
  cases x.setsockopt <;> cases x.bind <;> simp

section Loop

variable {t₀ t : Table Socket} {entries : List Entry}

theorem tryEntries_cons (x : Entry) (rest : List Entry) (listenfd : Int)
    (t : Table Socket) :
    (x.stops = false ∧ ∃ fd t', tryEntries listenfd t (x :: rest) = tryEntries fd t' rest ∧
      ∀ fd', object t' fd' = object t fd') ∨
    (x.fatal = false ∧ x.usable = true ∧ tryEntries listenfd t (x :: rest) =
      .loop (some x.ai) (newSocket t).1
        (update (newSocket t).2 (newSocket t).1 (.created (some x.ai) false))) ∨
    (x.fatal = true ∧ ∃ t', tryEntries listenfd t (x :: rest) = .exited t') := by
  cases hsocket : x.socket with
  | false =>
      refine .inl ⟨Entry.stops_of_socket_false hsocket, -1, t, ?_, fun _ => rfl⟩
      rw [tryEntries, hsocket]
      rfl
  | true =>
      cases hopt : x.setsockopt with
      | false =>
          refine .inr (.inr ⟨by simp [Entry.fatal, hsocket, hopt], (newSocket t).2, ?_⟩)
          simp [tryEntries, hsocket, hopt]
      | true =>
          cases hbind : x.bind with
          | true =>
              refine .inr (.inl ⟨by simp [Entry.fatal, hopt, hbind],
                by simp [Entry.usable, hsocket, hbind], ?_⟩)
              simp [tryEntries, hsocket, hopt, hbind]
          | false =>
              cases hclose : x.close with
              | false =>
                  refine .inr (.inr ⟨by simp [Entry.fatal, hsocket, hbind, hclose],
                    close (newSocket t).2 (newSocket t).1, ?_⟩)
                  simp [tryEntries, hsocket, hopt, hbind, hclose]
              | true =>
                  refine .inl ⟨by simp [Entry.stops_of_socket hsocket, hopt, hbind, hclose],
                    (newSocket t).1, close (newSocket t).2 (newSocket t).1, ?_,
                    object_close_newSocket t⟩
                  simp [tryEntries, hsocket, hopt, hbind, hclose]

theorem Entry.stops_of_usable {x : Entry} (h : x.usable = true) : x.stops = true := by
  rw [stops, h, Bool.true_or]

theorem Entry.stops_of_fatal {x : Entry} (h : x.fatal = true) : x.stops = true := by
  rw [stops, h, Bool.or_true]

theorem tryEntries_of_none (ht : ∀ fd, object t fd = object t₀ fd)
    (h : ∀ x ∈ entries, x.stops = false) (listenfd : Int) :
    ∃ fd t', tryEntries listenfd t entries = .loop none fd t' ∧
      ∀ fd', object t' fd' = object t₀ fd' := by
  induction entries generalizing listenfd t with
  | nil => exact ⟨listenfd, t, rfl, ht⟩
  | cons x rest ih =>
      rw [List.forall_mem_cons] at h
      obtain ⟨hx, hrest⟩ := h
      rcases tryEntries_cons x rest listenfd t with
        ⟨-, fd, t', heq, hsame⟩ | ⟨-, husable, -⟩ | ⟨hfatal, -⟩
      · rw [heq]
        exact ih (fun fd' => (hsame fd').trans (ht fd')) hrest fd
      · rw [Entry.stops_of_usable husable] at hx
        cases hx
      · rw [Entry.stops_of_fatal hfatal] at hx
        cases hx

/-- The loop is left at the first entry that stops it: by `break`, with a new
descriptor bound to the entry, or by a wrapper. -/
theorem tryEntries_of_stops (ht : ∀ fd, object t fd = object t₀ fd) {x : Entry}
    (h : entries.find? Entry.stops = some x) (listenfd : Int) :
    (x.fatal = false ∧ x.usable = true ∧
      ∃ (fd : Nat) (t' : Table Socket),
        tryEntries listenfd t entries = .loop (some x.ai) fd t' ∧
        object t₀ fd = none ∧
        ∀ fd', object t' fd' = if fd' = fd then some (.created (some x.ai) false)
          else object t₀ fd') ∨
    (x.fatal = true ∧ ∃ t', tryEntries listenfd t entries = .exited t') := by
  induction entries generalizing listenfd t with
  | nil => exact absurd h (by simp)
  | cons y rest ih =>
      rcases tryEntries_cons y rest listenfd t with
        ⟨hgo, fd, t', heq, hsame⟩ | ⟨hfatal, husable, heq⟩ | ⟨hfatal, t', heq⟩
      · rw [List.find?_cons_of_neg (by simp [hgo])] at h
        rw [heq]
        exact ih (fun fd' => (hsame fd').trans (ht fd')) h fd
      · rw [List.find?_cons_of_pos (Entry.stops_of_usable husable), Option.some_inj] at h
        subst h
        refine .inl ⟨hfatal, husable, _, _, heq, ?_, ?_⟩
        · rw [← ht]
          exact object_alloc_fst _ t
        · intro fd
          rw [object_bind_newSocket, ht]
      · rw [List.find?_cons_of_pos (Entry.stops_of_fatal hfatal), Option.some_inj] at h
        subst h
        exact .inr ⟨hfatal, t', heq⟩

end Loop

theorem object_inheritedTable (before : List Bool) (fd : Nat) :
    object (inheritedTable before) fd = none ∨
      object (inheritedTable before) fd = some .inherited := by
  unfold object inheritedTable
  rw [List.getElem?_map]
  rcases before[fd]? with _ | _ | _ <;> simp

/-- `fd` is the only new descriptor, bound to the entry and listening, and the
length of its address is stored if a place for it was given. -/
def Listens (before : List Bool) (addrlenp : Bool) (ai : Addrinfo) (r : Result) : Prop :=
  ∃ fd : Nat,
    r.outcome = .returned fd (if addrlenp then some ai.ai_addrlen else none) ∧
    object (inheritedTable before) fd = none ∧
    ∀ fd', object r.table fd' = if fd' = fd then some (.created (some ai) true)
      else object (inheritedTable before) fd'

/-- No entry succeeds, or the process is ended by an error of `Setsockopt` or
`Close` before one does, or by one of `Listen`. -/
def NoSocket (getaddrinfo : Option (List Entry)) (listenOk : Bool) : Prop :=
  ∀ entries, getaddrinfo = some entries →
    entries.find? Entry.usable = none ∨
    (∃ x, entries.find? Entry.stops = some x ∧ x.fatal = true) ∨
    listenOk = false

def ListensOnOpen (r : Result) : Prop :=
  ∀ c ∈ r.listens, ∃ bound listening,
    objectOf c.2 c.1 = some (.created bound listening)

def Contract (getaddrinfo : Option (List Entry)) (addrlenp listenOk : Bool)
    (garbage : Int) (before : List Bool) : Prop :=
  let r := tcp_listen getaddrinfo addrlenp listenOk garbage before
  ((∃ entries x, getaddrinfo = some entries ∧
      entries.find? Entry.usable = some x ∧ Listens before addrlenp x.ai r) ∨
    (r.outcome = .exited ∧ NoSocket getaddrinfo listenOk)) ∧
  ListensOnOpen r ∧ r.outcome ≠ .nullDereference

theorem afterLoop_listens (addrlenp listenOk : Bool) (res : Option Addrinfo)
    (listenfd : Int) (t : Table Socket) :
    (afterLoop addrlenp listenOk res listenfd t).listens = [(listenfd, t)] := by
  unfold afterLoop
  cases listen listenOk listenfd t with
  | none => rfl
  | some t' => cases addrlenp <;> cases res <;> rfl

theorem find_usable_of_find_stops {entries : List Entry} {x : Entry}
    (h : entries.find? Entry.stops = some x) (hx : x.usable = true) :
    entries.find? Entry.usable = some x := by
  obtain ⟨_, front, back, rfl, hfront⟩ := List.find?_eq_some_iff_append.mp h
  refine List.find?_eq_some_iff_append.mpr ⟨hx, front, back, rfl, ?_⟩
  intro y hy
  have hstops := hfront y hy
  rw [Bool.not_eq_true', Entry.stops, Bool.or_eq_false_iff] at hstops
  simpa using hstops.1

section Contract

variable {entries : List Entry} {addrlenp listenOk : Bool} {garbage : Int}
  {before : List Bool}

theorem contract_of_usable {x : Entry} {fd : Nat} {t : Table Socket}
    (hfind : entries.find? Entry.usable = some x)
    (hloop : tryEntries garbage (inheritedTable before) entries =
      .loop (some x.ai) fd t)
    (hnew : object (inheritedTable before) fd = none)
    (ht : ∀ fd', object t fd' = if fd' = fd then some (.created (some x.ai) false)
      else object (inheritedTable before) fd') :
    Contract (some entries) addrlenp listenOk garbage before := by
  have hfd : objectOf t fd = some (.created (some x.ai) false) := by
    rw [objectOf, if_neg (by omega), Int.toNat_natCast, ht, if_pos rfl]
  have hr : tcp_listen (some entries) addrlenp listenOk garbage before =
      afterLoop addrlenp listenOk (some x.ai) fd t := by
    rw [tcp_listen, hloop]
  have hopen : ListensOnOpen (afterLoop addrlenp listenOk (some x.ai) fd t) := by
    intro c hc
    rw [afterLoop_listens, List.mem_singleton] at hc
    subst hc
    exact ⟨some x.ai, false, hfd⟩
  unfold Contract
  rw [hr]
  cases listenOk with
  | false =>
      have hout : (afterLoop addrlenp false (some x.ai) fd t).outcome = .exited := by
        simp [afterLoop, listen, hfd]
      refine ⟨Or.inr ⟨hout, fun _ _ => Or.inr (Or.inr rfl)⟩, hopen, ?_⟩
      rw [hout]
      exact Outcome.noConfusion
  | true =>
      have hafter : afterLoop addrlenp true (some x.ai) fd t =
          ⟨.returned fd (if addrlenp then some x.ai.ai_addrlen else none),
            update t fd (.created (some x.ai) true), [((fd : Int), t)]⟩ := by
        cases addrlenp <;> simp [afterLoop, listen, hfd, setListening]
      rw [hafter] at hopen ⊢
      refine ⟨Or.inl ⟨entries, x, rfl, hfind, fd, rfl, hnew, ?_⟩, hopen,
        Outcome.noConfusion⟩
      intro fd'
      have hobj : object t fd = some (.created (some x.ai) false) := by
        rw [ht, if_pos rfl]
      rw [object_update hobj, ht]
      split_ifs <;> rfl

theorem contract_of_fatal {x : Entry} {t : Table Socket}
    (hfind : entries.find? Entry.stops = some x) (hx : x.fatal = true)
    (hloop : tryEntries garbage (inheritedTable before) entries = .exited t) :
    Contract (some entries) addrlenp listenOk garbage before := by
  have hr : tcp_listen (some entries) addrlenp listenOk garbage before =
      ⟨.exited, t, []⟩ := by
    rw [tcp_listen, hloop]
  unfold Contract
  rw [hr]
  refine ⟨Or.inr ⟨rfl, ?_⟩, List.forall_mem_nil _, Outcome.noConfusion⟩
  rintro _ ⟨⟩
  exact Or.inr (Or.inl ⟨x, hfind, hx⟩)

/-- When the list runs out, `Listen` is called on what is no open socket of
this call: a descriptor just closed, -1, or what `listenfd` happened to hold. -/
theorem not_contract_of_none (h : ∀ x ∈ entries, x.stops = false) :
    ¬ Contract (some entries) addrlenp listenOk garbage before := by
  obtain ⟨fd, t, hloop, ht⟩ := tryEntries_of_none
    (fun fd => rfl) h garbage (t := inheritedTable before)
  have hr : tcp_listen (some entries) addrlenp listenOk garbage before =
      afterLoop addrlenp listenOk none fd t := by
    rw [tcp_listen, hloop]
  rintro ⟨_, hopen, _⟩
  rw [hr, ListensOnOpen, afterLoop_listens] at hopen
  obtain ⟨bound, listening, hobj⟩ := hopen (fd, t) (List.mem_singleton_self _)
  have hobj : object t fd.toNat = some (.created bound listening) :=
    (Option.ite_none_left_eq_some.mp hobj).2
  rw [ht] at hobj
  rcases object_inheritedTable before fd.toNat with hnone | hsome
  · rw [hnone] at hobj
    cases hobj
  · rw [hsome] at hobj
    cases hobj

end Contract

theorem tcp_listen_contract_iff (getaddrinfo : Option (List Entry))
    (addrlenp listenOk : Bool) (garbage : Int) (before : List Bool) :
    Contract getaddrinfo addrlenp listenOk garbage before ↔
      ∀ entries, getaddrinfo = some entries → ∃ x ∈ entries, x.stops = true := by
  constructor
  · rintro h entries rfl
    by_contra hnone
    refine not_contract_of_none ?_ h
    intro x hx
    cases hstops : x.stops with
    | false => rfl
    | true => exact absurd ⟨x, hx, hstops⟩ hnone
  · intro h
    cases getaddrinfo with
    | none =>
        refine ⟨Or.inr ⟨rfl, ?_⟩, List.forall_mem_nil _, Outcome.noConfusion⟩
        rintro _ ⟨⟩
    | some entries =>
        obtain ⟨x, hx, hstops⟩ := h entries rfl
        obtain ⟨y, hy⟩ := Option.isSome_iff_exists.mp
          (List.find?_isSome.mpr ⟨x, hx, hstops⟩)
        rcases tryEntries_of_stops (fun fd => rfl) hy garbage
          (t := inheritedTable before) with ⟨_, husable, fd, t, hloop, hnew, ht⟩ | ⟨hfatal, t, hloop⟩
        · exact contract_of_usable (find_usable_of_find_stops hy husable) hloop hnew ht
        · exact contract_of_fatal hy hfatal hloop

/-- A port that is taken: the only `bind` fails, and `Listen` is then called on
the descriptor that was just closed. -/
theorem tcp_listen_address_in_use :
    ¬ Contract (some [⟨⟨2, 1, 6, [], 16⟩, true, true, false, true⟩]) true true 0
      [true, true, true] :=
  not_contract_of_none (by decide)

end MyUnp.TcpListen
