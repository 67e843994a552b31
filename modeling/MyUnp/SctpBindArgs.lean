import MyUnp.MemoryBlock
import MyUnp.SocketAddress

namespace MyUnp.SctpBindArgs

open MyUnp.MemoryBlock MyUnp.SocketAddress MyUnp.Unp

/-- The part of `struct addrinfo` that is used: `ai_addr` with its `ai_addrlen`
bytes, no more than fit a `struct sockaddr_storage`. -/
structure Addrinfo where
  ai_addr : List Byte
  fits : ai_addr.length ≤ sizeof_sockaddr_storage

def Addrinfo.ai_addrlen (a : Addrinfo) : Nat := a.ai_addr.length

/-- The first entry of the list `getaddrinfo` makes for a name, or NULL where it
fails. -/
def host_serv (getaddrinfo : Option (List Addrinfo)) : Option Addrinfo :=
  match getaddrinfo with
  | none => none
  | some res => res.head?

/-- The buffer, the distance of `p` from its start, the count, and where in the
buffer each `memcpy` has written. -/
structure Packing where
  bindbuf : List Byte
  p : Nat
  addrcnt : Nat
  writes : List (Nat × Nat)

def Packing.start (argc : Nat) : Packing :=
  ⟨List.replicate (argc * sizeof_sockaddr_storage) 0, 0, 0, []⟩

def Packing.add (s : Packing) (addr : Addrinfo) : Packing where
  bindbuf := store s.bindbuf s.p addr.ai_addr
  p := s.p + addr.ai_addrlen
  addrcnt := s.addrcnt + 1
  writes := s.writes ++ [(s.p, addr.ai_addrlen)]

/-- The loop over the arguments, of which only the answer of `getaddrinfo`
matters. `none` stands for the `goto done` at a name that does not resolve. -/
def pack (s : Packing) : List (Option (List Addrinfo)) → Option Packing
  | [] => some s
  | name :: argv =>
      match host_serv name with
      | none => none
      | some addr => pack (s.add addr) argv

inductive Call
  | sctp_bindx (s : Packing)
  | free

structure Result where
  ret : Int
  allocated : Bool
  calls : List Call

def Result.frees (r : Result) : Nat :=
  r.calls.countP fun c => match c with
    | .free => true
    | .sctp_bindx _ => false

def Result.binds (r : Result) : List Packing :=
  r.calls.filterMap fun c => match c with
    | .free => none
    | .sctp_bindx s => some s

/-- `garbage` is what the variable `ret` holds before it is assigned. -/
def sctp_bind_arg_list (calloc : Bool) (argv : List (Option (List Addrinfo)))
    (sctp_bindx : Packing → Int) (garbage : Int) : Result :=
  if calloc then
    match pack (.start argv.length) argv with
    | none => ⟨garbage, true, [.free]⟩
    | some s => ⟨sctp_bindx s, true, [.sctp_bindx s, .free]⟩
  else ⟨-1, false, []⟩

def Resolves (name : Option (List Addrinfo)) : Prop := (host_serv name).isSome = true

theorem pack_isSome_iff (s : Packing) (argv : List (Option (List Addrinfo))) :
    (pack s argv).isSome = true ↔ ∀ name ∈ argv, Resolves name := by
  induction argv generalizing s with
  | nil => simp [pack]
  | cons name argv ih =>
      rw [List.forall_mem_cons, pack, Resolves]
      cases host_serv name with
      | none => simp
      | some addr =>
          rw [ih]
          simp

theorem pack_addrcnt {s t : Packing} {argv : List (Option (List Addrinfo))}
    (h : pack s argv = some t) : t.addrcnt = s.addrcnt + argv.length := by
  induction argv generalizing s with
  | nil =>
      obtain rfl : s = t := Option.some_inj.mp h
      rfl
  | cons name argv ih =>
      rw [pack] at h
      cases haddr : host_serv name with
      | none =>
          rw [haddr] at h
          cases h
      | some addr =>
          rw [haddr] at h
          have hcnt : t.addrcnt = s.addrcnt + 1 + argv.length := ih h
          rw [hcnt, List.length_cons]
          omega

/-- The result is non-negative exactly if every name resolved and one
`sctp_bindx` with all the addresses succeeded; no `sctp_bindx` and a negative
result if a name does not resolve; the buffer freed once. -/
structure Contract (calloc : Bool) (argv : List (Option (List Addrinfo)))
    (sctp_bindx : Packing → Int) (r : Result) : Prop where
  nonneg_iff : 0 ≤ r.ret ↔ (∀ name ∈ argv, Resolves name) ∧
    ∃ s, r.binds = [s] ∧ pack (.start argv.length) argv = some s ∧
      s.addrcnt = argv.length ∧ 0 ≤ sctp_bindx s
  unresolved : (∃ name ∈ argv, ¬ Resolves name) → r.ret < 0 ∧ r.binds = []
  allocated : r.allocated = calloc
  freed : r.frees = if calloc then 1 else 0

theorem sctp_bind_arg_list_contract_iff (calloc : Bool)
    (argv : List (Option (List Addrinfo))) (sctp_bindx : Packing → Int)
    (garbage : Int) :
    Contract calloc argv sctp_bindx
        (sctp_bind_arg_list calloc argv sctp_bindx garbage) ↔
      calloc = false ∨ (∀ name ∈ argv, Resolves name) ∨ garbage < 0 := by
  cases calloc with
  | false =>
      refine iff_of_true ?_ (Or.inl rfl)
      have hr : sctp_bind_arg_list false argv sctp_bindx garbage = ⟨-1, false, []⟩ := rfl
      rw [hr]
      refine ⟨iff_of_false (by decide) ?_, fun _ => ⟨by decide, rfl⟩, rfl, rfl⟩
      rintro ⟨_, s, hbinds, _⟩
      cases hbinds
  | true =>
      cases hpack : pack (.start argv.length) argv with
      | some s =>
          have hall : ∀ name ∈ argv, Resolves name := by
            rw [← pack_isSome_iff (.start argv.length), hpack]
            rfl
          refine iff_of_true ?_ (Or.inr (Or.inl hall))
          have hr : sctp_bind_arg_list true argv sctp_bindx garbage =
              ⟨sctp_bindx s, true, [.sctp_bindx s, .free]⟩ := by
            simp [sctp_bind_arg_list, hpack]
          have hcnt : s.addrcnt = argv.length := by
            rw [pack_addrcnt hpack, Packing.start, Nat.zero_add]
          rw [hr]
          refine ⟨⟨fun hret => ⟨hall, s, rfl, hpack, hcnt, hret⟩, ?_⟩, ?_, rfl, rfl⟩
          · rintro ⟨_, s', hs', _, _, hret⟩
            obtain rfl : s = s' := List.singleton_inj.mp hs'
            exact hret
          · rintro ⟨name, hname, hno⟩
            exact absurd (hall name hname) hno
      | none =>
          have hno : ¬ ∀ name ∈ argv, Resolves name := by
            rw [← pack_isSome_iff (.start argv.length), hpack]
            simp
          have hr : sctp_bind_arg_list true argv sctp_bindx garbage =
              ⟨garbage, true, [.free]⟩ := by
            simp [sctp_bind_arg_list, hpack]
          rw [hr]
          constructor
          · rintro ⟨_, hneg, _, _⟩
            simp only [not_forall] at hno
            obtain ⟨name, hname, hun⟩ := hno
            exact Or.inr (Or.inr (hneg ⟨name, hname, hun⟩).1)
          · rintro (hfalse | hall | hneg)
            · cases hfalse
            · exact absurd hall hno
            · refine ⟨iff_of_false (Int.not_le.mpr hneg) fun h => hno h.1,
                fun _ => ⟨hneg, rfl⟩, rfl, rfl⟩

/-- One argument that does not resolve, and 0 in the memory of `ret`: the caller
takes the socket to be bound. -/
theorem sctp_bind_arg_list_unresolved :
    ¬ Contract true [none] (fun _ => 0) (sctp_bind_arg_list true [none] (fun _ => 0) 0) := by
  intro h
  have hret := (h.unresolved ⟨none, List.mem_singleton_self _, by simp [Resolves, host_serv]⟩).1
  exact absurd hret (by decide)

end MyUnp.SctpBindArgs
