import Mathlib.Algebra.BigOperators.Fin
import MyUnp.DescriptorTable
import MyUnp.TransitionSystem

/-!
Which process of a server that forks a child for each client holds which
descriptors: the accept loops of `tcpsrv04.c` and of the server of Chapter 30,
Paradigm 1, which are the same but for what the child does with its connection
and what the parent prints.
-/

namespace MyUnp.ForkDescriptors

open MyUnp.DescriptorTable MyUnp.TransitionSystem

inductive Object
  | listening
  | connection (id : Nat)
  | other
  deriving DecidableEq

/-- Before `accept`, before `Fork`, before `Close(connfd)`, or gone. The number is
that of the connection in hand, for a parent that is gone one that it had not
handed to a child. -/
inductive ParentStage
  | accept
  | fork (id : Nat)
  | close (id : Nat)
  | ended (lost : Option Nat)
  deriving DecidableEq

/-- Before `Close(listenfd)`, serving the client, or gone. -/
inductive ChildStage
  | forked
  | serving
  | exited
  deriving DecidableEq

structure Parent where
  stage : ParentStage
  connfd : Nat
  table : Table Object
  deriving DecidableEq

structure Child where
  id : Nat
  stage : ChildStage
  connfd : Nat
  table : Table Object
  deriving DecidableEq

structure State where
  listenfd : Nat
  parent : Parent
  children : List Child
  accepted : Nat
  deriving DecidableEq

inductive Accept
  | connection
  | eintr
  | error
  deriving DecidableEq

/-- Steps of the parent, its end by `SIGINT`, and steps of child `i`, which may
exit at any point. -/
inductive Act
  | accept (result : Accept)
  | fork (ok : Bool)
  | close
  | sigint
  | closeListen (i : Nat)
  | exit (i : Nat)
  deriving DecidableEq

def Parent.exit (p : Parent) (lost : Option Nat) : Parent :=
  { p with stage := .ended lost, table := [] }

def Child.exit (c : Child) : Child := { c with stage := .exited, table := [] }

def Child.closeListen (c : Child) (listenfd : Nat) : Child :=
  { c with stage := .serving, table := DescriptorTable.close c.table listenfd }

def Parent.accepted (p : Parent) (id : Nat) : Parent where
  stage := .fork id
  connfd := (alloc (.connection id) p.table).1
  table := (alloc (.connection id) p.table).2

def Parent.close (p : Parent) : Parent :=
  { p with stage := .accept, table := DescriptorTable.close p.table p.connfd }

def inHand : ParentStage → Option Nat
  | .fork id => some id
  | .ended lost => lost
  | _ => none

def ParentStage.running : ParentStage → Bool
  | .ended _ => false
  | _ => true

def State.setChild (s : State) (i : Nat) (c : Child) : State :=
  { s with children := s.children.set i c }

def State.step (s : State) : Act → Option State
  | .accept result =>
      if s.parent.stage = .accept then
        match result with
        | .connection =>
            some { s with
              parent := s.parent.accepted s.accepted
              accepted := s.accepted + 1 }
        | .eintr => some s
        | .error => some { s with parent := s.parent.exit none }
      else none
  | .fork ok =>
      match s.parent.stage with
      | .fork id =>
          if ok then
            some { s with
              parent := { s.parent with stage := .close id }
              children := s.children ++ [⟨id, .forked, s.parent.connfd, s.parent.table⟩] }
          else some { s with parent := s.parent.exit (some id) }
      | _ => none
  | .close =>
      match s.parent.stage with
      | .close _ => some { s with parent := s.parent.close }
      | _ => none
  | .sigint =>
      if s.parent.stage.running then
        some { s with parent := s.parent.exit (inHand s.parent.stage) }
      else none
  | .closeListen i =>
      match s.children[i]? with
      | none => none
      | some c =>
          if c.stage = .forked then some (s.setChild i (c.closeListen s.listenfd)) else none
  | .exit i =>
      match s.children[i]? with
      | none => none
      | some c => if c.stage = .exited then none else some (s.setChild i c.exit)

structure State.IsStart (s : State) : Prop where
  stage : s.parent.stage = .accept
  listen : object s.parent.table s.listenfd = some .listening
  one : refs s.parent.table .listening = 1
  none : ∀ id, refs s.parent.table (.connection id) = 0
  children : s.children = []
  accepted : s.accepted = 0

def system : System State Act where
  init := State.IsStart
  step := State.step

inductive Move (s : State) : Act → State → Prop
  | connection (hstage : s.parent.stage = .accept) :
      Move s (.accept .connection)
        { s with parent := s.parent.accepted s.accepted, accepted := s.accepted + 1 }
  | eintr (hstage : s.parent.stage = .accept) : Move s (.accept .eintr) s
  | error (hstage : s.parent.stage = .accept) :
      Move s (.accept .error) { s with parent := s.parent.exit none }
  | fork {id : Nat} (hstage : s.parent.stage = .fork id) :
      Move s (.fork true) { s with
        parent := { s.parent with stage := .close id }
        children := s.children ++ [⟨id, .forked, s.parent.connfd, s.parent.table⟩] }
  | forkFails {id : Nat} (hstage : s.parent.stage = .fork id) :
      Move s (.fork false) { s with parent := s.parent.exit (some id) }
  | close {id : Nat} (hstage : s.parent.stage = .close id) :
      Move s .close { s with parent := s.parent.close }
  | sigint (hstage : s.parent.stage.running = true) :
      Move s .sigint { s with parent := s.parent.exit (inHand s.parent.stage) }
  | closeListen {i : Nat} {c : Child} (hc : s.children[i]? = some c)
      (hstage : c.stage = .forked) :
      Move s (.closeListen i) (s.setChild i (c.closeListen s.listenfd))
  | exit {i : Nat} {c : Child} (hc : s.children[i]? = some c) (hstage : c.stage ≠ .exited) :
      Move s (.exit i) (s.setChild i c.exit)

theorem step_move {s t : State} {l : Act} (h : system.step s l = some t) : Move s l t := by
  change s.step l = some t at h
  cases l with
  | accept result =>
      cases result with
      | connection =>
          obtain ⟨hstage, rfl⟩ := guard_eq_some.mp h
          exact .connection hstage
      | eintr =>
          obtain ⟨hstage, rfl⟩ := guard_eq_some.mp h
          exact .eintr hstage
      | error =>
          obtain ⟨hstage, rfl⟩ := guard_eq_some.mp h
          exact .error hstage
  | fork ok =>
      rw [State.step] at h
      split at h
      · rename_i hstage
        cases ok with
        | true =>
            obtain rfl := Option.some.inj h
            exact .fork hstage
        | false =>
            obtain rfl := Option.some.inj h
            exact .forkFails hstage
      · cases h
  | close =>
      rw [State.step] at h
      split at h
      · rename_i hstage
        obtain rfl := Option.some.inj h
        exact .close hstage
      · cases h
  | sigint =>
      obtain ⟨hstage, rfl⟩ := guard_eq_some.mp h
      exact .sigint hstage
  | closeListen i =>
      rw [State.step] at h
      split at h
      · cases h
      · rename_i c hc
        obtain ⟨hstage, rfl⟩ := guard_eq_some.mp h
        exact .closeListen hc hstage
  | exit i =>
      rw [State.step] at h
      split at h
      · cases h
      · rename_i c hc
        rw [Option.ite_none_left_eq_some] at h
        obtain ⟨hstage, h⟩ := h
        obtain rfl := Option.some.inj h
        exact .exit hc hstage

/-- What a process holds besides what the server inherited: the listening socket
or not, under `listenfd`, and one connection or none, under `connfd`. -/
structure Holds (listenfd connfd : Nat) (t : Table Object) (listen : Prop)
    (conn : Option Nat) : Prop where
  listening : refs t .listening = 1 ∧ listen ∨ refs t .listening = 0 ∧ ¬ listen
  connections : ∀ id, refs t (.connection id) = if conn = some id then 1 else 0
  listenfd : listen → object t listenfd = some .listening
  connfd : ∀ id, conn = some id → object t connfd = some (.connection id)

section Holds

variable {listenfd connfd : Nat} {t : Table Object} {listen : Prop} {conn : Option Nat}

theorem Holds.congr {listen' : Prop} {conn' : Option Nat}
    (h : Holds listenfd connfd t listen conn) (hlisten : listen ↔ listen')
    (hconn : conn = conn') : Holds listenfd connfd t listen' conn' := by
  subst hconn
  rwa [propext hlisten] at h

theorem Holds.exit (h : ¬ listen) : Holds listenfd connfd [] listen none :=
  ⟨.inr ⟨rfl, h⟩, fun _ => rfl, fun hl => absurd hl h, fun _ hid => by cases hid⟩

theorem Holds.accept (h : Holds listenfd connfd t listen none) (id : Nat) :
    Holds listenfd (alloc (.connection id) t).1 (alloc (.connection id) t).2 listen
      (some id) := by
  refine ⟨?_, ?_, ?_, ?_⟩
  · rw [refs_alloc, if_neg (by simp), Nat.add_zero]
    exact h.listening
  · intro j
    rw [refs_alloc, h.connections, if_neg (by simp), Nat.zero_add]
    simp
  · intro hl
    have hobj := h.listenfd hl
    rw [object_alloc, if_neg, hobj]
    intro heq
    rw [heq, object_alloc_fst] at hobj
    cases hobj
  · rintro j ⟨⟩
    exact object_alloc_self _ _

theorem Holds.closeConn {id : Nat} (h : Holds listenfd connfd t listen (some id)) :
    Holds listenfd connfd (DescriptorTable.close t connfd) listen none := by
  have hobj := h.connfd id rfl
  refine ⟨?_, ?_, ?_, fun _ hid => by cases hid⟩
  · have hrefs := refs_close hobj .listening
    rw [if_neg (by simp), Nat.add_zero] at hrefs
    rw [hrefs]
    exact h.listening
  · intro j
    have hrefs := refs_close hobj (.connection j)
    rw [h.connections] at hrefs
    simp only [Object.connection.injEq, Option.some.injEq] at hrefs
    rw [if_neg (by simp)]
    split_ifs at hrefs <;> omega
  · intro hl
    rw [object_close, if_neg, h.listenfd hl]
    rintro rfl
    rw [h.listenfd hl] at hobj
    cases hobj

theorem Holds.closeListen (h : Holds listenfd connfd t True conn) :
    Holds listenfd connfd (DescriptorTable.close t listenfd) False conn := by
  have hobj := h.listenfd trivial
  refine ⟨.inr ⟨?_, id⟩, ?_, False.elim, ?_⟩
  · have hrefs := refs_close hobj .listening
    rw [if_pos rfl] at hrefs
    rcases h.listening with ⟨hone, _⟩ | ⟨_, hno⟩
    · omega
    · exact absurd trivial hno
  · intro j
    have hrefs := refs_close hobj (.connection j)
    rw [if_neg (by simp), Nat.add_zero] at hrefs
    rw [hrefs, h.connections]
  · intro j hj
    rw [object_close, if_neg, h.connfd j hj]
    rintro rfl
    rw [h.connfd j hj] at hobj
    cases hobj

end Holds

def ParentStage.holds : ParentStage → Option Nat
  | .fork id => some id
  | .close id => some id
  | _ => none

def Child.holds (c : Child) : Option Nat :=
  match c.stage with
  | .exited => none
  | _ => some c.id

def ParentOk (listenfd : Nat) (p : Parent) : Prop :=
  Holds listenfd p.connfd p.table (p.stage.running = true) p.stage.holds

def ChildOk (listenfd : Nat) (c : Child) : Prop :=
  Holds listenfd c.connfd c.table (c.stage = .forked) c.holds

structure Inv (s : State) : Prop where
  parent : ParentOk s.listenfd s.parent
  child : ∀ c ∈ s.children, ChildOk s.listenfd c
  ids : s.children.map Child.id = List.range s.children.length
  accepted : s.accepted = s.children.length + (inHand s.parent.stage).toList.length
  next : ∀ id, inHand s.parent.stage = some id → id = s.children.length

section Steps

variable {s : State}

theorem Inv.parentStep (h : Inv s) {p : Parent} (hp : ParentOk s.listenfd p)
    (hhand : inHand p.stage = inHand s.parent.stage) :
    Inv { s with parent := p } :=
  ⟨hp, h.child, h.ids, by
    change s.accepted = _
    rw [hhand]
    exact h.accepted, fun id hid => h.next id (hhand ▸ hid)⟩

theorem parentOk_exit (listenfd : Nat) (p : Parent) (lost : Option Nat) :
    ParentOk listenfd (p.exit lost) :=
  Holds.exit Bool.false_ne_true

theorem map_id_set {children : List Child} {i : Nat} {c c' : Child}
    (hc : children[i]? = some c) (hid : c'.id = c.id) :
    (children.set i c').map Child.id = children.map Child.id := by
  obtain ⟨hi, rfl⟩ := List.getElem?_eq_some_iff.mp hc
  rw [List.map_set, hid]
  have hself := List.set_getElem_self ((List.length_map Child.id).symm ▸ hi :
    i < (children.map Child.id).length)
  rwa [List.getElem_map] at hself

theorem Inv.childStep (h : Inv s) {i : Nat} {c c' : Child}
    (hc : s.children[i]? = some c) (hid : c'.id = c.id) (hok : ChildOk s.listenfd c') :
    Inv (s.setChild i c') := by
  have hlen : (s.setChild i c').children.length = s.children.length := List.length_set
  refine ⟨h.parent, ?_, ?_, ?_, ?_⟩
  · intro d hd
    rcases List.mem_or_eq_of_mem_set hd with hold | rfl
    · exact h.child d hold
    · exact hok
  · rw [hlen, ← h.ids]
    exact map_id_set hc hid
  · rw [hlen]
    exact h.accepted
  · rw [hlen]
    exact h.next

theorem Inv.connection (h : Inv s) (hstage : s.parent.stage = .accept) :
    Inv { s with parent := s.parent.accepted s.accepted, accepted := s.accepted + 1 } := by
  have hparent := h.parent
  rw [ParentOk, hstage] at hparent
  have hnone : s.accepted = s.children.length := by
    rw [h.accepted, hstage]
    rfl
  refine ⟨hparent.accept s.accepted, h.child, h.ids, ?_, ?_⟩
  · change s.accepted + 1 = s.children.length + 1
    rw [hnone]
  · rintro id ⟨⟩
    exact hnone

theorem Inv.fork (h : Inv s) {id : Nat} (hstage : s.parent.stage = .fork id) :
    Inv { s with
      parent := { s.parent with stage := .close id }
      children := s.children ++ [⟨id, .forked, s.parent.connfd, s.parent.table⟩] } := by
  have hparent := h.parent
  rw [ParentOk, hstage] at hparent
  have hid : id = s.children.length := h.next id (by rw [hstage]; rfl)
  refine ⟨hparent, ?_, ?_, ?_, fun _ hx => by cases hx⟩
  · intro c hc
    rcases List.mem_append.mp hc with hold | hnew
    · exact h.child c hold
    · obtain rfl := List.mem_singleton.mp hnew
      exact hparent.congr (iff_of_true rfl rfl) rfl
  · rw [List.map_append, h.ids, List.length_append, List.length_singleton, List.range_succ,
      List.map_singleton, hid]
  · have haccepted := h.accepted
    rw [hstage] at haccepted
    rw [List.length_append]
    exact haccepted

end Steps

theorem reachable_inv {s : State} (h : system.Reachable s) : Inv s := by
  refine h.invariant (P := Inv) ?_ ?_
  · rintro s ⟨hstage, hlisten, hone, hnone, hchildren, haccepted⟩
    refine ⟨?_, ?_, ?_, ?_, ?_⟩
    · rw [ParentOk, hstage]
      exact ⟨.inl ⟨hone, rfl⟩, fun id => hnone id, fun _ => hlisten, fun _ hid => by cases hid⟩
    · rw [hchildren]
      exact List.forall_mem_nil _
    · rw [hchildren]
      rfl
    · rw [haccepted, hchildren, hstage]
      rfl
    · rw [hstage]
      rintro id ⟨⟩
  · intro s l t _ hs hstep
    cases step_move hstep with
    | connection hstage => exact hs.connection hstage
    | eintr hstage => exact hs
    | error hstage => exact hs.parentStep (parentOk_exit _ _ _) (by rw [hstage]; rfl)
    | fork hstage => exact hs.fork hstage
    | forkFails hstage => exact hs.parentStep (parentOk_exit _ _ _) (by rw [hstage]; rfl)
    | close hstage =>
        have hparent := hs.parent
        rw [ParentOk, hstage] at hparent
        exact hs.parentStep hparent.closeConn (by rw [hstage]; rfl)
    | sigint hstage => exact hs.parentStep (parentOk_exit _ _ _) rfl
    | @closeListen i c hc hstage =>
        have hchild := hs.child c (List.mem_of_getElem? hc)
        have hforked : Holds s.listenfd c.connfd c.table True (some c.id) :=
          hchild.congr (iff_of_true hstage trivial) (by rw [Child.holds, hstage])
        exact hs.childStep hc rfl
          (hforked.closeListen.congr (iff_of_false id (by simp [Child.closeListen])) rfl)
    | exit hc hstage =>
        exact hs.childStep hc rfl (Holds.exit (by simp [Child.exit]))

def references (s : State) (id : Nat) : Nat :=
  refs s.parent.table (.connection id) +
    (s.children.map fun c => refs c.table (.connection id)).sum

theorem sum_map_of_nodup {children : List Child} (hnodup : (children.map Child.id).Nodup)
    {c : Child} (hc : c ∈ children) (f : Child → Nat)
    (hf : ∀ d ∈ children, d.id ≠ c.id → f d = 0) : (children.map f).sum = f c := by
  induction children with
  | nil => cases hc
  | cons d children ih =>
      rw [List.map_cons, List.nodup_cons] at hnodup
      rw [List.map_cons, List.sum_cons]
      have hzero : ∀ e ∈ children, e.id = d.id → False := by
        intro e he heq
        exact hnodup.1 (heq ▸ List.mem_map_of_mem he)
      rcases List.mem_cons.mp hc with rfl | hc
      · have hrest : (children.map f).sum = 0 := by
          apply List.sum_eq_zero
          intro x hx
          obtain ⟨e, he, rfl⟩ := List.mem_map.mp hx
          exact hf e (List.mem_cons_of_mem _ he) fun heq => hzero e he heq
        rw [hrest, Nat.add_zero]
      · have hd : f d = 0 :=
          hf d List.mem_cons_self fun heq => hzero c hc heq.symm
        rw [hd, Nat.zero_add]
        exact ih hnodup.2 hc fun e he => hf e (List.mem_cons_of_mem _ he)

theorem Inv.refs_child {s : State} (h : Inv s) {c : Child} (hc : c ∈ s.children) (id : Nat) :
    refs c.table (.connection id) = if c.stage ≠ .exited ∧ c.id = id then 1 else 0 := by
  rw [(h.child c hc).connections, Child.holds]
  cases c.stage <;> simp

theorem Inv.nodup {s : State} (h : Inv s) : (s.children.map Child.id).Nodup := by
  rw [h.ids]
  exact List.nodup_range

theorem Inv.references_eq {s : State} (h : Inv s) {c : Child} (hc : c ∈ s.children) :
    references s c.id =
      (if s.parent.stage = .close c.id then 1 else 0) + if c.stage = .exited then 0 else 1 := by
  have hparent : refs s.parent.table (.connection c.id) =
      if s.parent.stage = .close c.id then 1 else 0 := by
    rw [h.parent.connections]
    cases hstage : s.parent.stage with
    | fork id =>
        have hid := h.next id (by rw [hstage]; rfl)
        have hlt : c.id < s.children.length := by
          rw [← List.mem_range, ← h.ids]
          exact List.mem_map_of_mem hc
        rw [ParentStage.holds, if_neg, if_neg (by simp)]
        intro heq
        have := Option.some.inj heq
        omega
    | accept => simp [ParentStage.holds]
    | close id => simp [ParentStage.holds]
    | ended lost => simp [ParentStage.holds]
  have hsum : (s.children.map fun d => refs d.table (.connection c.id)).sum =
      if c.stage = .exited then 0 else 1 := by
    rw [sum_map_of_nodup h.nodup hc _ fun d hd hne => ?_]
    · rw [h.refs_child hc]
      split_ifs with h1 h2 h2
      · exact absurd h2 h1.1
      · rfl
      · rfl
      · exact absurd ⟨h2, rfl⟩ h1
    · rw [h.refs_child hd, if_neg fun hand => hne hand.2]
  rw [references, hparent, hsum]

theorem Inv.references_inHand {s : State} (h : Inv s) {id : Nat}
    (hhand : inHand s.parent.stage = some id) :
    references s id = if s.parent.stage.holds = some id then 1 else 0 := by
  have hid := h.next id hhand
  have hsum : (s.children.map fun d => refs d.table (.connection id)).sum = 0 := by
    apply List.sum_eq_zero
    intro x hx
    obtain ⟨d, hd, rfl⟩ := List.mem_map.mp hx
    have hlt : d.id < s.children.length := by
      rw [← List.mem_range, ← h.ids]
      exact List.mem_map_of_mem hd
    rw [h.refs_child hd, if_neg]
    rintro ⟨_, heq⟩
    omega
  rw [references, h.parent.connections, hsum, Nat.add_zero]

structure Ownership (s : State) : Prop where
  atAccept : s.parent.stage = .accept →
    object s.parent.table s.listenfd = some .listening ∧
      ∀ id, refs s.parent.table (.connection id) = 0
  /-- Past its `Close(listenfd)` a child holds its own connection and nothing else
  that the server has opened; before, the listening socket besides. -/
  serving : ∀ c ∈ s.children, c.stage = .serving →
    object c.table c.connfd = some (.connection c.id) ∧ refs c.table .listening = 0 ∧
      ∀ id, refs c.table (.connection id) = if c.id = id then 1 else 0
  forked : ∀ c ∈ s.children, c.stage = .forked →
    object c.table s.listenfd = some .listening ∧
      ∀ id, refs c.table (.connection id) = if c.id = id then 1 else 0
  handed : ∀ id, (s.children.map Child.id).count id =
    if id < s.accepted ∧ inHand s.parent.stage ≠ some id then 1 else 0
  failed : ∀ result t, result ≠ .connection → system.step s (.accept result) = some t →
    t.children = s.children ∧ t.accepted = s.accepted
  /-- The last reference goes with the child, or with the parent's `Close(connfd)` if
  that comes after. -/
  references : ∀ c ∈ s.children, references s c.id =
    (if s.parent.stage = .close c.id then 1 else 0) + if c.stage = .exited then 0 else 1
  atFork : ∀ id, s.parent.stage = .fork id → ForkDescriptors.references s id = 1
  lost : ∀ id, s.parent.stage = .ended (some id) → ForkDescriptors.references s id = 0

theorem Inv.count_eq {s : State} (h : Inv s) (id : Nat) :
    (s.children.map Child.id).count id =
      if id < s.accepted ∧ inHand s.parent.stage ≠ some id then 1 else 0 := by
  have haccepted := h.accepted
  rw [h.ids, List.nodup_range.count]
  simp only [List.mem_range]
  cases hhand : inHand s.parent.stage with
  | none =>
      rw [hhand] at haccepted
      have hlen : s.accepted = s.children.length := haccepted
      simp [hlen]
  | some j =>
      rw [hhand] at haccepted
      have hlen : s.accepted = s.children.length + 1 := haccepted
      have hj := h.next j hhand
      congr 1
      simp only [hlen, ne_eq, Option.some.injEq, eq_iff_iff]
      omega

theorem reachable_ownership {s : State} (h : system.Reachable s) : Ownership s := by
  have hs := reachable_inv h
  refine ⟨?_, ?_, ?_, hs.count_eq, ?_, fun c hc => hs.references_eq hc, ?_, ?_⟩
  · intro hstage
    have hparent := hs.parent
    rw [ParentOk, hstage] at hparent
    exact ⟨hparent.listenfd rfl, fun id => hparent.connections id⟩
  · intro c hc hstage
    have hchild := hs.child c hc
    rw [ChildOk, Child.holds, hstage] at hchild
    refine ⟨hchild.connfd c.id rfl, ?_, ?_⟩
    · rcases hchild.listening with ⟨_, hno⟩ | ⟨hzero, _⟩
      · cases hno
      · exact hzero
    · intro id
      rw [hchild.connections]
      simp
  · intro c hc hstage
    have hchild := hs.child c hc
    rw [ChildOk, Child.holds, hstage] at hchild
    refine ⟨hchild.listenfd rfl, ?_⟩
    intro id
    rw [hchild.connections]
    simp
  · intro result t hne hstep
    cases step_move hstep with
    | connection => exact absurd rfl hne
    | eintr => exact ⟨rfl, rfl⟩
    | error => exact ⟨rfl, rfl⟩
  · intro id hstage
    have hhand : inHand s.parent.stage = some id := by rw [hstage]; rfl
    have hone := hs.references_inHand hhand
    rw [hstage] at hone
    exact hone.trans (if_pos rfl)
  · intro id hstage
    have hhand : inHand s.parent.stage = some id := by rw [hstage]; rfl
    have hnone := hs.references_inHand hhand
    rw [hstage] at hnone
    exact hnone

def exampleStart : State where
  listenfd := 3
  parent := ⟨.accept, 0, [some .other, some .other, some .other, some .listening]⟩
  children := []
  accepted := 0

theorem exampleStart_isStart : exampleStart.IsStart := by
  refine ⟨rfl, rfl, by decide, ?_, rfl, rfl⟩
  intro id
  simp [exampleStart, refs]

/-- The child of a client that has left at once exits before the parent has got to
its `Close(connfd)`, and the connection stays open till then. -/
theorem connection_outlives_child : ¬ ∀ s, system.Reachable s →
    ∀ c ∈ s.children, c.stage = .exited → references s c.id = 0 := by
  intro hall
  have hmap : (system.run exampleStart
      [.accept .connection, .fork true, .closeListen 0, .exit 0]).map
        (fun s => (s.children, references s 0)) =
      some ([⟨0, .exited, 4, []⟩], 1) := by
    decide +kernel
  obtain ⟨s, hrun, hfacts⟩ := Option.map_eq_some_iff.mp hmap
  obtain ⟨hchildren, hrefs⟩ := Prod.mk.inj hfacts
  have hzero := hall s ⟨_, _, exampleStart_isStart, hrun⟩ ⟨0, .exited, 4, []⟩
    (by rw [hchildren]; exact List.mem_singleton_self _) rfl
  rw [hrefs] at hzero
  exact absurd hzero (by decide)

theorem reachable_ownership_two : ∃ s, Ownership s ∧ s.parent.stage = .accept ∧
    s.children.map (fun c => (c.id, c.stage, c.connfd)) =
      [(0, .serving, 4), (1, .exited, 4)] := by
  have hmap : (system.run exampleStart
      [.accept .eintr, .accept .connection, .fork true, .close, .closeListen 0,
        .accept .connection, .fork true, .closeListen 1, .close, .exit 1]).map
        (fun s => (s.parent.stage, s.children.map fun c => (c.id, c.stage, c.connfd))) =
      some (.accept, [(0, .serving, 4), (1, .exited, 4)]) := by
    decide +kernel
  obtain ⟨s, hrun, hfacts⟩ := Option.map_eq_some_iff.mp hmap
  obtain ⟨hstage, hchildren⟩ := Prod.mk.inj hfacts
  exact ⟨s, reachable_ownership ⟨_, _, exampleStart_isStart, hrun⟩, hstage, hchildren⟩

end MyUnp.ForkDescriptors
