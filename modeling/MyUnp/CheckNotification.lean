import MyUnp.NotificationServer

namespace MyUnp.CheckNotification

open MyUnp.FieldAccess MyUnp.NotificationServer
open MyUnp.Unp (Byte)

inductive Kind
  | paddrs
  | laddrs
  deriving DecidableEq

/-- What a call that asks for addresses answers: an array with a positive count, or a
count of 0 or -1 and nothing else. -/
inductive GetAddrs
  | addrs (bytes : List Byte) (num : Nat) (pos : 0 < num)
  | none
  | error
  deriving DecidableEq

structure AddrArray where
  kind : Kind
  bytes : List Byte
  deriving DecidableEq

/-- `sar` or `sal`; without an array it has not been set. -/
abbrev Pointer := Option AddrArray

namespace GetAddrs

def num : GetAddrs → Int
  | .addrs _ num _ => num
  | .none => 0
  | .error => -1

def pointer (kind : Kind) : GetAddrs → Pointer
  | .addrs bytes _ _ => some ⟨kind, bytes⟩
  | .none => Option.none
  | .error => Option.none

def Returned (g : GetAddrs) : Prop := 0 < g.num

instance (g : GetAddrs) : Decidable g.Returned := inferInstanceAs (Decidable (_ < _))

end GetAddrs

inductive Call
  | getaddrs (kind : Kind) (assoc_id : Nat)
  | printf (kind : Kind) (num : Int)
  | sctp_print_addrs (addrs : Pointer) (num : Int)
  | freeaddrs (kind : Kind) (addrs : Pointer)
  deriving DecidableEq

/-- The part for one end. The count is printed, but not looked at. -/
def showAddrs (kind : Kind) (assoc_id : Nat) (g : GetAddrs) : List Call :=
  [.getaddrs kind assoc_id, .printf kind g.num, .sctp_print_addrs (g.pointer kind) g.num,
    .freeaddrs kind (g.pointer kind)]

/-- `sctp_check_notification.c`. `recvline` is the whole array, of which the first
`rd_len` bytes have been received. -/
def check_notification (h : Header) (recvline : List Byte) (_rd_len : Int)
    (answer : Kind → GetAddrs) : Access (List Call) := do
  let sn_type ← h.loadNumber recvline h.sn_type
  if sn_type = h.SCTP_ASSOC_CHANGE then
    let sac_state ← h.loadNumber recvline h.sac_state
    if sac_state = h.SCTP_COMM_UP ∨ sac_state = h.SCTP_RESTART then
      let sac_assoc_id ← h.loadNumber recvline h.sac_assoc_id
      let remote := showAddrs .paddrs sac_assoc_id (answer .paddrs)
      let sac_assoc_id ← h.loadNumber recvline h.sac_assoc_id
      return remote ++ showAddrs .laddrs sac_assoc_id (answer .laddrs)
    else return []
  else return []

def Call.releases (a : AddrArray) : Call → Bool
  | .freeaddrs _ addrs => addrs = some a
  | _ => false

def Got (calls : List Call) (answer : Kind → GetAddrs) (a : AddrArray) (num : Int) : Prop :=
  (∃ assoc_id, .getaddrs a.kind assoc_id ∈ calls) ∧
    (answer a.kind).pointer a.kind = some a ∧ (answer a.kind).num = num

/-- Only arrays that have been returned are printed, with their counts, each of them is
released once, and nothing else is. -/
structure ArraysGiven (answer : Kind → GetAddrs) (calls : List Call) : Prop where
  prints : ∀ addrs num, .sctp_print_addrs addrs num ∈ calls →
    ∃ a, addrs = some a ∧ Got calls answer a num
  released : ∀ a num, Got calls answer a num → calls.countP (Call.releases a) = 1
  frees : ∀ kind, .freeaddrs kind none ∉ calls

/-- Besides, only received bytes are read. -/
structure Given (rd_len : Int) (answer : Kind → GetAddrs) (c : Access (List Call)) : Prop where
  reads : ∀ r ∈ c.reads, ((r.1 + r.2 : Nat) : Int) ≤ rd_len
  arrays : ArraysGiven answer c.value

def endOf {struct : Nat} (f : Field struct) : Int := (f.offset + f.size : Nat)

section Notification

variable (h : Header) (recvline : List Byte)

def AssocChange : Prop := (h.loadNumber recvline h.sn_type).value = h.SCTP_ASSOC_CHANGE

def Up : Prop :=
  (h.loadNumber recvline h.sac_state).value = h.SCTP_COMM_UP ∨
    (h.loadNumber recvline h.sac_state).value = h.SCTP_RESTART

instance : Decidable (AssocChange h recvline) := inferInstanceAs (Decidable (_ = _))

instance : Decidable (Up h recvline) := inferInstanceAs (Decidable (_ ∨ _))

/-- The received bytes have every field that is looked at, and no request for addresses
fails. -/
def InOrder (rd_len : Int) (answer : Kind → GetAddrs) : Prop :=
  endOf h.sn_type ≤ rd_len ∧
    (AssocChange h recvline → endOf h.sac_state ≤ rd_len ∧
      (Up h recvline → endOf h.sac_assoc_id ≤ rd_len ∧ ∀ kind, (answer kind).Returned))

end Notification

section Arrays

variable {kind : Kind} {g : GetAddrs} {a : AddrArray} {answer : Kind → GetAddrs}

theorem pointer_kind (h : g.pointer kind = some a) : a.kind = kind := by
  cases g with
  | addrs bytes num pos =>
      obtain rfl := Option.some.inj h
      rfl
  | none => cases h
  | error => cases h

theorem returned_iff_pointer (kind : Kind) (g : GetAddrs) :
    g.Returned ↔ ∃ a, g.pointer kind = some a := by
  cases g with
  | addrs bytes num pos => exact iff_of_true (Int.natCast_pos.mpr pos) ⟨_, rfl⟩
  | none => exact iff_of_false (by decide) fun ⟨_, h⟩ => by cases h
  | error => exact iff_of_false (by decide) fun ⟨_, h⟩ => by cases h

theorem showAddrs_releases (assoc_id : Nat) :
    (showAddrs kind assoc_id g).countP (Call.releases a) =
      if g.pointer kind = some a then 1 else 0 := by
  simp [showAddrs, List.countP_cons, Call.releases]

def showBoth (answer : Kind → GetAddrs) (peer own : Nat) : List Call :=
  showAddrs .paddrs peer (answer .paddrs) ++ showAddrs .laddrs own (answer .laddrs)

variable {peer own : Nat}

theorem mem_showBoth {c : Call} :
    c ∈ showBoth answer peer own ↔
      ∃ kind, c ∈ showAddrs kind (Kind.casesOn kind peer own) (answer kind) := by
  rw [showBoth, List.mem_append]
  constructor
  · rintro (h | h)
    · exact ⟨.paddrs, h⟩
    · exact ⟨.laddrs, h⟩
  · rintro ⟨kind, h⟩
    cases kind with
    | paddrs => exact .inl h
    | laddrs => exact .inr h

theorem showBoth_releases (h : (answer a.kind).pointer a.kind = some a) :
    (showBoth answer peer own).countP (Call.releases a) = 1 := by
  have hother : ∀ kind, kind ≠ a.kind → (answer kind).pointer kind ≠ some a :=
    fun kind hne hsome => hne (pointer_kind hsome).symm
  rw [showBoth, List.countP_append, showAddrs_releases, showAddrs_releases]
  cases hkind : a.kind with
  | paddrs =>
      rw [hkind] at h hother
      rw [if_pos h, if_neg (hother .laddrs (by decide))]
  | laddrs =>
      rw [hkind] at h hother
      rw [if_neg (hother .paddrs (by decide)), if_pos h]

theorem arraysGiven_nil : ArraysGiven answer [] where
  prints _ _ h := absurd h List.not_mem_nil
  released _ _ h := absurd h.1.choose_spec List.not_mem_nil
  frees _ := List.not_mem_nil

theorem arraysGiven_showBoth :
    ArraysGiven answer (showBoth answer peer own) ↔ ∀ kind, (answer kind).Returned := by
  constructor
  · intro hgiven kind
    rw [returned_iff_pointer kind]
    cases hpointer : (answer kind).pointer kind with
    | some a => exact ⟨a, rfl⟩
    | none =>
        refine absurd (mem_showBoth.mpr ⟨kind, ?_⟩) (hgiven.frees kind)
        rw [showAddrs, hpointer]
        simp
  · intro hall
    refine ⟨fun addrs num hmem => ?_, fun a num hgot => showBoth_releases hgot.2.1,
      fun kind hmem => ?_⟩
    · obtain ⟨kind, hkind⟩ := mem_showBoth.mp hmem
      obtain ⟨a, ha⟩ := (returned_iff_pointer kind _).mp (hall kind)
      obtain ⟨rfl, rfl⟩ : addrs = (answer kind).pointer kind ∧ num = (answer kind).num := by
        simpa [showAddrs] using hkind
      obtain rfl := pointer_kind ha
      exact ⟨a, ha, ⟨_, mem_showBoth.mpr ⟨a.kind, List.mem_cons_self⟩⟩, ha, rfl⟩
    · obtain ⟨kind', hkind⟩ := mem_showBoth.mp hmem
      obtain ⟨a, ha⟩ := (returned_iff_pointer kind' _).mp (hall kind')
      rw [showAddrs, ha] at hkind
      simp at hkind

end Arrays

section Runs

variable (h : Header) (recvline : List Byte) (rd_len : Int) (answer : Kind → GetAddrs)

theorem check_notification_eq :
    check_notification h recvline rd_len answer =
      if AssocChange h recvline then
        if Up h recvline then
          let sac_assoc_id := (h.loadNumber recvline h.sac_assoc_id).value
          ⟨showBoth answer sac_assoc_id sac_assoc_id,
            [(h.sn_type.offset, h.sn_type.size), (h.sac_state.offset, h.sac_state.size),
              (h.sac_assoc_id.offset, h.sac_assoc_id.size),
              (h.sac_assoc_id.offset, h.sac_assoc_id.size)]⟩
        else
          ⟨[], [(h.sn_type.offset, h.sn_type.size), (h.sac_state.offset, h.sac_state.size)]⟩
      else ⟨[], [(h.sn_type.offset, h.sn_type.size)]⟩ := by
  rw [check_notification, Access.bind_ite]
  refine if_congr Iff.rfl ?_ rfl
  rw [Access.bind_ite]
  change (h.loadNumber recvline h.sn_type >>= fun _ => ite (Up h recvline) _ _) = _
  split_ifs
  · rfl
  · rfl

end Runs

/-- Whatever the array holds, however much of it has been received and whatever the
library answers: the function keeps to what it was given exactly if the received bytes
have the fields and the library has returned both arrays. -/
theorem given_iff (h : Header) (recvline : List Byte) (rd_len : Int)
    (answer : Kind → GetAddrs) :
    Given rd_len answer (check_notification h recvline rd_len answer) ↔
      InOrder h recvline rd_len answer := by
  have hgiven : ∀ c : Access (List Call), Given rd_len answer c ↔
      (∀ r ∈ c.reads, ((r.1 + r.2 : Nat) : Int) ≤ rd_len) ∧ ArraysGiven answer c.value :=
    fun c => ⟨fun hc => ⟨hc.reads, hc.arrays⟩, fun hc => ⟨hc.1, hc.2⟩⟩
  rw [hgiven, check_notification_eq, InOrder]
  split_ifs with hchange hup
  · rw [arraysGiven_showBoth]
    simp only [List.forall_mem_cons, List.not_mem_nil, endOf, hchange, hup, true_imp_iff]
    tauto
  · simp only [List.forall_mem_cons, List.not_mem_nil, endOf, hchange, hup, true_imp_iff,
      arraysGiven_nil, false_imp_iff]
    tauto
  · simp only [List.forall_mem_cons, List.not_mem_nil, endOf, hchange, false_imp_iff,
      arraysGiven_nil]
    tauto

theorem unset_pointer_freed :
    ¬ ∀ (recvline : List Byte) (rd_len : Int) (answer : Kind → GetAddrs),
      Given rd_len answer (check_notification linux recvline rd_len answer) := by
  intro hall
  have hgiven := hall ([0x01, 0x80] ++ List.replicate 1022 0) 20 fun _ => .error
  exact hgiven.arrays.frees .paddrs (by decide)

end MyUnp.CheckNotification
