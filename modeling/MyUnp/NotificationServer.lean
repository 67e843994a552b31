import MyUnp.FieldAccess
import MyUnp.MemoryBlock
import MyUnp.MessagePieces
import MyUnp.PartialDelivery

/-!
The receive loop of `sctp_srv06.c` and `print_notification` of
`sctp_displayevents.c`, which decodes the front of `recvline` after every
`sctp_recvmsg` that is flagged as a notification.
-/

namespace MyUnp.NotificationServer

open MyUnp.FieldAccess
open MyUnp.MemoryBlock
open MyUnp.MessagePieces
open MyUnp.PartialDelivery (Flags MSG_EOR MSG_NOTIFICATION isNotification)
open MyUnp.Unp (Byte)

def MAXLINE : Nat := 1024

/-- What `print_notification` uses of `<netinet/sctp.h>`: the sizes of the
structures, the fields it reads in them and the constants it compares with.
`number` is an integer of the host from its bytes. -/
structure Header where
  number : List Byte → Nat
  sn_header : Nat
  sn_type : Field sn_header
  sctp_assoc_change : Nat
  sac_state : Field sctp_assoc_change
  sac_assoc_id : Field sctp_assoc_change
  sctp_paddr_change : Nat
  spc_state : Field sctp_paddr_change
  spc_aaddr : Field sctp_paddr_change
  spc_assoc_id : Field sctp_paddr_change
  sctp_remote_error : Nat
  sre_assoc_id : Field sctp_remote_error
  sre_error : Field sctp_remote_error
  sctp_send_failed : Nat
  ssf_assoc_id : Field sctp_send_failed
  ssf_error : Field sctp_send_failed
  sctp_adaptation_event : Nat
  sai_adaptation_ind : Field sctp_adaptation_event
  sctp_pdapi_event : Nat
  pdapi_indication : Field sctp_pdapi_event
  sctp_shutdown_event : Nat
  sse_assoc_id : Field sctp_shutdown_event
  SCTP_ASSOC_CHANGE : Nat
  SCTP_COMM_UP : Nat
  SCTP_COMM_LOST : Nat
  SCTP_RESTART : Nat
  SCTP_SHUTDOWN_COMP : Nat
  SCTP_CANT_STR_ASSOC : Nat
  SCTP_PEER_ADDR_CHANGE : Nat
  SCTP_ADDR_AVAILABLE : Nat
  SCTP_ADDR_UNREACHABLE : Nat
  SCTP_ADDR_REMOVED : Nat
  SCTP_ADDR_ADDED : Nat
  SCTP_ADDR_MADE_PRIM : Nat
  SCTP_REMOTE_ERROR : Nat
  SCTP_SEND_FAILED : Nat
  SCTP_ADAPTATION_INDICATION : Nat
  SCTP_PARTIAL_DELIVERY_EVENT : Nat
  SCTP_PARTIAL_DELIVERY_ABORTED : Nat
  SCTP_SHUTDOWN_EVENT : Nat

inductive EventType where
  | assocChange
  | peerAddrChange
  | remoteError
  | sendFailed
  | adaptationIndication
  | partialDeliveryEvent
  | shutdownEvent
  | unknown

/-- What is printed, with the arguments of the format. `sock_ntop` turns the
bytes of the peer's address into text and is left out. -/
inductive Line where
  | assocChange (str : String) (assoc_id : Nat)
  | peerAddrChange (str : String) (addr : List Byte) (assoc_id : Nat)
  | remoteError (assoc_id error : Nat)
  | sendFailed (assoc_id error : Nat)
  | adaptationIndication (ind : Nat)
  | partialDeliveryAborted
  | unknownPartialDelivery (indication : Nat)
  | shutdownEvent (assoc_id : Nat)
  | unknownType (sn_type : Nat)
  deriving DecidableEq

def stateText (cases : List (Nat × String)) (state : Nat) : String :=
  (cases.lookup state).getD "unknown"

namespace Header

variable (h : Header)

def sacText : Nat → String := stateText
  [(h.SCTP_COMM_UP, "COMMUNICATION UP"), (h.SCTP_COMM_LOST, "COMMUNICATION LOST"),
    (h.SCTP_RESTART, "RESTART"), (h.SCTP_SHUTDOWN_COMP, "SHUTDOWN COMPLETE"),
    (h.SCTP_CANT_STR_ASSOC, "CAN'T START ASSOC")]

def spcText : Nat → String := stateText
  [(h.SCTP_ADDR_AVAILABLE, "ADDRESS AVAILABLE"),
    (h.SCTP_ADDR_UNREACHABLE, "ADDRESS UNREACHABLE"),
    (h.SCTP_ADDR_REMOVED, "ADDRESS REMOTED"), (h.SCTP_ADDR_ADDED, "ADDRESS ADDED"),
    (h.SCTP_ADDR_MADE_PRIM, "ADDRESS MADE PRIMARY")]

def loadNumber {struct : Nat} (buf : List Byte) (f : Field struct) : Access Nat := do
  let bytes ← load buf f
  return h.number bytes

def eventType (sn_type : Nat) : EventType :=
  if sn_type = h.SCTP_ASSOC_CHANGE then .assocChange
  else if sn_type = h.SCTP_PEER_ADDR_CHANGE then .peerAddrChange
  else if sn_type = h.SCTP_REMOTE_ERROR then .remoteError
  else if sn_type = h.SCTP_SEND_FAILED then .sendFailed
  else if sn_type = h.SCTP_ADAPTATION_INDICATION then .adaptationIndication
  else if sn_type = h.SCTP_PARTIAL_DELIVERY_EVENT then .partialDeliveryEvent
  else if sn_type = h.SCTP_SHUTDOWN_EVENT then .shutdownEvent
  else .unknown

def printEvent (sn_type : Nat) (buf : List Byte) : Access Line :=
  match h.eventType sn_type with
  | .assocChange => do
      let sac_state ← h.loadNumber buf h.sac_state
      let sac_assoc_id ← h.loadNumber buf h.sac_assoc_id
      return .assocChange (h.sacText sac_state) sac_assoc_id
  | .peerAddrChange => do
      let spc_state ← h.loadNumber buf h.spc_state
      let spc_aaddr ← load buf h.spc_aaddr
      let spc_assoc_id ← h.loadNumber buf h.spc_assoc_id
      return .peerAddrChange (h.spcText spc_state) spc_aaddr spc_assoc_id
  | .remoteError => do
      let sre_assoc_id ← h.loadNumber buf h.sre_assoc_id
      let sre_error ← h.loadNumber buf h.sre_error
      return .remoteError sre_assoc_id sre_error
  | .sendFailed => do
      let ssf_assoc_id ← h.loadNumber buf h.ssf_assoc_id
      let ssf_error ← h.loadNumber buf h.ssf_error
      return .sendFailed ssf_assoc_id ssf_error
  | .adaptationIndication => do
      let sai_adaptation_ind ← h.loadNumber buf h.sai_adaptation_ind
      return .adaptationIndication sai_adaptation_ind
  | .partialDeliveryEvent => do
      let pdapi_indication ← h.loadNumber buf h.pdapi_indication
      if pdapi_indication = h.SCTP_PARTIAL_DELIVERY_ABORTED then
        return .partialDeliveryAborted
      else return .unknownPartialDelivery pdapi_indication
  | .shutdownEvent => do
      let sse_assoc_id ← h.loadNumber buf h.sse_assoc_id
      return .shutdownEvent sse_assoc_id
  | .unknown => return .unknownType sn_type

def structSize (sn_type : Nat) : Nat :=
  match h.eventType sn_type with
  | .assocChange => h.sctp_assoc_change
  | .peerAddrChange => h.sctp_paddr_change
  | .remoteError => h.sctp_remote_error
  | .sendFailed => h.sctp_send_failed
  | .adaptationIndication => h.sctp_adaptation_event
  | .partialDeliveryEvent => h.sctp_pdapi_event
  | .shutdownEvent => h.sctp_shutdown_event
  | .unknown => h.sn_header

end Header

def print_notification (h : Header) (notify_buf : List Byte) : Access Line := do
  let sn_type ← h.loadNumber notify_buf h.sn_type
  h.printEvent sn_type notify_buf

/-- What one `sctp_recvmsg` answers: `again` is a failure with `EAGAIN`. -/
inductive Recv where
  | again
  | error
  | piece (flags : Flags) (data : List Byte)
  deriving DecidableEq

/-- One call of `print_notification`, with what the `sctp_recvmsg` before it
returned. -/
structure Call where
  notify_buf : List Byte
  rd_sz : Nat
  printed : Access Line

/-- The calls of `print_notification` that the receive loop makes. -/
def serverLoop (h : Header) (recvline : List Byte) : List Recv → List Call
  | [] => []
  | .again :: rs => serverLoop h recvline rs
  | .error :: _ => []
  | .piece msg_flags data :: rs =>
      let rd_sz := (data.take MAXLINE).length
      let recvline := store recvline 0 (data.take MAXLINE)
      if isNotification msg_flags then
        ⟨recvline, rd_sz, print_notification h recvline⟩ :: serverLoop h recvline rs
      else serverLoop h recvline rs

/-- The bytes are a notification: they begin with its header and have all of
the structure of its type. -/
def Header.Complete (h : Header) (content : List Byte) : Prop :=
  h.sn_header ≤ content.length ∧
    h.structSize (h.loadNumber content h.sn_type).value ≤ content.length

instance (h : Header) (content : List Byte) : Decidable (h.Complete content) :=
  inferInstanceAs (Decidable (_ ∧ _))

/-- A user message or a notification, and how it is delivered. -/
structure Message (h : Header) where
  notification : Bool
  delivery : Delivery Byte MAXLINE
  complete : notification = true → h.Complete delivery.content

section Layout

variable (h : Header) {n : Nat}

theorem loadNumber_within {struct : Nat} (buf : List Byte) (f : Field struct)
    (hn : struct ≤ n) : (h.loadNumber buf f).Within n :=
  (load_within buf f hn).bind (Access.within_pure n _)

theorem loadNumber_congr {struct : Nat} {buf buf' : List Byte} (f : Field struct)
    (heq : buf.take n = buf'.take n) (hn : struct ≤ n) :
    h.loadNumber buf f = h.loadNumber buf' f := by
  rw [Header.loadNumber, Header.loadNumber, load_congr f heq hn]

theorem twoNumbers_within {struct : Nat} (buf : List Byte) (f g : Field struct)
    (k : Nat → Nat → Line) (hn : struct ≤ n) :
    (do let a ← h.loadNumber buf f
        let b ← h.loadNumber buf g
        return k a b : Access Line).Within n :=
  (loadNumber_within h buf f hn).bind
    ((loadNumber_within h buf g hn).bind (Access.within_pure n _))

theorem printEvent_within {sn_type : Nat} (buf : List Byte)
    (hn : h.structSize sn_type ≤ n) : (h.printEvent sn_type buf).Within n := by
  have hload {struct : Nat} (f : Field struct) (hf : struct ≤ n) :=
    loadNumber_within h buf f hf
  rw [Header.structSize] at hn
  rw [Header.printEvent]
  cases htype : h.eventType sn_type with
  | assocChange =>
      rw [htype] at hn
      exact twoNumbers_within h buf _ _ _ hn
  | peerAddrChange =>
      rw [htype] at hn
      exact (hload _ hn).bind ((load_within buf _ hn).bind
        ((hload _ hn).bind (Access.within_pure n _)))
  | remoteError =>
      rw [htype] at hn
      exact twoNumbers_within h buf _ _ _ hn
  | sendFailed =>
      rw [htype] at hn
      exact twoNumbers_within h buf _ _ _ hn
  | adaptationIndication =>
      rw [htype] at hn
      exact (hload _ hn).bind (Access.within_pure n _)
  | partialDeliveryEvent =>
      rw [htype] at hn
      apply (hload _ hn).bind
      split
      · exact Access.within_pure n _
      · exact Access.within_pure n _
  | shutdownEvent =>
      rw [htype] at hn
      exact (hload _ hn).bind (Access.within_pure n _)
  | unknown => exact Access.within_pure n _

theorem printEvent_congr {sn_type : Nat} {buf buf' : List Byte}
    (heq : buf.take n = buf'.take n) (hn : h.structSize sn_type ≤ n) :
    h.printEvent sn_type buf = h.printEvent sn_type buf' := by
  have hload {struct : Nat} (f : Field struct) (hf : struct ≤ n) :=
    loadNumber_congr h f heq hf
  rw [Header.structSize] at hn
  rw [Header.printEvent, Header.printEvent]
  cases htype : h.eventType sn_type with
  | assocChange =>
      rw [htype] at hn
      simp only [hload _ hn]
  | peerAddrChange =>
      rw [htype] at hn
      simp only [hload _ hn, load_congr _ heq hn]
  | remoteError =>
      rw [htype] at hn
      simp only [hload _ hn]
  | sendFailed =>
      rw [htype] at hn
      simp only [hload _ hn]
  | adaptationIndication =>
      rw [htype] at hn
      simp only [hload _ hn]
  | partialDeliveryEvent =>
      rw [htype] at hn
      simp only [hload _ hn]
  | shutdownEvent =>
      rw [htype] at hn
      simp only [hload _ hn]
  | unknown => rfl

/-- What the front of the buffer holds decides what is printed, as far as it is
a whole notification. -/
theorem print_notification_front {content buf : List Byte}
    (hcomplete : h.Complete content) (hfront : buf.take content.length = content) :
    print_notification h buf = print_notification h content ∧
      (print_notification h content).Within content.length := by
  obtain ⟨hheader, hstruct⟩ := hcomplete
  have heq : buf.take content.length = content.take content.length := by
    rw [hfront, List.take_length]
  constructor
  · rw [print_notification, loadNumber_congr h h.sn_type heq hheader]
    exact Access.bind_congr (printEvent_congr h heq hstruct)
  · exact (loadNumber_within h content h.sn_type hheader).bind
      (printEvent_within h content hstruct)

end Layout

section Loop

variable (h : Header)

def Message.content {h : Header} (m : Message h) : List Byte := m.delivery.content

def Message.kind {h : Header} (m : Message h) : Flags :=
  if m.notification then MSG_NOTIFICATION else 0

def Message.recvs {h : Header} (m : Message h) : List Recv :=
  (tagLast m.kind (m.kind ||| MSG_EOR) m.delivery.pieces).map fun p =>
    .piece p.1 p.2

def delivered {h : Header} (ms : List (Message h)) : List Recv :=
  ms.flatMap Message.recvs

/-- The call is given a buffer that begins with the notification's header, looks
at nothing but what was received for it, and prints what it says. -/
structure Decoded (c : Call) (m : Message h) : Prop where
  header : h.sn_header ≤ c.rd_sz
  own : c.notify_buf.take c.rd_sz <+: m.content
  within : c.printed.Within c.rd_sz
  printed : c.printed = print_notification h m.content

def noticeData : Recv → Option (List Byte)
  | .piece flags data =>
      if isNotification flags then some (data.take MAXLINE) else none
  | _ => none

structure Call.Ok (c : Call) : Prop where
  rd_sz : (c.notify_buf.take c.rd_sz).length = c.rd_sz
  printed : c.printed = print_notification h c.notify_buf

theorem serverLoop_again (recvline : List Byte) (rs : List Recv) :
    serverLoop h recvline (rs.filter (· ≠ .again)) = serverLoop h recvline rs := by
  induction rs generalizing recvline with
  | nil => rfl
  | cons r rs ih =>
      cases r with
      | again =>
          rw [List.filter_cons_of_neg (by simp), serverLoop]
          exact ih recvline
      | error =>
          rw [List.filter_cons_of_pos (by simp)]
          rfl
      | piece flags data =>
          rw [List.filter_cons_of_pos (by simp)]
          simp only [serverLoop, ih]

theorem serverLoop_calls {recvline : List Byte} {rs : List Recv}
    (hbuf : recvline.length = MAXLINE) (herror : .error ∉ rs) :
    (serverLoop h recvline rs).map (fun c => c.notify_buf.take c.rd_sz) =
        rs.filterMap noticeData ∧
      ∀ c ∈ serverLoop h recvline rs, c.Ok h := by
  induction rs generalizing recvline with
  | nil => exact ⟨rfl, List.forall_mem_nil _⟩
  | cons r rs ih =>
      have hrest := fun hmem => herror (List.mem_cons_of_mem r hmem)
      cases r with
      | again => exact ih hbuf hrest
      | error => exact absurd List.mem_cons_self herror
      | piece flags data =>
          have hle : (data.take MAXLINE).length ≤ recvline.length := by
            rw [hbuf]
            exact List.length_take_le _ _
          have htake := take_store_zero hle
          obtain ⟨hmap, hok⟩ := ih ((store_length _ 0 _).trans hbuf) hrest
          cases hflags : isNotification flags with
          | true =>
              have hnotice : noticeData (.piece flags data) =
                  some (data.take MAXLINE) := if_pos hflags
              rw [List.filterMap_cons_some hnotice, ← hmap]
              simp only [serverLoop, hflags, if_true, List.map_cons, htake,
                List.forall_mem_cons]
              exact ⟨rfl, ⟨congrArg List.length htake, rfl⟩, hok⟩
          | false =>
              have hnone : noticeData (.piece flags data) = none :=
                if_neg (by simp [hflags])
              rw [List.filterMap_cons_none hnone, ← hmap]
              simp only [serverLoop, hflags, Bool.false_eq_true, if_false,
                true_and]
              exact hok

theorem isNotification_recvs {m : Message h} {p : Flags × List Byte}
    (hp : p ∈ tagLast m.kind (m.kind ||| MSG_EOR) m.delivery.pieces) :
    isNotification p.1 = m.notification := by
  have hdata : isNotification 0 = false ∧
      isNotification (0 ||| MSG_EOR) = false := by decide
  have hnotice : isNotification MSG_NOTIFICATION = true ∧
      isNotification (MSG_NOTIFICATION ||| MSG_EOR) = true := by decide
  cases hm : m.notification with
  | true =>
      rw [show m.kind = MSG_NOTIFICATION from if_pos hm] at hp
      rcases tag_of_mem_tagLast _ _ hp with h | h
      · rw [h, hnotice.1]
      · rw [h, hnotice.2]
  | false =>
      rw [show m.kind = 0 from if_neg (by simp [hm])] at hp
      rcases tag_of_mem_tagLast _ _ hp with h | h
      · rw [h, hdata.1]
      · rw [h, hdata.2]

theorem recvs_noticeData (m : Message h) :
    m.recvs.filterMap noticeData =
      if m.notification then m.delivery.pieces else [] := by
  have hpiece : ∀ p ∈ tagLast m.kind (m.kind ||| MSG_EOR) m.delivery.pieces,
      noticeData (.piece p.1 p.2) =
        if m.notification then some p.2 else none := by
    intro p hp
    have hfits := m.delivery.bounded p.2 (mem_of_mem_tagLast _ _ hp)
    rw [noticeData, isNotification_recvs h hp, List.take_of_length_le hfits]
  rw [Message.recvs, List.filterMap_map]
  change List.filterMap (fun p : Flags × List Byte =>
    noticeData (.piece p.1 p.2)) _ = _
  rw [List.filterMap_congr hpiece]
  cases m.notification with
  | true =>
      have hpieces := tagLast_map_snd m.kind (m.kind ||| MSG_EOR) m.delivery.pieces
      rw [← List.filterMap_eq_map] at hpieces
      exact hpieces
  | false => exact List.filterMap_none _

theorem delivered_noticeData (ms : List (Message h)) :
    (delivered ms).filterMap noticeData =
      (ms.filter Message.notification).flatMap fun m => m.delivery.pieces := by
  induction ms with
  | nil => rfl
  | cons m ms ih =>
      change (m.recvs ++ delivered ms).filterMap noticeData = _
      rw [List.filterMap_append, ih, recvs_noticeData]
      cases hm : m.notification with
      | true => simp [hm]
      | false => simp [hm]

theorem error_not_mem_delivered (ms : List (Message h)) :
    .error ∉ delivered ms := by
  intro hmem
  obtain ⟨m, -, hm⟩ := List.mem_flatMap.mp hmem
  obtain ⟨p, -, hp⟩ := List.mem_map.mp hm
  cases hp

theorem serverLoop_delivered {ms : List (Message h)} {recvline : List Byte}
    {rs : List Recv} (hbuf : recvline.length = MAXLINE)
    (hrs : rs.filter (· ≠ .again) = delivered ms) :
    (serverLoop h recvline rs).map (fun c => c.notify_buf.take c.rd_sz) =
        (perPiece (fun _ => ()) Message.delivery
          (ms.filter Message.notification)).map Prod.snd ∧
      ∀ c ∈ serverLoop h recvline rs, c.Ok h := by
  rw [← serverLoop_again, hrs, perPiece_map_snd, ← delivered_noticeData]
  exact serverLoop_calls h hbuf (error_not_mem_delivered h ms)

theorem decoded_of_front {c : Call} {m : Message h} (hok : c.Ok h)
    (hm : m.notification = true)
    (hfront : c.notify_buf.take c.rd_sz = m.content) : Decoded h c m := by
  have hcomplete : h.Complete m.content := m.complete hm
  have hlen : m.content.length = c.rd_sz := by rw [← hfront, hok.rd_sz]
  rw [← hlen] at hfront
  obtain ⟨hprinted, hwithin⟩ := print_notification_front h hcomplete hfront
  rw [← hok.printed] at hprinted
  constructor
  · rw [← hlen]
    exact hcomplete.1
  · rw [← hlen]
    exact ⟨[], by rw [hfront, List.append_nil]⟩
  · rw [hprinted, ← hlen]
    exact hwithin
  · exact hprinted

/-- `print_notification` decodes every notification once, from bytes of its
own, for exactly those sequences of messages whose notifications all fit
`recvline`. -/
theorem serverLoop_decoded_iff (ms : List (Message h)) :
    (∀ (recvline : List Byte) (rs : List Recv), recvline.length = MAXLINE →
      rs.filter (· ≠ .again) = delivered ms →
        List.Forall₂ (Decoded h) (serverLoop h recvline rs)
          (ms.filter Message.notification)) ↔
      ∀ m ∈ ms.filter Message.notification, m.content.length ≤ MAXLINE := by
  constructor
  · intro hall
    have hbuf : (List.replicate MAXLINE (0 : Byte)).length = MAXLINE :=
      List.length_replicate
    have hrs : (delivered ms).filter (· ≠ .again) = delivered ms := by
      apply List.filter_eq_self.mpr
      intro r hr
      obtain ⟨m, -, hm⟩ := List.mem_flatMap.mp hr
      obtain ⟨p, -, rfl⟩ := List.mem_map.mp hm
      simp
    have hlen := (hall _ _ hbuf hrs).length_eq
    have hcalls := congrArg List.length (serverLoop_delivered h hbuf hrs).1
    rw [List.length_map, List.length_map, hlen] at hcalls
    exact (perPiece_length_iff _ _ _).mp hcalls.symm
  · intro hfits recvline rs hbuf hrs
    obtain ⟨hmap, hok⟩ := serverLoop_delivered h hbuf hrs
    rw [perPiece_of_fits _ _ hfits, List.map_map] at hmap
    apply forall₂_of_map_eq hmap
    intro c hc m hm hfront
    exact decoded_of_front h (hok c hc) (List.mem_filter.mp hm).2 hfront

end Loop

/-- The layout and the constants of a Linux header, least significant byte
first. -/
def linux : Header where
  number := fun bytes => bytes.foldr (fun b n => b.toNat + 256 * n) 0
  sn_header := 8
  sn_type := ⟨0, 2, by decide⟩
  sctp_assoc_change := 20
  sac_state := ⟨8, 2, by decide⟩
  sac_assoc_id := ⟨16, 4, by decide⟩
  sctp_paddr_change := 148
  spc_state := ⟨136, 4, by decide⟩
  spc_aaddr := ⟨8, 128, by decide⟩
  spc_assoc_id := ⟨144, 4, by decide⟩
  sctp_remote_error := 16
  sre_assoc_id := ⟨12, 4, by decide⟩
  sre_error := ⟨8, 2, by decide⟩
  sctp_send_failed := 48
  ssf_assoc_id := ⟨44, 4, by decide⟩
  ssf_error := ⟨8, 4, by decide⟩
  sctp_adaptation_event := 16
  sai_adaptation_ind := ⟨8, 4, by decide⟩
  sctp_pdapi_event := 24
  pdapi_indication := ⟨8, 4, by decide⟩
  sctp_shutdown_event := 12
  sse_assoc_id := ⟨8, 4, by decide⟩
  SCTP_ASSOC_CHANGE := 0x8001
  SCTP_COMM_UP := 0
  SCTP_COMM_LOST := 1
  SCTP_RESTART := 2
  SCTP_SHUTDOWN_COMP := 3
  SCTP_CANT_STR_ASSOC := 4
  SCTP_PEER_ADDR_CHANGE := 0x8002
  SCTP_ADDR_AVAILABLE := 0
  SCTP_ADDR_UNREACHABLE := 1
  SCTP_ADDR_REMOVED := 2
  SCTP_ADDR_ADDED := 3
  SCTP_ADDR_MADE_PRIM := 4
  SCTP_REMOTE_ERROR := 0x8004
  SCTP_SEND_FAILED := 0x8003
  SCTP_ADAPTATION_INDICATION := 0x8007
  SCTP_PARTIAL_DELIVERY_EVENT := 0x8006
  SCTP_PARTIAL_DELIVERY_ABORTED := 0
  SCTP_SHUTDOWN_EVENT := 0x8005

/-- The front of an `SCTP_REMOTE_ERROR`, which carries 1009 bytes of the peer's `ERROR`
chunk; the last of them is left for a second piece. -/
def remoteErrorFront : List Byte :=
  [0x04, 0x80, 0, 0, 0x01, 0x04, 0, 0, 0, 1, 0, 0, 1, 0, 0, 0] ++ List.replicate 1008 0x61

theorem remoteErrorFront_length : remoteErrorFront.length = MAXLINE := by
  rw [remoteErrorFront, List.length_append, List.length_replicate]
  rfl

def remoteError : Message linux where
  notification := true
  delivery := .ofFull remoteErrorFront [0x61] remoteErrorFront_length
    (List.cons_ne_nil _ _) (by decide)
  complete := by
    intro _
    decide +kernel

theorem long_notification_twice :
    ¬∀ (recvline : List Byte) (rs : List Recv), recvline.length = MAXLINE →
      rs.filter (· ≠ .again) = delivered [remoteError] →
        List.Forall₂ (Decoded linux) (serverLoop linux recvline rs)
          ([remoteError].filter Message.notification) := by
  intro hall
  have hbuf : (List.replicate MAXLINE (0 : Byte)).length = MAXLINE :=
    List.length_replicate
  have hrs : (delivered [remoteError]).filter (· ≠ .again) =
      delivered [remoteError] := rfl
  have hlen := (hall _ _ hbuf hrs).length_eq
  have hcalls := congrArg List.length (serverLoop_delivered linux hbuf hrs).1
  rw [List.length_map, hlen] at hcalls
  exact absurd hcalls (by decide)

end MyUnp.NotificationServer
