import MyUnp.PartialDeliveryLaw
import MyUnp.TransitionSystem

namespace MyUnp.PartialDeliveryKinds

open MyUnp.MemoryBlock
open MyUnp.PartialDelivery
open MyUnp.PartialDeliveryLaw
open MyUnp.TransitionSystem
open MyUnp.Unp

/-- What one `sctp_recvmsg` takes from the socket: a piece of the message under
way, or a notification, which may tell that the rest of that message will not
come; or nothing, where it fails. -/
inductive Event where
  | error
  | data (bytes : List Byte) (last : Bool)
  | notice (bytes : List Byte) (aborts : Bool)
  deriving DecidableEq

namespace Event

def bytes : Event → List Byte
  | .error => []
  | .data bytes _ => bytes
  | .notice bytes _ => bytes

def flags : Event → Flags
  | .error => 0
  | .data _ last => if last then MSG_EOR else 0
  | .notice _ _ => MSG_NOTIFICATION ||| MSG_EOR

def recv : Event → Recv
  | .error => .error
  | .data bytes last => .piece bytes (Event.data bytes last).flags
  | .notice bytes aborts => .piece bytes (Event.notice bytes aborts).flags

def isNotice : Event → Bool
  | .notice _ _ => true
  | _ => false

def midAfter (mid : Bool) : Event → Bool
  | .error => mid
  | .data _ last => !last
  | .notice _ aborts => mid && !aborts

end Event

/-- One call of `pdapi_recvmsg`: what `malloc` and each `realloc` answer, and
what the socket holds. -/
structure Turn where
  malloc : Option (Nat → Byte)
  first : Event
  rounds : List (Option (Nat → Byte) × Event)

namespace Turn

def call (t : Turn) : Call where
  malloc := t.malloc
  first := t.first.recv
  rounds := t.rounds.map fun r => ⟨r.1, r.2.recv⟩

def events (t : Turn) : List Event := t.first :: t.rounds.map Prod.snd

end Turn

/-- The static buffer, and whether the pieces of a message that calls so far
have taken are not all of it. -/
structure Session where
  statics : Statics
  mid : Bool

namespace Session

def result (s : Session) (t : Turn) : Result := pdapiRecvmsg s.statics t.call

def taken (s : Session) (t : Turn) : List Event :=
  t.events.take (s.result t).areas.length

def Fits (s : Session) (t : Turn) : Prop :=
  ∀ p ∈ (s.result t).areas.zip t.events, p.2.bytes.length ≤ p.1.len

instance (s : Session) (t : Turn) : Decidable (s.Fits t) :=
  inferInstanceAs (Decidable (∀ p ∈ _, _))

def step (s : Session) (t : Turn) : Option Session :=
  if s.Fits t ∧ (s.result t).ret ≠ .waiting then
    some ⟨(s.result t).statics, (s.taken t).foldl Event.midAfter s.mid⟩
  else none

end Session

def system : System Session Turn where
  init s := s = ⟨.start, false⟩
  step := Session.step

def msgFlags (flags : Flags) (es : List Event) : Flags :=
  es.foldl (fun _ e => e.flags) flags

def Holds (r : Result) (bytes : List Byte) : Prop :=
  r.rdlen = some (bytes.length : Int) ∧
    ∃ block, r.statics.readbuf = some block ∧ block.take bytes.length = bytes

/-- The buffer holds one notification, or a user message from its first piece
to its last. -/
def Single (mid : Bool) (es : List Event) (r : Result) : Prop :=
  (∃ bytes aborts, es = [.notice bytes aborts] ∧ Holds r bytes) ∨
    mid = false ∧ isNotification (msgFlags 0 es) = false ∧
      ∃ (pieces : List (List Byte)) (last : List Byte),
        es = pieces.map (Event.data · false) ++ [.data last true] ∧
          Holds r (pieces.flatten ++ last)

def untilEor : Flags → List Event → List Event
  | _, [] => []
  | flags, e :: es => if endOfRecord flags then [] else e :: untilEor e.flags es

/-- What comes up to `MSG_EOR` fits the buffer, and is a notification by itself
or has none in it and begins with the first piece of a message. -/
def Alone (mid : Bool) (t : Turn) : Prop :=
  ((untilEor 0 t.events).flatMap Event.bytes).length ≤ INCR_SZ ∧
    (t.first.isNotice = true ∨
      mid = false ∧ ∀ e ∈ untilEor 0 t.events, e.isNotice = false)

instance (mid : Bool) (t : Turn) : Decidable (Alone mid t) :=
  inferInstanceAs (Decidable (_ ∧ (_ ∨ _ ∧ ∀ e ∈ _, _)))

theorem untilEor_of_eor {flags : Flags} (h : endOfRecord flags = true)
    (es : List Event) : untilEor flags es = [] := by
  cases es <;> simp [untilEor, h]

theorem untilEor_cons {flags : Flags} (h : ¬endOfRecord flags = true)
    (e : Event) (es : List Event) :
    untilEor flags (e :: es) = e :: untilEor e.flags es := by
  rw [untilEor, if_neg h]

theorem take_untilEor (flags : Flags) (es : List Event) :
    es.take (untilEor flags es).length = untilEor flags es := by
  induction es generalizing flags with
  | nil => rfl
  | cons e es ih =>
      by_cases h : endOfRecord flags = true
      · rw [untilEor_of_eor h]
        rfl
      · rw [untilEor_cons h, List.length_cons, List.take_succ_cons, ih]

theorem endOfRecord_data (bytes : List Byte) (last : Bool) :
    endOfRecord (Event.data bytes last).flags = last := by
  cases last with
  | true => exact (by decide : endOfRecord MSG_EOR = true)
  | false => exact (by decide : endOfRecord 0 = false)

theorem endOfRecord_notice (bytes : List Byte) (aborts : Bool) :
    endOfRecord (Event.notice bytes aborts).flags = true :=
  (by decide : endOfRecord (MSG_NOTIFICATION ||| MSG_EOR) = true)

theorem untilEor_data {flags : Flags} {es : List Event}
    (hopen : ¬endOfRecord flags = true)
    (hkind : ∀ e ∈ untilEor flags es, e ≠ .error ∧ e.isNotice = false)
    (heor : endOfRecord (msgFlags flags (untilEor flags es)) = true) :
    ∃ (pieces : List (List Byte)) (last : List Byte), untilEor flags es =
      pieces.map (Event.data · false) ++ [.data last true] := by
  induction es generalizing flags with
  | nil => exact absurd heor hopen
  | cons e es ih =>
      rw [untilEor_cons hopen] at hkind heor ⊢
      rw [List.forall_mem_cons] at hkind
      cases e with
      | error => exact absurd rfl hkind.1.1
      | notice bytes aborts => exact absurd hkind.1.2 (by simp [Event.isNotice])
      | data bytes last =>
          cases last with
          | true =>
              rw [untilEor_of_eor (endOfRecord_data bytes true)]
              exact ⟨[], bytes, rfl⟩
          | false =>
              have hnext := endOfRecord_data bytes false
              obtain ⟨pieces, last, heq⟩ := ih (by simp [hnext]) hkind.2 heor
              rw [heq]
              exact ⟨bytes :: pieces, last, rfl⟩

/-- What a call that returns its buffer has put there behind `got`. -/
structure Gathered (got : List Byte) (es : List Event) (r : Result) : Prop where
  areas : r.areas.length = es.length
  noError : ∀ e ∈ es, e ≠ .error
  rdlen : r.rdlen = some ((got ++ es.flatMap Event.bytes).length : Int)
  block : ∃ block, r.statics.readbuf = some block ∧ block.length = INCR_SZ ∧
    ((got ++ es.flatMap Event.bytes).length ≤ INCR_SZ →
      block.take (got ++ es.flatMap Event.bytes).length =
        got ++ es.flatMap Event.bytes)

theorem Gathered.holds_iff {es : List Event} {r : Result}
    (h : Gathered [] es r) :
    Holds r (es.flatMap Event.bytes) ↔
      (es.flatMap Event.bytes).length ≤ INCR_SZ := by
  obtain ⟨block, hbuf, hlen, hcontent⟩ := h.block
  constructor
  · rintro ⟨-, block', hbuf', htake⟩
    obtain rfl := Option.some.inj (hbuf.symm.trans hbuf')
    have hle := congrArg List.length htake
    rw [List.length_take, hlen] at hle
    omega
  · intro hle
    exact ⟨h.rdlen, block, hbuf, hcontent hle⟩

theorem resize_self (block : List Byte) (junk : Nat → Byte) :
    resize block block.length junk = block := by
  apply List.ext_getElem
  · exact resize_length _ _ _
  · intro i hi hblock
    simp [resize, hblock]

theorem makeRoom_block {block block' : List Byte} {size size' at_in_buf : Nat}
    {realloc : Option (Nat → Byte)} (hblock : block.length = INCR_SZ)
    (h : makeRoom block size at_in_buf realloc = some (block', size')) :
    block' = block := by
  rw [makeRoom] at h
  split at h
  · obtain ⟨junk, -, heq⟩ := Option.map_eq_some_iff.mp h
    rw [← hblock, resize_self] at heq
    exact (Prod.mk.inj heq).1.symm
  · exact (Prod.mk.inj (Option.some.inj h)).1.symm

theorem delivered_recv (e : Event) {len : Nat} (h : e.bytes.length ≤ len) :
    e.recv.delivered len = e.bytes := by
  cases e with
  | error => rfl
  | data bytes last => exact List.take_of_length_le h
  | notice bytes aborts => exact List.take_of_length_le h

theorem recv_eq_piece {e : Event} (h : e ≠ .error) :
    e.recv = .piece e.bytes e.flags := by
  cases e with
  | error => exact absurd rfl h
  | data bytes last => rfl
  | notice bytes aborts => rfl

theorem take_store_event {block got data : List Byte}
    (hblock : block.length = INCR_SZ)
    (hfront : got.length ≤ INCR_SZ → block.take got.length = got) :
    (got ++ data).length ≤ INCR_SZ →
      (store block got.length data).take (got ++ data).length = got ++ data := by
  intro hle
  rw [List.length_append] at hle ⊢
  exact take_store (hfront (by omega)) (by omega)

theorem Gathered.cons {got : List Byte} {e : Event} {es : List Event}
    {r : Result} {a : RecvArea} (he : e ≠ .error)
    (h : Gathered (got ++ e.bytes) es r) :
    Gathered got (e :: es) { r with areas := a :: r.areas } := by
  obtain ⟨hareas, hnoError, hrdlen, hblock⟩ := h
  rw [List.append_assoc, ← List.flatMap_cons] at hrdlen hblock
  exact ⟨congrArg (· + 1) hareas, List.forall_mem_cons.mpr ⟨he, hnoError⟩,
    hrdlen, hblock⟩

theorem Gathered.nil {block got : List Byte} {size : Nat}
    (hblock : block.length = INCR_SZ)
    (hfront : got.length ≤ INCR_SZ → block.take got.length = got) :
    Gathered got [] ⟨⟨some block, size⟩, .readbuf, some got.length, []⟩ := by
  refine ⟨rfl, List.forall_mem_nil _, ?_, block, rfl, hblock, ?_⟩
  · rw [List.flatMap_nil, List.append_nil]
  · rw [List.flatMap_nil, List.append_nil]
    exact hfront

theorem pdapiLoop_round {block : List Byte} {size at_in_buf : Nat} {flags : Flags}
    {realloc : Option (Nat → Byte)} {e : Event} {rounds : List Round}
    (hblock : block.length = INCR_SZ) (heor : ¬endOfRecord flags = true)
    (hret : (pdapiLoop block size at_in_buf flags
      (⟨realloc, e.recv⟩ :: rounds)).ret = .readbuf) :
    ∃ size', e ≠ .error ∧
      pdapiLoop block size at_in_buf flags (⟨realloc, e.recv⟩ :: rounds) =
        let here := area block size' at_in_buf (size' - at_in_buf) e.recv
        let next := pdapiLoop (store block at_in_buf here.data) size'
          (at_in_buf + here.data.length) e.flags rounds
        { next with areas := here :: next.areas } := by
  cases hroom : makeRoom block size at_in_buf realloc with
  | none =>
      rw [pdapiLoop_null heor hroom] at hret
      exact absurd hret null_ne_readbuf
  | some room =>
      obtain ⟨block', size'⟩ := room
      obtain rfl := makeRoom_block hblock hroom
      have he : e ≠ .error := by
        rintro rfl
        rw [pdapiLoop_error heor hroom rfl] at hret
        exact absurd hret null_ne_readbuf
      exact ⟨size', he, pdapiLoop_piece heor hroom (recv_eq_piece he) rounds⟩

theorem pdapiLoop_gathered {rounds : List (Option (Nat → Byte) × Event)}
    {block got : List Byte} {size : Nat} {flags : Flags}
    (hblock : block.length = INCR_SZ)
    (hfront : got.length ≤ INCR_SZ → block.take got.length = got) :
    let r := pdapiLoop block size got.length flags
      (rounds.map fun p => ⟨p.1, p.2.recv⟩)
    let es := untilEor flags (rounds.map Prod.snd)
    (∀ p ∈ r.areas.zip (rounds.map Prod.snd), p.2.bytes.length ≤ p.1.len) →
      r.ret = .readbuf →
        Gathered got es r ∧ endOfRecord (msgFlags flags es) = true := by
  induction rounds generalizing block got size flags with
  | nil =>
      intro r es hfits hret
      by_cases heor : endOfRecord flags = true
      · have hr : r = _ := pdapiLoop_eor heor _
        rw [hr]
        exact ⟨.nil hblock hfront, heor⟩
      · have hr : r = _ := pdapiLoop_nil heor
        rw [hr] at hret
        cases hret
  | cons p rounds ih =>
      intro r es hfits hret
      by_cases heor : endOfRecord flags = true
      · have hr : r = _ := pdapiLoop_eor heor _
        have hes : es = [] := untilEor_of_eor heor _
        rw [hr, hes]
        exact ⟨.nil hblock hfront, heor⟩
      · obtain ⟨realloc, e⟩ := p
        have hes : es = e :: untilEor e.flags (rounds.map Prod.snd) :=
          untilEor_cons heor e _
        obtain ⟨size', he, hr⟩ := pdapiLoop_round hblock heor hret
        change r = _ at hr
        rw [hr] at hfits hret ⊢
        simp only [List.map_cons, List.zip_cons_cons, List.forall_mem_cons] at hfits
        have hdata := delivered_recv e hfits.1
        simp only [area] at hdata hfits hret ⊢
        rw [hdata, ← List.length_append] at hfits hret ⊢
        have hstore := (store_length block got.length e.bytes).trans hblock
        obtain ⟨hnext, hend⟩ := ih hstore (take_store_event hblock hfront)
          hfits.2 hret
        rw [hes]
        exact ⟨.cons he hnext, hend⟩

/-- The block of every call is the first `malloc`, whatever size is recorded. -/
def BlockOk (st : Statics) : Prop :=
  ∀ block, st.readbuf = some block → block.length = INCR_SZ

theorem pdapiFirst_gathered {block : List Byte} {size : Nat} {t : Turn}
    (hblock : block.length = INCR_SZ) :
    let r := pdapiFirst block size t.call
    let es := untilEor 0 t.events
    (∀ p ∈ r.areas.zip t.events, p.2.bytes.length ≤ p.1.len) →
      r.ret = .readbuf →
        Gathered [] es r ∧ endOfRecord (msgFlags 0 es) = true := by
  intro r es hfits hret
  have hopen : ¬endOfRecord 0 = true := by decide
  have hes : es = t.first :: untilEor t.first.flags (t.rounds.map Prod.snd) :=
    untilEor_cons hopen _ _
  by_cases he : t.first = .error
  · have hr : r = _ := pdapiFirst_error (congrArg Event.recv he)
    rw [hr] at hret
    exact absurd hret null_ne_readbuf
  · have hfirst : t.call.first = .piece t.first.bytes t.first.flags :=
      recv_eq_piece he
    simp only [r, pdapiFirst, hfirst] at hfits hret ⊢
    split at hret
    · exact absurd hret null_ne_readbuf
    · rename_i hlong
      rw [if_neg hlong] at hfits ⊢
      simp only [Turn.events, List.zip_cons_cons, List.forall_mem_cons] at hfits
      have hdata := delivered_recv t.first hfits.1
      rw [recv_eq_piece he] at hdata
      simp only [area] at hdata hfits hret ⊢
      rw [hdata] at hfits hret ⊢
      have hstore := (store_length block 0 t.first.bytes).trans hblock
      have hfront := @take_store_event block [] t.first.bytes hblock fun _ => rfl
      obtain ⟨hnext, hend⟩ := pdapiLoop_gathered hstore hfront hfits.2 hret
      rw [hes]
      exact ⟨.cons he hnext, hend⟩

theorem blockOk_some {block : List Byte} (hblock : block.length = INCR_SZ)
    (size : Nat) : BlockOk ⟨some block, size⟩ := by
  rintro _ ⟨⟩
  exact hblock

theorem blockOk_none (size : Nat) : BlockOk ⟨none, size⟩ := by
  rintro _ ⟨⟩

theorem pdapiLoop_blockOk {rounds : List Round} {block : List Byte}
    {size at_in_buf : Nat} {flags : Flags} (hblock : block.length = INCR_SZ) :
    BlockOk (pdapiLoop block size at_in_buf flags rounds).statics := by
  induction rounds generalizing block size at_in_buf flags with
  | nil =>
      by_cases heor : endOfRecord flags = true
      · rw [pdapiLoop_eor heor]
        exact blockOk_some hblock size
      · rw [pdapiLoop_nil heor]
        exact blockOk_some hblock size
  | cons r rounds ih =>
      by_cases heor : endOfRecord flags = true
      · rw [pdapiLoop_eor heor]
        exact blockOk_some hblock size
      · cases hroom : makeRoom block size at_in_buf r.realloc with
        | none =>
            rw [pdapiLoop_null heor hroom]
            exact blockOk_none size
        | some room =>
            obtain ⟨block', size'⟩ := room
            obtain rfl := makeRoom_block hblock hroom
            cases hrecv : r.recv with
            | error =>
                rw [pdapiLoop_error heor hroom hrecv]
                exact blockOk_some hblock size'
            | piece data flags' =>
                rw [pdapiLoop_piece heor hroom hrecv]
                exact ih ((store_length _ _ _).trans hblock)

theorem pdapiFirst_blockOk {block : List Byte} {size : Nat} {c : Call}
    (hblock : block.length = INCR_SZ) :
    BlockOk (pdapiFirst block size c).statics := by
  rw [pdapiFirst]
  split
  · exact blockOk_some hblock size
  · simp only
    split
    · exact blockOk_some hblock size
    · exact pdapiLoop_blockOk ((store_length _ _ _).trans hblock)

theorem pdapiRecvmsg_cases {st : Statics} (hst : BlockOk st) (c : Call) :
    pdapiRecvmsg st c = ⟨st, .null, none, []⟩ ∨
      ∃ block size, block.length = INCR_SZ ∧
        pdapiRecvmsg st c = pdapiFirst block size c := by
  obtain ⟨readbuf, size⟩ := st
  cases readbuf with
  | some block => exact .inr ⟨block, size, hst block rfl, rfl⟩
  | none =>
      cases hmalloc : c.malloc with
      | none => exact .inl (by simp [pdapiRecvmsg, hmalloc])
      | some junk =>
          refine .inr ⟨alloc INCR_SZ junk, INCR_SZ, alloc_length _ _, ?_⟩
          simp [pdapiRecvmsg, hmalloc]

theorem reachable_blockOk {s : Session} (h : system.Reachable s) :
    BlockOk s.statics := by
  apply h.invariant (P := fun s => BlockOk s.statics)
  · rintro s rfl
    exact blockOk_none 0
  · intro s t s' _ hs hstep
    obtain ⟨-, rfl⟩ := guard_eq_some.mp hstep
    change BlockOk (pdapiRecvmsg s.statics t.call).statics
    rcases pdapiRecvmsg_cases hs t.call with heq | ⟨block, size, hblock, heq⟩
    · rw [heq]
      exact hs
    · rw [heq]
      exact pdapiFirst_blockOk hblock

theorem taken_gathered {s : Session} (hs : BlockOk s.statics) {t : Turn}
    (hfits : s.Fits t) (hret : (s.result t).ret = .readbuf) :
    s.taken t = untilEor 0 t.events ∧ Gathered [] (s.taken t) (s.result t) ∧
      endOfRecord (msgFlags 0 (s.taken t)) = true := by
  rcases pdapiRecvmsg_cases hs t.call with heq | ⟨block, size, hblock, heq⟩
  · rw [Session.result, heq] at hret
    exact absurd hret null_ne_readbuf
  · rw [Session.Fits, Session.result, heq] at hfits
    rw [Session.result, heq] at hret
    obtain ⟨hgathered, heor⟩ := pdapiFirst_gathered hblock hfits hret
    have htaken : s.taken t = untilEor 0 t.events := by
      rw [Session.taken, Session.result, heq, hgathered.areas]
      exact take_untilEor 0 t.events
    rw [htaken, Session.result, heq]
    exact ⟨rfl, hgathered, heor⟩

theorem msgFlags_snoc (flags : Flags) (es : List Event) (e : Event) :
    msgFlags flags (es ++ [e]) = e.flags := by
  rw [msgFlags, List.foldl_append]
  rfl

theorem single_of_alone {mid : Bool} {t : Turn} {r : Result}
    (hgathered : Gathered [] (untilEor 0 t.events) r)
    (heor : endOfRecord (msgFlags 0 (untilEor 0 t.events)) = true)
    (h : Alone mid t) : Single mid (untilEor 0 t.events) r := by
  have hholds := hgathered.holds_iff.mpr h.1
  have hopen : ¬endOfRecord 0 = true := by decide
  rcases h.2 with hnotice | ⟨hmid, hnone⟩
  · cases hfirst : t.first with
    | notice bytes aborts =>
        have hes : untilEor 0 t.events = [.notice bytes aborts] := by
          rw [Turn.events, hfirst, untilEor_cons hopen,
            untilEor_of_eor (endOfRecord_notice bytes aborts)]
        refine .inl ⟨bytes, aborts, hes, ?_⟩
        rw [hes] at hholds
        simpa [Event.bytes] using hholds
    | error => simp [hfirst, Event.isNotice] at hnotice
    | data bytes last => simp [hfirst, Event.isNotice] at hnotice
  · obtain ⟨pieces, last, hes⟩ := untilEor_data hopen
      (fun e he => ⟨hgathered.noError e he, hnone e he⟩) heor
    rw [hes] at hholds ⊢
    refine .inr ⟨hmid, ?_, pieces, last, rfl, ?_⟩
    · rw [msgFlags_snoc]
      exact (by decide : isNotification MSG_EOR = false)
    · simpa [List.flatMap_map, Event.bytes, List.flatMap_id'] using hholds

theorem alone_of_single {mid : Bool} {t : Turn} {r : Result}
    (hgathered : Gathered [] (untilEor 0 t.events) r)
    (h : Single mid (untilEor 0 t.events) r) : Alone mid t := by
  have hopen : ¬endOfRecord 0 = true := by decide
  have hfirst : untilEor 0 t.events =
      t.first :: untilEor t.first.flags (t.rounds.map Prod.snd) :=
    untilEor_cons hopen _ _
  rcases h with ⟨bytes, aborts, hes, hholds⟩ |
    ⟨hmid, -, pieces, last, hes, hholds⟩
  · refine ⟨hgathered.holds_iff.mp ?_, .inl ?_⟩
    · rw [hes]
      simpa [Event.bytes] using hholds
    · rw [hes] at hfirst
      rw [← (List.cons.inj hfirst).1]
      rfl
  · refine ⟨hgathered.holds_iff.mp ?_, .inr ⟨hmid, ?_⟩⟩
    · rw [hes]
      simpa [List.flatMap_map, Event.bytes, List.flatMap_id'] using hholds
    · rw [hes]
      intro e he
      rcases List.mem_append.mp he with he | he
      · obtain ⟨piece, -, rfl⟩ := List.mem_map.mp he
        rfl
      · obtain rfl := List.mem_singleton.mp he
        rfl

/-- In whatever state the calls so far have left the buffer and the socket, a
call that returns the buffer returns the pieces of one message or one
notification exactly when what comes up to `MSG_EOR` is that alone, begins at
its beginning and fits the block. -/
theorem pdapiRecvmsg_single_iff {s : Session} (hs : system.Reachable s)
    {t : Turn} (hfits : s.Fits t) (hret : (s.result t).ret = .readbuf) :
    Single s.mid (s.taken t) (s.result t) ↔ Alone s.mid t := by
  obtain ⟨htaken, hgathered, heor⟩ :=
    taken_gathered (reachable_blockOk hs) hfits hret
  rw [htaken] at hgathered heor ⊢
  exact ⟨alone_of_single hgathered, single_of_alone hgathered heor⟩

def threePieces : Turn where
  malloc := some fun _ => 0
  first := .data [104] false
  rounds := [(none, .data [101, 108] false), (none, .data [108, 111] true)]

theorem pdapiRecvmsg_single_iff_threePieces :
    Single false ((⟨.start, false⟩ : Session).taken threePieces)
      ((⟨.start, false⟩ : Session).result threePieces) :=
  (pdapiRecvmsg_single_iff ⟨[], _, rfl, rfl⟩ (t := threePieces) (by decide) (by decide)).mpr
    (by decide)

def aborted : Turn where
  malloc := some fun _ => 0
  first := .data [97] false
  rounds := [(none, .notice ([6, 128, 0, 0, 24, 0, 0, 0] ++ List.replicate 16 0) true)]

theorem aborted_message_mixed :
    ¬∀ (s : Session) (t : Turn), system.Reachable s → s.Fits t →
      (s.result t).ret = .readbuf → Single s.mid (s.taken t) (s.result t) := by
  intro hall
  have hs : system.Reachable ⟨.start, false⟩ := ⟨[], _, rfl, rfl⟩
  have hfits : (⟨.start, false⟩ : Session).Fits aborted := by decide
  have hret : ((⟨.start, false⟩ : Session).result aborted).ret = .readbuf := by decide
  have hsingle := hall _ aborted hs hfits hret
  obtain ⟨htaken, hgathered, -⟩ :=
    taken_gathered (reachable_blockOk hs) hfits hret
  rw [htaken] at hgathered hsingle
  exact absurd (alone_of_single hgathered hsingle) (by decide)

end MyUnp.PartialDeliveryKinds
