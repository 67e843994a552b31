import MyUnp.MemoryBlock
import MyUnp.Unp

/-!
`pdapi_recvmsg` of `sctp_pdapi_rcv.c`: the reassembly of a message that SCTP
delivers in pieces, in a static buffer that is meant to grow.
-/

namespace MyUnp.PartialDelivery

open MyUnp.MemoryBlock
open MyUnp.Unp

def INCR_SZ : Nat := 65535

def NEED_MODE_THRESHOLD : Nat := 1024

abbrev Flags := BitVec 32

def MSG_EOR : Flags := 0x80

def endOfRecord (flags : Flags) : Bool := flags &&& MSG_EOR != 0

def MSG_NOTIFICATION : Flags := 0x8000

def isNotification (flags : Flags) : Bool := flags &&& MSG_NOTIFICATION != 0

/-- `sctp_pdapi_readbuf` with the block it points to, and
`sctp_pdapi_rdbuf_sz`. -/
structure Statics where
  readbuf : Option (List Byte)
  rdbuf_sz : Nat

def Statics.start : Statics := ⟨none, 0⟩

/-- What the kernel has for one `sctp_recvmsg`: a negative result, which leaves
`msg_flags` alone, or a piece with its flags. Sender address and association
data go to the caller unread and are left out. -/
inductive Recv where
  | error
  | piece (data : List Byte) (flags : Flags)

def Recv.delivered (r : Recv) (len : Nat) : List Byte :=
  match r with
  | .error => []
  | .piece data _ => data.take len

/-- One round of the reassembly loop: what `realloc` answers if it is asked
(`none` for NULL, otherwise the contents of the cells it adds) and what
`sctp_recvmsg` returns. -/
structure Round where
  realloc : Option (Nat → Byte)
  recv : Recv

/-- The answers one call of `pdapi_recvmsg` gets. When `rounds` runs out the
call is still waiting in `sctp_recvmsg`. -/
structure Call where
  malloc : Option (Nat → Byte)
  first : Recv
  rounds : List Round

/-- The area one `sctp_recvmsg` was given: `len` bytes from `offset` on, in a
block of `block` bytes whose recorded size was `recorded` and whose bytes in
front of the area were `front`; and what it delivered. -/
structure RecvArea where
  offset : Nat
  len : Nat
  block : Nat
  recorded : Nat
  front : List Byte
  data : List Byte

inductive Ret where
  | waiting
  | null
  | readbuf
  deriving DecidableEq

/-- How a call leaves things: `rdlen` is `none` where `*rdlen` was not set. -/
structure Result where
  statics : Statics
  ret : Ret
  rdlen : Option Int
  areas : List RecvArea

def area (block : List Byte) (recorded offset len : Nat) (r : Recv) :
    RecvArea where
  offset := offset
  len := len
  block := block.length
  recorded := recorded
  front := block.take offset
  data := r.delivered len

/-- The growth branch: the block is reallocated to `SCTP_PDAPI_INCR_SZ` bytes
while the recorded size goes up by as many. `none` where `realloc` fails. -/
def makeRoom (block : List Byte) (size atInBuf : Nat)
    (realloc : Option (Nat → Byte)) : Option (List Byte × Nat) :=
  if size - atInBuf < NEED_MODE_THRESHOLD then
    realloc.map fun junk => (resize block INCR_SZ junk, size + INCR_SZ)
  else some (block, size)

/-- The `while` loop, with `atInBuf` bytes of the block filled. `atInBuf` never
exceeds the recorded size, so `left` does not go below 0. -/
def pdapiLoop (block : List Byte) (size atInBuf : Nat) (flags : Flags) :
    List Round → Result
  | [] =>
      if endOfRecord flags then
        ⟨⟨some block, size⟩, .readbuf, some atInBuf, []⟩
      else ⟨⟨some block, size⟩, .waiting, none, []⟩
  | r :: rounds =>
      if endOfRecord flags then
        ⟨⟨some block, size⟩, .readbuf, some atInBuf, []⟩
      else
        match makeRoom block size atInBuf r.realloc with
        | none => ⟨⟨none, size⟩, .null, none, []⟩
        | some (block, size) =>
            let here := area block size atInBuf (size - atInBuf) r.recv
            match r.recv with
            | .error => ⟨⟨some block, size⟩, .null, none, [here]⟩
            | .piece _ flags =>
                let next := pdapiLoop (store block atInBuf here.data) size
                  (atInBuf + here.data.length) flags rounds
                { next with areas := here :: next.areas }

def pdapiFirst (block : List Byte) (size : Nat) (c : Call) : Result :=
  let here := area block size 0 size c.first
  match c.first with
  | .error => ⟨⟨some block, size⟩, .null, some (-1), [here]⟩
  | .piece _ flags =>
      if here.data.length < 1 then
        ⟨⟨some block, size⟩, .null, some here.data.length, [here]⟩
      else
        let next := pdapiLoop (store block 0 here.data) size here.data.length
          flags c.rounds
        { next with areas := here :: next.areas }

def pdapiRecvmsg (st : Statics) (c : Call) : Result :=
  match st.readbuf with
  | some block => pdapiFirst block st.rdbuf_sz c
  | none =>
      match c.malloc with
      | none => ⟨st, .null, none, []⟩
      | some junk => pdapiFirst (alloc INCR_SZ junk) INCR_SZ c

/-- A sequence of calls, each with the statics it starts from. A call that is
still waiting is the last one. -/
def steps : Statics → List Call → List (Statics × Call)
  | _, [] => []
  | st, c :: cs =>
      (st, c) ::
        if (pdapiRecvmsg st c).ret = .waiting then []
        else steps (pdapiRecvmsg st c).statics cs

end MyUnp.PartialDelivery
