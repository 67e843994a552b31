import MyUnp.PartialDelivery

namespace MyUnp.PartialDeliveryLaw

open MyUnp.MemoryBlock
open MyUnp.PartialDelivery
open MyUnp.Unp

/-- Each area lies inside a block of the recorded size, right behind the bytes
received so far, which are still in place. -/
def AreasOk : List Byte → List RecvArea → Prop
  | _, [] => True
  | got, a :: areas =>
      a.offset + a.len ≤ a.block ∧ a.block = a.recorded ∧
        a.offset = got.length ∧ a.front = got ∧ AreasOk (got ++ a.data) areas

/-- What `pdapi_recvmsg` owes its callers, with `got` received beforehand. -/
structure Law (got : List Byte) (r : Result) : Prop where
  areas : AreasOk got r.areas
  size : ∀ block, r.statics.readbuf = some block →
    block.length = r.statics.rdbuf_sz
  message : r.ret = .readbuf → ∃ (block : List Byte) (n : Nat),
    r.statics.readbuf = some block ∧ r.rdlen = some (n : Int) ∧
      block.take n = got ++ (r.areas.map RecvArea.data).flatten ∧
      n = (got ++ (r.areas.map RecvArea.data).flatten).length

def Unchanged (st : Statics) : Prop :=
  ∀ block, st.readbuf = some block →
    block.length = INCR_SZ ∧ st.rdbuf_sz = INCR_SZ

/-- After `got` bytes the rest of the message makes the buffer grow at no
point, unless to a `realloc` that fails. -/
def LoopWithin : Nat → Flags → List Round → Prop
  | _, _, [] => True
  | got, flags, r :: rounds =>
      endOfRecord flags = true ∨
        if INCR_SZ - got < NEED_MODE_THRESHOLD then r.realloc = none
        else
          match r.recv with
          | .error => True
          | .piece data flags => LoopWithin (got + data.length) flags rounds

def FirstWithin (c : Call) : Prop :=
  match c.first with
  | .error => True
  | .piece data flags => data = [] ∨ LoopWithin data.length flags c.rounds

def CallWithin (st : Statics) (c : Call) : Prop :=
  (st.readbuf = none → c.malloc ≠ none) → FirstWithin c

theorem length_delivered (data : List Byte) (flags : Flags) {got n : Nat}
    (hgot : got = min n INCR_SZ) :
    got + ((Recv.piece data flags).delivered (INCR_SZ - got)).length =
      min (n + data.length) INCR_SZ := by
  simp only [Recv.delivered, List.length_take]
  omega

theorem delivered_length_le (r : Recv) (len : Nat) :
    (r.delivered len).length ≤ len := by
  cases r with
  | error => exact Nat.zero_le _
  | piece data flags => exact List.length_take_le _ _

section Loop

variable {block : List Byte} {size at_in_buf : Nat} {flags : Flags}

theorem pdapiLoop_eor (h : endOfRecord flags = true) (rounds : List Round) :
    pdapiLoop block size at_in_buf flags rounds =
      ⟨⟨some block, size⟩, .readbuf, some at_in_buf, []⟩ := by
  cases rounds <;> simp [pdapiLoop, h]

theorem pdapiLoop_nil (h : ¬endOfRecord flags = true) :
    pdapiLoop block size at_in_buf flags [] =
      ⟨⟨some block, size⟩, .waiting, none, []⟩ := by
  simp [pdapiLoop, h]

theorem pdapiLoop_null (h : ¬endOfRecord flags = true) {r : Round}
    (hroom : makeRoom block size at_in_buf r.realloc = none)
    (rounds : List Round) :
    pdapiLoop block size at_in_buf flags (r :: rounds) =
      ⟨⟨none, size⟩, .null, none, []⟩ := by
  simp [pdapiLoop, h, hroom]

theorem pdapiLoop_error (h : ¬endOfRecord flags = true) {r : Round}
    {block' : List Byte} {size' : Nat}
    (hroom : makeRoom block size at_in_buf r.realloc = some (block', size'))
    (hrecv : r.recv = .error) (rounds : List Round) :
    pdapiLoop block size at_in_buf flags (r :: rounds) =
      ⟨⟨some block', size'⟩, .null, none,
        [area block' size' at_in_buf (size' - at_in_buf) .error]⟩ := by
  simp [pdapiLoop, h, hroom, hrecv]

theorem pdapiLoop_piece (h : ¬endOfRecord flags = true) {r : Round}
    {block' data : List Byte} {size' : Nat} {flags' : Flags}
    (hroom : makeRoom block size at_in_buf r.realloc = some (block', size'))
    (hrecv : r.recv = .piece data flags') (rounds : List Round) :
    pdapiLoop block size at_in_buf flags (r :: rounds) =
      let here := area block' size' at_in_buf (size' - at_in_buf) r.recv
      let next := pdapiLoop (store block' at_in_buf here.data) size'
        (at_in_buf + here.data.length) flags' rounds
      { next with areas := here :: next.areas } := by
  simp [pdapiLoop, h, hroom, hrecv]

theorem not_areasOk_of_grown {r : Round} {junk : Nat → Byte}
    (h : ¬endOfRecord flags = true)
    (hleft : INCR_SZ - at_in_buf < NEED_MODE_THRESHOLD)
    (hrealloc : r.realloc = some junk) (got : List Byte) (rounds : List Round) :
    ¬AreasOk got
      (pdapiLoop block INCR_SZ at_in_buf flags (r :: rounds)).areas := by
  have hroom : makeRoom block INCR_SZ at_in_buf r.realloc =
      some (resize block INCR_SZ junk, INCR_SZ + INCR_SZ) := by
    simp [makeRoom, hleft, hrealloc]
  have hpos : 0 < INCR_SZ := by decide
  cases hrecv : r.recv with
  | error =>
      rw [pdapiLoop_error h hroom hrecv]
      rintro ⟨-, hblock, -⟩
      simp only [area, resize_length] at hblock
      omega
  | piece data flags' =>
      rw [pdapiLoop_piece h hroom hrecv]
      rintro ⟨-, hblock, -⟩
      simp only [area, resize_length] at hblock
      omega

end Loop

theorem areasOk_cons {block got : List Byte} (hblock : block.length = INCR_SZ)
    (hfront : block.take got.length = got) (hle : got.length ≤ INCR_SZ)
    (r : Recv) (areas : List RecvArea) :
    let here := area block INCR_SZ got.length (INCR_SZ - got.length) r
    AreasOk got (here :: areas) ↔ AreasOk (got ++ here.data) areas := by
  constructor
  · rintro ⟨-, -, -, -, h⟩
    exact h
  · intro h
    refine ⟨?_, hblock, rfl, hfront, h⟩
    simp only [area]
    omega

theorem Law.cons {got : List Byte} {a : RecvArea} {r : Result}
    (ha : AreasOk got [a]) (h : Law (got ++ a.data) r) :
    Law got { r with areas := a :: r.areas } := by
  obtain ⟨hin, hrec, hoff, hfront, -⟩ := ha
  refine ⟨⟨hin, hrec, hoff, hfront, h.areas⟩, h.size, fun hret => ?_⟩
  simpa using h.message hret

theorem law_eor {block got : List Byte} (hblock : block.length = INCR_SZ)
    (hfront : block.take got.length = got) :
    Law got ⟨⟨some block, INCR_SZ⟩, .readbuf, some got.length, []⟩ := by
  refine ⟨trivial, ?_, fun _ => ⟨block, got.length, rfl, rfl, ?_, ?_⟩⟩
  · rintro _ ⟨⟩
    exact hblock
  · simpa using hfront
  · simp

theorem null_ne_readbuf : ¬Ret.null = .readbuf := by decide

theorem law_stop {st : Statics} {ret : Ret} (hst : Unchanged st)
    (hret : ¬ret = .readbuf) (got : List Byte) (rdlen : Option Int) :
    Law got ⟨st, ret, rdlen, []⟩ := by
  refine ⟨trivial, ?_, fun h => absurd h hret⟩
  intro block hblock
  obtain ⟨hlen, hsz⟩ := hst block hblock
  exact hlen.trans hsz.symm

theorem unchanged_some {block : List Byte} (hblock : block.length = INCR_SZ) :
    Unchanged ⟨some block, INCR_SZ⟩ := by
  rintro _ ⟨⟩
  exact ⟨hblock, rfl⟩

theorem unchanged_start : Unchanged .start := nofun

theorem unchanged_none (size : Nat) : Unchanged ⟨none, size⟩ := nofun

theorem store_piece {block got : List Byte} {r : Recv}
    (hblock : block.length = INCR_SZ) (hfront : block.take got.length = got)
    (hle : got.length ≤ INCR_SZ) :
    let here := area block INCR_SZ got.length (INCR_SZ - got.length) r
    (store block got.length here.data).length = INCR_SZ ∧
      (store block got.length here.data).take (got ++ here.data).length =
        got ++ here.data := by
  have hdata := delivered_length_le r (INCR_SZ - got.length)
  constructor
  · rw [store_length, hblock]
  · rw [List.length_append]
    refine take_store hfront ?_
    simp only [area]
    omega

theorem pdapiLoop_law {rounds : List Round} {block got : List Byte} {n : Nat}
    {flags : Flags} (hblock : block.length = INCR_SZ)
    (hfront : block.take got.length = got) (hn : got.length = min n INCR_SZ)
    (hwithin : LoopWithin n flags rounds) :
    let r := pdapiLoop block INCR_SZ got.length flags rounds
    Law got r ∧ Unchanged r.statics := by
  induction rounds generalizing block got n flags with
  | nil =>
      by_cases heor : endOfRecord flags = true
      · rw [pdapiLoop_eor heor]
        exact ⟨law_eor hblock hfront, unchanged_some hblock⟩
      · rw [pdapiLoop_nil heor]
        exact ⟨law_stop (unchanged_some hblock) (by decide) got none,
          unchanged_some hblock⟩
  | cons r rounds ih =>
      have hle : got.length ≤ INCR_SZ := hn ▸ Nat.min_le_right _ _
      by_cases heor : endOfRecord flags = true
      · rw [pdapiLoop_eor heor]
        exact ⟨law_eor hblock hfront, unchanged_some hblock⟩
      · have hcase := hwithin.resolve_left heor
        by_cases hleft : INCR_SZ - n < NEED_MODE_THRESHOLD
        -- staying within means that this `realloc` fails
        · rw [if_pos hleft] at hcase
          have hroom : makeRoom block INCR_SZ got.length r.realloc = none := by
            rw [makeRoom, if_pos (by omega), hcase]
            rfl
          rw [pdapiLoop_null heor hroom]
          exact ⟨law_stop (unchanged_none _) (by decide) got none,
            unchanged_none _⟩
        · rw [if_neg hleft] at hcase
          have hroom : makeRoom block INCR_SZ got.length r.realloc =
              some (block, INCR_SZ) := if_neg (by omega)
          have harea := (areasOk_cons hblock hfront hle r.recv []).mpr trivial
          cases hrecv : r.recv with
          | error =>
              rw [pdapiLoop_error heor hroom hrecv]
              rw [hrecv] at harea
              have hstop := law_stop (unchanged_some hblock) null_ne_readbuf (got ++ [])
                none
              exact ⟨hstop.cons harea, unchanged_some hblock⟩
          | piece data flags' =>
              rw [pdapiLoop_piece heor hroom hrecv]
              rw [hrecv] at harea hcase
              obtain ⟨hlen, htake⟩ := store_piece (r := .piece data flags')
                hblock hfront hle
              have hnext := length_delivered data flags' hn
              rw [← List.length_append] at hnext
              have htail := ih hlen htake hnext hcase
              rw [List.length_append] at htail
              rw [hrecv]
              exact ⟨htail.1.cons harea, htail.2⟩

theorem loopWithin_of_areasOk {rounds : List Round} {block got : List Byte}
    {n : Nat} {flags : Flags} (hblock : block.length = INCR_SZ)
    (hn : got.length = min n INCR_SZ)
    (h : AreasOk got (pdapiLoop block INCR_SZ got.length flags rounds).areas) :
    LoopWithin n flags rounds := by
  induction rounds generalizing block got n flags with
  | nil => trivial
  | cons r rounds ih =>
      by_cases heor : endOfRecord flags = true
      · exact .inl heor
      · refine .inr ?_
        by_cases hleft : INCR_SZ - n < NEED_MODE_THRESHOLD
        · rw [if_pos hleft]
          cases hrealloc : r.realloc with
          | none => rfl
          | some junk =>
              exact absurd h (not_areasOk_of_grown heor (by omega) hrealloc _ _)
        · rw [if_neg hleft]
          have hroom : makeRoom block INCR_SZ got.length r.realloc =
              some (block, INCR_SZ) := if_neg (by omega)
          cases hrecv : r.recv with
          | error => trivial
          | piece data flags' =>
              rw [pdapiLoop_piece heor hroom hrecv, hrecv] at h
              obtain ⟨-, -, -, -, htail⟩ := h
              have hnext := length_delivered data flags' hn
              rw [← List.length_append] at hnext
              have hlen := (store_length block got.length
                ((Recv.piece data flags').delivered (INCR_SZ - got.length))).trans
                hblock
              refine ih hlen hnext ?_
              rw [List.length_append]
              exact htail

section Call

variable {block : List Byte} {c : Call}

theorem pdapiFirst_error {size : Nat} (hfirst : c.first = .error) :
    pdapiFirst block size c =
      ⟨⟨some block, size⟩, .null, some (-1), [area block size 0 size .error]⟩ := by
  simp [pdapiFirst, hfirst]

theorem pdapiFirst_empty {size : Nat} {flags : Flags}
    (hfirst : c.first = .piece [] flags) :
    pdapiFirst block size c =
      ⟨⟨some block, size⟩, .null, some 0,
        [area block size 0 size (.piece [] flags)]⟩ := by
  simp [pdapiFirst, hfirst, area, Recv.delivered]

theorem pdapiFirst_piece {flags : Flags} {data : List Byte}
    (hfirst : c.first = .piece data flags) (hdata : data ≠ []) :
    pdapiFirst block INCR_SZ c =
      let here := area block INCR_SZ 0 INCR_SZ (.piece data flags)
      let next := pdapiLoop (store block 0 here.data) INCR_SZ here.data.length
        flags c.rounds
      { next with areas := here :: next.areas } := by
  have hpos : 0 < data.length := List.length_pos_iff.mpr hdata
  have hincr : 0 < INCR_SZ := by decide
  have hlong : ¬(area block INCR_SZ 0 INCR_SZ (.piece data flags)).data.length < 1 := by
    simp only [area, Recv.delivered, List.length_take]
    omega
  simp only [pdapiFirst, hfirst, if_neg hlong]

theorem take_nil_length (block : List Byte) :
    block.take ([] : List Byte).length = [] := rfl

theorem areasOk_first (hblock : block.length = INCR_SZ) (r : Recv) :
    AreasOk [] [area block INCR_SZ 0 INCR_SZ r] :=
  (areasOk_cons hblock (take_nil_length block) (Nat.zero_le _) r []).mpr trivial

theorem pdapiFirst_law (hblock : block.length = INCR_SZ) (h : FirstWithin c) :
    Law [] (pdapiFirst block INCR_SZ c) ∧
      Unchanged (pdapiFirst block INCR_SZ c).statics := by
  have hkeep := unchanged_some hblock
  have hstop := law_stop hkeep null_ne_readbuf []
  cases hfirst : c.first with
  | error =>
      rw [pdapiFirst_error hfirst]
      exact ⟨(hstop _).cons (areasOk_first hblock .error), hkeep⟩
  | piece data flags =>
      have harea := areasOk_first hblock (.piece data flags)
      by_cases hdata : data = []
      · subst hdata
        rw [pdapiFirst_empty hfirst]
        exact ⟨(hstop _).cons harea, hkeep⟩
      · rw [pdapiFirst_piece hfirst hdata]
        simp only [FirstWithin, hfirst, hdata, false_or] at h
        obtain ⟨hlen, htake⟩ := store_piece (r := .piece data flags) hblock
          (take_nil_length block) (Nat.zero_le _)
        have hn := length_delivered data flags (n := 0) rfl
        have htail := pdapiLoop_law hlen htake (by simpa [area] using hn) h
        exact ⟨htail.1.cons harea, htail.2⟩

theorem firstWithin_of_areasOk (hblock : block.length = INCR_SZ)
    (h : AreasOk [] (pdapiFirst block INCR_SZ c).areas) : FirstWithin c := by
  cases hfirst : c.first with
  | error => simp [FirstWithin, hfirst]
  | piece data flags =>
      by_cases hdata : data = []
      · simp [FirstWithin, hfirst, hdata]
      · rw [pdapiFirst_piece hfirst hdata] at h
        obtain ⟨-, -, -, -, htail⟩ := h
        have hn := length_delivered data flags (n := 0) rfl
        have hloop := loopWithin_of_areasOk ((store_length _ _ _).trans hblock)
          (by simpa [area] using hn) htail
        simpa [FirstWithin, hfirst, hdata] using hloop

end Call

/-- One call, from statics that no call has grown: it keeps the law exactly
when its message stays within the buffer, and then leaves such statics again. -/
theorem pdapiRecvmsg_step {st : Statics} (hst : Unchanged st) (c : Call) :
    (Law [] (pdapiRecvmsg st c) ↔ CallWithin st c) ∧
      (CallWithin st c → Unchanged (pdapiRecvmsg st c).statics) := by
  obtain ⟨readbuf, size⟩ := st
  cases readbuf with
  | none =>
      cases hmalloc : c.malloc with
      | none =>
          have heq : pdapiRecvmsg ⟨none, size⟩ c =
              ⟨⟨none, size⟩, .null, none, []⟩ := by
            simp [pdapiRecvmsg, hmalloc]
          have hwithin : CallWithin ⟨none, size⟩ c := fun h =>
            absurd hmalloc (h rfl)
          rw [heq]
          exact ⟨⟨fun _ => hwithin, fun _ => law_stop hst (by decide) [] none⟩,
            fun _ => hst⟩
      | some junk =>
          have heq : pdapiRecvmsg ⟨none, size⟩ c =
              pdapiFirst (alloc INCR_SZ junk) INCR_SZ c := by
            simp [pdapiRecvmsg, hmalloc]
          have hblock := alloc_length INCR_SZ junk
          have hwithin : CallWithin ⟨none, size⟩ c ↔ FirstWithin c := by
            simp [CallWithin, hmalloc]
          rw [heq, hwithin]
          exact ⟨⟨fun h => firstWithin_of_areasOk hblock h.areas,
            fun h => (pdapiFirst_law hblock h).1⟩,
            fun h => (pdapiFirst_law hblock h).2⟩
  | some block =>
      obtain ⟨hblock, rfl⟩ := hst block rfl
      have hwithin : CallWithin ⟨some block, INCR_SZ⟩ c ↔ FirstWithin c := by
        simp [CallWithin]
      rw [hwithin]
      exact ⟨⟨fun h => firstWithin_of_areasOk hblock h.areas,
        fun h => (pdapiFirst_law hblock h).1⟩,
        fun h => (pdapiFirst_law hblock h).2⟩

theorem steps_law_iff {st : Statics} (hst : Unchanged st) (calls : List Call) :
    (∀ p ∈ steps st calls, Law [] (pdapiRecvmsg p.1 p.2)) ↔
      ∀ p ∈ steps st calls, CallWithin p.1 p.2 := by
  induction calls generalizing st with
  | nil => simp [steps]
  | cons c calls ih =>
      obtain ⟨hlaw, hkeep⟩ := pdapiRecvmsg_step hst c
      simp only [steps, List.forall_mem_cons, hlaw]
      refine and_congr_right fun hwithin => ?_
      by_cases hret : (pdapiRecvmsg st c).ret = .waiting
      · simp [hret]
      · simp only [hret, if_false]
        exact ih (hkeep hwithin)

/-- `pdapi_recvmsg` keeps its block as large as it records, reads into it only,
and returns the concatenation of the pieces, in exactly those sequences of
calls in which no message goes on with fewer than
`SCTP_PDAPI_NEED_MODE_THRESHOLD` bytes of the first block left, unless
`realloc` then fails. -/
theorem pdapiRecvmsg_law_iff (calls : List Call) :
    (∀ p ∈ steps .start calls, Law [] (pdapiRecvmsg p.1 p.2)) ↔
      ∀ p ∈ steps .start calls, CallWithin p.1 p.2 :=
  steps_law_iff unchanged_start calls

def twoPieces (data : List Byte) : Call where
  malloc := some fun _ => 0
  first := .piece data 0
  rounds := [⟨some fun _ => 0, .piece [1] MSG_EOR⟩]

/-- After 65000 bytes the block is reallocated to its old size but recorded as
twice that. -/
theorem pdapiRecvmsg_grown :
    ¬∀ p ∈ steps .start [twoPieces (List.replicate 65000 0)],
      Law [] (pdapiRecvmsg p.1 p.2) := by
  have hlen : (List.replicate 65000 (0 : Byte)).length = 65000 :=
    List.length_replicate
  generalize List.replicate 65000 (0 : Byte) = data at hlen
  intro hlaw
  have h := (steps_law_iff unchanged_start _).mp hlaw
  have hwithin := h (.start, twoPieces data) (by simp [steps]) (by simp [twoPieces])
  rcases hwithin with rfl | hloop
  · simp at hlen
  · have heor : ¬endOfRecord 0 = true := by decide
    have hnone := hloop.resolve_left heor
    rw [hlen, if_pos (by decide)] at hnone
    simp at hnone

end MyUnp.PartialDeliveryLaw
