import MyUnp.PartialDeliveryLaw

namespace MyUnp.PartialDeliveryEnd

open MyUnp.MemoryBlock MyUnp.PartialDelivery MyUnp.PartialDeliveryLaw MyUnp.Unp

structure Answers where
  malloc : Option (Nat → Byte)
  first : Recv
  rounds : Nat → Round

def Answers.call (a : Answers) (n : Nat) : Call :=
  ⟨a.malloc, a.first, (List.range n).map a.rounds⟩

def Returns (st : Statics) (a : Answers) (r : Result) : Prop :=
  r.ret ≠ .waiting ∧ ∃ n, pdapiRecvmsg st (a.call n) = r

def Valid (st : Statics) : Prop :=
  ∀ block, st.readbuf = some block → block.length = st.rdbuf_sz

/-- A NULL comes with a length below 1 in `*rdlen`, and the next call can use the
buffer. -/
structure Reports (r : Result) : Prop where
  rdlen : r.ret = .null → ∃ k, r.rdlen = some k ∧ k < 1
  statics : Valid r.statics

def EndsAndReports (st : Statics) (a : Answers) : Prop :=
  (∃ r, Returns st a r) ∧ ∀ r, Returns st a r → Reports r

/-- In a buffer of `size` bytes with `got` of them filled: `MSG_EOR` comes before a
`sctp_recvmsg` fails and before there is too little room to go on. -/
def Completes (size : Nat) : Nat → Flags → List Round → Prop
  | _, flags, [] => endOfRecord flags = true
  | got, flags, r :: rounds =>
      endOfRecord flags = true ∨
        ¬ size - got < NEED_MODE_THRESHOLD ∧
          match r.recv with
          | .error => False
          | .piece data flags =>
              Completes size (got + (data.take (size - got)).length) flags rounds

/-- The first `sctp_recvmsg` returns less than 1, or the message it begins is
completed. -/
def FirstCompletes (size : Nat) (c : Call) : Prop :=
  match c.first with
  | .error => True
  | .piece data flags =>
      (data.take size).length < 1 ∨ Completes size (data.take size).length flags c.rounds

def CallCompletes (st : Statics) (c : Call) : Prop :=
  match st.readbuf with
  | some _ => FirstCompletes st.rdbuf_sz c
  | none => c.malloc ≠ none ∧ FirstCompletes INCR_SZ c

def Good (r : Result) : Prop := r.ret ≠ .waiting ∧ Reports r

theorem valid_some {block : List Byte} {size : Nat} :
    Valid ⟨some block, size⟩ ↔ block.length = size := by
  constructor
  · intro h
    exact h block rfl
  · rintro h _ ⟨⟩
    exact h

theorem not_good_of_rdlen {st : Statics} {areas : List RecvArea} :
    ¬ Good ⟨st, .null, none, areas⟩ := by
  rintro ⟨_, hrdlen, _⟩
  obtain ⟨k, hk, _⟩ := hrdlen rfl
  cases hk

theorem good_areas {r : Result} (areas : List RecvArea) :
    Good { r with areas := areas } ↔ Good r :=
  ⟨fun ⟨hret, hrdlen, hst⟩ => ⟨hret, hrdlen, hst⟩,
    fun ⟨hret, hrdlen, hst⟩ => ⟨hret, hrdlen, hst⟩⟩

section Loop

variable {block : List Byte} {size got : Nat} {flags : Flags}

theorem good_eor : Good ⟨⟨some block, size⟩, .readbuf, some got, []⟩ ↔ block.length = size := by
  constructor
  · rintro ⟨_, _, hst⟩
    exact valid_some.mp hst
  · intro h
    exact ⟨Ret.noConfusion, fun hnull => Ret.noConfusion hnull, valid_some.mpr h⟩

theorem not_good_waiting (st : Statics) (areas : List RecvArea) :
    ¬ Good ⟨st, .waiting, none, areas⟩ := fun h => h.1 rfl

theorem good_round_iff {r : Round} {rounds : List Round} {block' : List Byte} {size' : Nat}
    (heor : ¬ endOfRecord flags = true)
    (hroom : makeRoom block size got r.realloc = some (block', size')) :
    Good (pdapiLoop block size got flags (r :: rounds)) ↔
      match r.recv with
      | .error => False
      | .piece data flags' =>
          Good (pdapiLoop (store block' got (data.take (size' - got))) size'
            (got + (data.take (size' - got)).length) flags' rounds) := by
  cases hrecv : r.recv with
  | error =>
      rw [pdapiLoop_error heor hroom hrecv]
      exact iff_of_false not_good_of_rdlen id
  | piece data flags' =>
      have hdata : (area block' size' got (size' - got) r.recv).data =
          data.take (size' - got) := by
        rw [hrecv]
        rfl
      rw [pdapiLoop_piece heor hroom hrecv]
      dsimp only
      rw [good_areas, hdata]

theorem makeRoom_grown {realloc : Option (Nat → Byte)} {block' : List Byte} {size' : Nat}
    (hgrown : block.length < size)
    (hroom : makeRoom block size got realloc = some (block', size')) :
    block'.length < size' := by
  rw [makeRoom] at hroom
  split_ifs at hroom
  · obtain ⟨junk, _, heq⟩ := Option.map_eq_some_iff.mp hroom
    obtain ⟨rfl, rfl⟩ := Prod.mk.inj heq
    rw [resize_length]
    omega
  · obtain ⟨rfl, rfl⟩ := Prod.mk.inj (Option.some.inj hroom)
    exact hgrown

theorem not_good_of_grown (hgrown : block.length < size) (rounds : List Round) :
    ¬ Good (pdapiLoop block size got flags rounds) := by
  induction rounds generalizing block size got flags with
  | nil =>
      by_cases heor : endOfRecord flags = true
      · rw [pdapiLoop_eor heor, good_eor]
        omega
      · rw [pdapiLoop_nil heor]
        exact not_good_waiting _ _
  | cons r rounds ih =>
      by_cases heor : endOfRecord flags = true
      · rw [pdapiLoop_eor heor, good_eor]
        omega
      · cases hroom : makeRoom block size got r.realloc with
        | none =>
            rw [pdapiLoop_null heor hroom]
            exact not_good_of_rdlen
        | some room =>
            have hgrown' := makeRoom_grown hgrown hroom
            rw [good_round_iff heor hroom]
            cases r.recv with
            | error => exact id
            | piece data flags' =>
                apply ih
                rw [store_length]
                exact hgrown'

theorem pdapiLoop_good_iff (hblock : block.length = size) (hpos : 0 < size)
    (rounds : List Round) :
    Good (pdapiLoop block size got flags rounds) ↔ Completes size got flags rounds := by
  induction rounds generalizing block got flags with
  | nil =>
      by_cases heor : endOfRecord flags = true
      · rw [pdapiLoop_eor heor, good_eor]
        exact iff_of_true hblock heor
      · rw [pdapiLoop_nil heor]
        exact iff_of_false (not_good_waiting _ _) heor
  | cons r rounds ih =>
      by_cases heor : endOfRecord flags = true
      · rw [pdapiLoop_eor heor, good_eor]
        exact iff_of_true hblock (.inl heor)
      · rw [Completes, or_iff_right heor]
        by_cases hleft : size - got < NEED_MODE_THRESHOLD
        -- the block stays as it is while its recorded size goes up
        · refine iff_of_false ?_ fun h => h.1 hleft
          cases hrealloc : r.realloc with
          | none =>
              have hroom : makeRoom block size got r.realloc = none := by
                rw [makeRoom, if_pos hleft, hrealloc]
                rfl
              rw [pdapiLoop_null heor hroom]
              exact not_good_of_rdlen
          | some junk =>
              have hroom : makeRoom block size got r.realloc =
                  some (resize block INCR_SZ junk, size + INCR_SZ) := by
                rw [makeRoom, if_pos hleft, hrealloc]
                rfl
              rw [good_round_iff heor hroom]
              cases r.recv with
              | error => exact id
              | piece data flags' =>
                  apply not_good_of_grown
                  rw [store_length, resize_length]
                  omega
        · have hroom : makeRoom block size got r.realloc = some (block, size) :=
            if_neg hleft
          rw [and_iff_right hleft, good_round_iff heor hroom]
          cases r.recv with
          | error => exact Iff.rfl
          | piece data flags' => exact ih ((store_length _ _ _).trans hblock)

end Loop

theorem good_null {block : List Byte} {size : Nat} (hblock : block.length = size) {k : Int}
    (hk : k < 1) (areas : List RecvArea) : Good ⟨⟨some block, size⟩, .null, some k, areas⟩ :=
  ⟨nofun, fun _ => ⟨k, rfl, hk⟩, valid_some.mpr hblock⟩

theorem pdapiFirst_good_iff {block : List Byte} {size : Nat} (hblock : block.length = size)
    (c : Call) : Good (pdapiFirst block size c) ↔ FirstCompletes size c := by
  unfold pdapiFirst FirstCompletes
  cases c.first with
  | error => exact iff_of_true (good_null hblock (by decide) _) trivial
  | piece data flags =>
      have hdata : (area block size 0 size (.piece data flags)).data = data.take size := rfl
      dsimp only
      rw [hdata]
      by_cases hshort : (data.take size).length < 1
      · rw [if_pos hshort]
        exact iff_of_true (good_null hblock (by omega) _) (.inl hshort)
      · rw [if_neg hshort, or_iff_right hshort]
        have hle := List.length_take_le size data
        exact (good_areas _).trans
          (pdapiLoop_good_iff ((store_length _ _ _).trans hblock) (by omega) c.rounds)

theorem pdapiRecvmsg_good_iff {st : Statics} (hst : Valid st) (c : Call) :
    Good (pdapiRecvmsg st c) ↔ CallCompletes st c := by
  obtain ⟨readbuf, size⟩ := st
  cases readbuf with
  | some block => exact pdapiFirst_good_iff (hst block rfl) c
  | none =>
      unfold pdapiRecvmsg CallCompletes
      dsimp only
      cases hmalloc : c.malloc with
      | none => exact iff_of_false not_good_of_rdlen fun h => h.1 rfl
      | some junk =>
          rw [and_iff_right (Option.some_ne_none junk)]
          exact pdapiFirst_good_iff (alloc_length _ _) c

section Determined

theorem pdapiLoop_append {block : List Byte} {size got : Nat} {flags : Flags}
    {rounds : List Round} (h : (pdapiLoop block size got flags rounds).ret ≠ .waiting)
    (more : List Round) :
    pdapiLoop block size got flags (rounds ++ more) =
      pdapiLoop block size got flags rounds := by
  induction rounds generalizing block size got flags with
  | nil =>
      by_cases heor : endOfRecord flags = true
      · rw [pdapiLoop_eor heor, pdapiLoop_eor heor]
      · rw [pdapiLoop_nil heor] at h
        exact absurd rfl h
  | cons r rounds ih =>
      by_cases heor : endOfRecord flags = true
      · rw [pdapiLoop_eor heor, pdapiLoop_eor heor]
      · rw [List.cons_append]
        cases hroom : makeRoom block size got r.realloc with
        | none => rw [pdapiLoop_null heor hroom, pdapiLoop_null heor hroom]
        | some room =>
            obtain ⟨block', size'⟩ := room
            cases hrecv : r.recv with
            | error =>
                rw [pdapiLoop_error heor hroom hrecv, pdapiLoop_error heor hroom hrecv]
            | piece data flags' =>
                rw [pdapiLoop_piece heor hroom hrecv] at h ⊢
                rw [pdapiLoop_piece heor hroom hrecv]
                dsimp only
                rw [ih h]

theorem pdapiRecvmsg_append {st : Statics} {malloc : Option (Nat → Byte)} {first : Recv}
    {rounds : List Round} (h : (pdapiRecvmsg st ⟨malloc, first, rounds⟩).ret ≠ .waiting)
    (more : List Round) :
    pdapiRecvmsg st ⟨malloc, first, rounds ++ more⟩ =
      pdapiRecvmsg st ⟨malloc, first, rounds⟩ := by
  have hfirst : ∀ block size, (pdapiFirst block size ⟨malloc, first, rounds⟩).ret ≠ .waiting →
      pdapiFirst block size ⟨malloc, first, rounds ++ more⟩ =
        pdapiFirst block size ⟨malloc, first, rounds⟩ := by
    intro block size hret
    unfold pdapiFirst at hret ⊢
    cases first with
    | error => rfl
    | piece data flags =>
        dsimp only at hret ⊢
        split_ifs at hret ⊢
        · rfl
        · rw [pdapiLoop_append hret]
  unfold pdapiRecvmsg at h ⊢
  cases hbuf : st.readbuf with
  | some block =>
      rw [hbuf] at h
      exact hfirst _ _ h
  | none =>
      rw [hbuf] at h
      cases malloc with
      | none => rfl
      | some junk => exact hfirst _ _ h

theorem call_append (a : Answers) {m n : Nat} (hmn : m ≤ n) :
    ∃ more, a.call n = ⟨a.malloc, a.first, (a.call m).rounds ++ more⟩ := by
  obtain ⟨k, rfl⟩ := Nat.exists_eq_add_of_le hmn
  refine ⟨((List.range k).map (m + ·)).map a.rounds, ?_⟩
  rw [Answers.call, Answers.call, List.range_add, List.map_append]

theorem Returns.unique {st : Statics} {a : Answers} {r r' : Result} (h : Returns st a r)
    (h' : Returns st a r') : r = r' := by
  have hle : ∀ {m n : Nat}, m ≤ n → (pdapiRecvmsg st (a.call m)).ret ≠ .waiting →
      pdapiRecvmsg st (a.call n) = pdapiRecvmsg st (a.call m) := by
    intro m n hmn hret
    obtain ⟨more, hmore⟩ := call_append a hmn
    rw [hmore]
    exact pdapiRecvmsg_append hret more
  obtain ⟨hret, m, rfl⟩ := h
  obtain ⟨hret', n, rfl⟩ := h'
  rcases Nat.le_total m n with hmn | hnm
  · exact (hle hmn hret).symm
  · exact hle hnm hret'

end Determined

theorem endsAndReports_iff_good {st : Statics} {a : Answers} :
    EndsAndReports st a ↔ ∃ n, Good (pdapiRecvmsg st (a.call n)) := by
  constructor
  · rintro ⟨⟨_, hret, n, rfl⟩, hreports⟩
    exact ⟨n, hret, hreports _ ⟨hret, n, rfl⟩⟩
  · rintro ⟨n, hret, hreports⟩
    have hreturns : Returns st a _ := ⟨hret, n, rfl⟩
    exact ⟨⟨_, hreturns⟩, fun r hr => hr.unique hreturns ▸ hreports⟩

/-- From any valid state of the buffer, a call returns, reports and leaves a valid
state exactly if it gets a block and either its first `sctp_recvmsg` returns less
than 1 or the message is completed in the room that there is. -/
theorem endsAndReports_iff {st : Statics} (hst : Valid st) (a : Answers) :
    EndsAndReports st a ↔ ∃ n, CallCompletes st (a.call n) := by
  rw [endsAndReports_iff_good]
  exact exists_congr fun n => pdapiRecvmsg_good_iff hst (a.call n)

theorem valid_start : Valid .start := nofun

def threePieces : Answers where
  malloc := some fun _ => 0
  first := .piece [104] 0
  rounds
    | 0 => ⟨none, .piece [101, 108] 0⟩
    | 1 => ⟨none, .piece [108, 111] MSG_EOR⟩
    | _ => ⟨none, .error⟩

theorem endsAndReports_iff_threePieces : EndsAndReports .start threePieces := by
  refine (endsAndReports_iff valid_start threePieces).mpr ⟨2, Option.some_ne_none _, .inr ?_⟩
  exact .inr ⟨by decide, .inr ⟨by decide, rfl⟩⟩

theorem not_completes_empty (size got n : Nat) :
    ¬ Completes size got 0 ((List.range n).map fun _ => ⟨none, .piece [] 0⟩) := by
  rw [List.map_const', List.length_range]
  induction n generalizing got with
  | zero =>
      change ¬ endOfRecord 0 = true
      decide
  | succ n ih =>
      rw [List.replicate_succ, Completes]
      rintro (heor | ⟨_, hrest⟩)
      · exact absurd heor (by decide)
      · exact ih _ hrest

/-- The peer goes away after the first piece of a message: each further
`sctp_recvmsg` returns 0. -/
theorem peer_gone_never_returns : ¬ ∀ a, EndsAndReports .start a := by
  intro hall
  obtain ⟨n, _, hcall⟩ := (endsAndReports_iff_good.mp
    (hall ⟨some fun _ => 0, .piece [97] 0, fun _ => ⟨none, .piece [] 0⟩⟩)).imp
      fun n => (pdapiRecvmsg_good_iff valid_start _).mp
  rcases hcall with hshort | hrest
  · exact absurd hshort (by decide)
  · exact not_completes_empty _ _ n hrest

end MyUnp.PartialDeliveryEnd
