import MyUnp.SctpBindArgs

namespace MyUnp.SctpPrintAddrs

open MyUnp.FieldAccess MyUnp.MemoryBlock MyUnp.SctpBindArgs MyUnp.SocketAddress
open MyUnp.Unp

variable {h : SocketAddress.Header}

structure Visit where
  ss : Nat
  salen : Nat
  text : Option String

/-- The loop, `num` iterations before its end, with `ss` cells between `addrs`
and the pointer. -/
def printFrom (h : SocketAddress.Header) (IPV6 : Bool)
    (inet_ntop : Family → List Byte → Option String) (addrs : List Byte) (ss : Nat) :
    Nat → Access (List Visit)
  | 0 => pure []
  | num + 1 => do
      let ss_family ← (loadFamily h (addrs.drop ss)).shift ss
      match h.family ss_family with
      | none => pure []
      | some f =>
          let text ← (sock_ntop h IPV6 inet_ntop (addrs.drop ss) (salen f)).shift ss
          let rest ← printFrom h IPV6 inet_ntop addrs (ss + salen f) num
          pure (⟨ss, salen f, text⟩ :: rest)

def sctp_print_addrs (h : SocketAddress.Header) (IPV6 : Bool)
    (inet_ntop : Family → List Byte → Option String) (addrs : List Byte) (num : Nat) :
    Access (List Visit) :=
  printFrom h IPV6 inet_ntop addrs 0 num

/-- What `getaddrinfo` gives for an argument that stands for the address. -/
def resolved (a : SockAddr h) : Option (List Addrinfo) :=
  some [⟨a.bytes, a.length_eq ▸ salen_le a.family⟩]

def contents (addrs : List (SockAddr h)) : List Byte := addrs.flatMap SockAddr.bytes

theorem contents_cons (a : SockAddr h) (addrs : List (SockAddr h)) :
    contents (a :: addrs) = a.bytes ++ contents addrs := rfl

theorem contents_length_le (addrs : List (SockAddr h)) :
    (contents addrs).length ≤ addrs.length * sizeof_sockaddr_storage := by
  induction addrs with
  | nil => exact Nat.zero_le _
  | cons a addrs ih =>
      have hlen := a.length_eq
      have hle := salen_le a.family
      rw [contents_cons, List.length_append, List.length_cons, Nat.add_one_mul]
      omega

section Packing

variable {size : Nat}

structure Packed (size : Nat) (front : List Byte) (s : Packing) : Prop where
  length_eq : s.bindbuf.length = size
  p_eq : s.p = front.length
  take_eq : s.bindbuf.take front.length = front
  writes_le : ∀ w ∈ s.writes, w.1 + w.2 ≤ size

theorem Packed.start (argc : Nat) :
    Packed (argc * sizeof_sockaddr_storage) [] (.start argc) where
  length_eq := List.length_replicate
  p_eq := rfl
  take_eq := List.take_zero
  writes_le := List.forall_mem_nil _

theorem Packed.add {front : List Byte} {s : Packing} (hs : Packed size front s)
    {addr : Addrinfo} (hroom : front.length + addr.ai_addr.length ≤ size) :
    Packed size (front ++ addr.ai_addr) (s.add addr) where
  length_eq := (store_length _ _ _).trans hs.length_eq
  p_eq := by
    rw [List.length_append, ← hs.p_eq]
    rfl
  take_eq := by
    rw [List.length_append]
    change (store s.bindbuf s.p addr.ai_addr).take _ = _
    rw [hs.p_eq]
    exact take_store hs.take_eq (hs.length_eq ▸ hroom)
  writes_le := by
    intro w hw
    rcases List.mem_append.mp hw with hold | hnew
    · exact hs.writes_le w hold
    · obtain rfl := List.mem_singleton.mp hnew
      change s.p + addr.ai_addr.length ≤ size
      rw [hs.p_eq]
      exact hroom

theorem pack_resolved {front : List Byte} {s : Packing} (hs : Packed size front s)
    (addrs : List (SockAddr h)) (hroom : front.length + (contents addrs).length ≤ size) :
    ∃ t, pack s (addrs.map resolved) = some t ∧
      Packed size (front ++ contents addrs) t := by
  induction addrs generalizing front s with
  | nil => exact ⟨s, rfl, by simpa [contents] using hs⟩
  | cons a addrs ih =>
      rw [contents_cons, List.length_append] at hroom
      let addr : Addrinfo := ⟨a.bytes, a.length_eq ▸ salen_le a.family⟩
      have hbytes : addr.ai_addr = a.bytes := rfl
      have hfits : front.length + addr.ai_addr.length ≤ size := by
        rw [hbytes]
        omega
      have hadd := hs.add hfits
      obtain ⟨t, ht, hpacked⟩ := ih hadd (by
        rw [List.length_append, hbytes]
        omega)
      refine ⟨t, ht, ?_⟩
      rw [contents_cons, ← List.append_assoc]
      exact hpacked

end Packing

section Printing

variable (IPV6 : Bool) (inet_ntop : Family → List Byte → Option String)

def Visit.shows (addrs : List Byte) (v : Visit) : Nat × List Byte × Option String :=
  (v.salen, (addrs.drop v.ss).take v.salen, v.text)

def shown (a : SockAddr h) : Nat × List Byte × Option String :=
  (salen a.family, a.bytes,
    (sock_ntop h IPV6 inet_ntop a.bytes (salen a.family)).value)

theorem printFrom_succ {block : List Byte} {ss : Nat} {f : Family}
    (hf : h.family (loadFamily h (block.drop ss)).value = some f) (num : Nat) :
    printFrom h IPV6 inet_ntop block ss (num + 1) = (do
      let _ ← (loadFamily h (block.drop ss)).shift ss
      let text ← (sock_ntop h IPV6 inet_ntop (block.drop ss) (salen f)).shift ss
      let rest ← printFrom h IPV6 inet_ntop block (ss + salen f) num
      pure (⟨ss, salen f, text⟩ :: rest)) := by
  rw [printFrom]
  apply Access.bind_congr
  rw [Access.shift_value, hf]

theorem printFrom_packed {block back : List Byte} {addrs : List (SockAddr h)} {ss : Nat}
    (hblock : block.drop ss = contents addrs ++ back) :
    (printFrom h IPV6 inet_ntop block ss addrs.length).value.map (Visit.shows block) =
        addrs.map (shown IPV6 inet_ntop) ∧
      (printFrom h IPV6 inet_ntop block ss addrs.length).Within
        (ss + (contents addrs).length) := by
  induction addrs generalizing ss with
  | nil => exact ⟨rfl, Access.within_pure _ _⟩
  | cons a addrs ih =>
      have hlen := a.length_eq
      rw [contents_cons, List.append_assoc] at hblock
      have htake : (block.drop ss).take (salen a.family) = a.bytes := by
        rw [hblock, ← hlen, List.take_left]
      have hsame : (block.drop ss).take (salen a.family) =
          a.bytes.take (salen a.family) := by
        rw [htake, ← hlen, List.take_length]
      have hf : h.family (loadFamily h (block.drop ss)).value = some a.family := by
        rw [loadFamily_congr hsame (le_salen a.family), a.family_eq, h.family_code]
      have hrest : block.drop (ss + salen a.family) = contents addrs ++ back := by
        rw [← List.drop_drop, hblock, ← hlen, List.drop_left]
      have htext := sock_ntop_congr IPV6 inet_ntop (salen a.family) hf hsame
      obtain ⟨hvalue, hwithin⟩ := ih hrest
      rw [List.length_cons, printFrom_succ IPV6 inet_ntop hf, contents_cons,
        List.length_append, hlen]
      constructor
      · rw [Access.bind_value, Access.bind_value, Access.bind_value]
        change Visit.shows block _ :: _ = shown IPV6 inet_ntop a :: _
        rw [hvalue, Visit.shows, shown, htake, Access.shift_value, htext]
      · have hle : ss + salen a.family ≤
            ss + (salen a.family + (contents addrs).length) := by omega
        have hfamily := loadFamily_within (h := h) (block.drop ss) (le_salen a.family)
        have hntop := sock_ntop_within IPV6 inet_ntop (salen a.family) hf
        rw [Nat.add_assoc] at hwithin
        apply Access.Within.bind (hfamily.shift.mono hle)
        apply Access.Within.bind (hntop.shift.mono hle)
        apply hwithin.bind
        exact Access.within_pure _ _

end Printing

/-- The buffer that is filled from any list of addresses stays within its size,
and printing it with the same count shows those addresses in order and looks at
nothing behind the last one. -/
theorem packed_addresses_roundtrip (addrs : List (SockAddr h)) (IPV6 : Bool)
    (inet_ntop : Family → List Byte → Option String) (sctp_bindx : Packing → Int)
    (garbage : Int) :
    ∃ s, (sctp_bind_arg_list true (addrs.map resolved) sctp_bindx garbage).binds = [s] ∧
      s.addrcnt = addrs.length ∧
      s.bindbuf.length = addrs.length * sizeof_sockaddr_storage ∧
      (∀ w ∈ s.writes, w.1 + w.2 ≤ addrs.length * sizeof_sockaddr_storage) ∧
      (sctp_print_addrs h IPV6 inet_ntop s.bindbuf s.addrcnt).value.map
        (Visit.shows s.bindbuf) = addrs.map (shown IPV6 inet_ntop) ∧
      (sctp_print_addrs h IPV6 inet_ntop s.bindbuf s.addrcnt).Within
        (contents addrs).length := by
  obtain ⟨s, hs, hpacked⟩ := pack_resolved (Packed.start addrs.length) addrs
    (by simpa using contents_length_le addrs)
  rw [List.nil_append] at hpacked
  have hcnt : s.addrcnt = addrs.length := by
    rw [pack_addrcnt hs, List.length_map]
    exact Nat.zero_add _
  have hblock : s.bindbuf.drop 0 =
      contents addrs ++ s.bindbuf.drop (contents addrs).length := by
    conv_lhs => rw [List.drop_zero, ← List.take_append_drop (contents addrs).length
      s.bindbuf, hpacked.take_eq]
  obtain ⟨hvalue, hwithin⟩ := printFrom_packed IPV6 inet_ntop hblock
  rw [Nat.zero_add] at hwithin
  refine ⟨s, ?_, hcnt, hpacked.length_eq, hpacked.writes_le, ?_, ?_⟩
  · rw [sctp_bind_arg_list, if_pos rfl, List.length_map, hs]
    rfl
  · rw [hcnt]
    exact hvalue
  · rw [hcnt]
    exact hwithin

end MyUnp.SctpPrintAddrs
