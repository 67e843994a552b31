import MyUnp.AccessSpan
import MyUnp.InetPton
import MyUnp.MemoryBlock
import MyUnp.SocketAddress

namespace MyUnp.SockNtopText

open MyUnp.AccessSpan MyUnp.Atol MyUnp.Decimal MyUnp.FieldAccess MyUnp.MemoryBlock
open MyUnp.Printf MyUnp.Unp
open MyUnp.InetNtop (INET_ADDRSTRLEN InAddr dot dotted)
open MyUnp.SocketAddress hiding sock_ntop

def sizeof_str : Nat := 128

def sizeof_portstr : Nat := 8

/-- The static array, and what has been written to since the program started. -/
structure Str where
  cells : List Byte
  length_eq : cells.length = sizeof_str
  touched : List Span

def Str.put (str : Str) (offset : Nat) (s : List Byte) : Str where
  cells := store str.cells offset (s ++ [0])
  length_eq := (store_length _ _ _).trans str.length_eq
  touched := str.touched ++ [⟨offset, s.length + 1⟩]

def Str.strcat (str : Str) (s : List Byte) : Str := str.put (cString str.cells).length s

def colon : Byte := 58

variable (h : Header) (inet_ntop : List Byte → Nat → Option (List Byte))

/-- `sock_ntop` of Chapter 23 as it is compiled there. `inet_ntop` is the one of the
system, called with `AF_INET` and the size of the buffer: the text that it writes,
unless that does not fit. -/
def sock_ntop (str : Str) (block : List Byte) (salen : Nat) : Option Str :=
  let sa_family := (loadFamily h block).value
  match h.family sa_family with
  | some .inet =>
      match inet_ntop (load block sin_addr).value sizeof_str with
      | none => none
      | some text =>
          let str := str.put 0 text
          let port := ntohs (load block sin_port).value
          if port ≠ 0 then some (str.strcat (snprintf sizeof_portstr (colon :: decimal port)))
          else some str
  -- also `AF_INET6`: its case is there only if `IPV6` is defined
  | _ =>
      if sa_family = h.AF_UNIX then
        if (load block sun_path).value = [0] then
          some (str.put 0 (bytes "(no pathname bound)"))
        else some (str.put 0 (snprintf sizeof_str (cString (block.drop sun_path.offset))))
      else
        some (str.put 0 (snprintf sizeof_str (bytes "sock_ntop: unknown AF_xxx: " ++
          decimal sa_family ++ bytes ", len " ++ decimal salen)))

/-- A text for an IPv4 address, as the manual has it. -/
structure Dotted (t : List Byte) : Prop where
  length_lt : t.length < INET_ADDRSTRLEN
  chars : ∀ c ∈ t, isDigit c = true ∨ c = dot

/-- What is assumed of the `inet_ntop` of the system for `AF_INET`: no two addresses
have the same text. -/
structure System : Prop where
  writes : ∀ {addr : List Byte} {size : Nat}, addr.length = 4 → INET_ADDRSTRLEN ≤ size →
    ∃ text, inet_ntop addr size = some text ∧ Dotted text
  injective : ∀ {addr addr' : List Byte} {size : Nat}, addr.length = 4 → addr'.length = 4 →
    INET_ADDRSTRLEN ≤ size → inet_ntop addr size = inet_ntop addr' size → addr = addr'

section Addresses

variable {h} (x y : SockAddr h)

def address : List Byte :=
  match x.family with
  | .inet => (load x.bytes sin_addr).value
  | .inet6 => (load x.bytes sin6_addr).value

def port : Nat :=
  match x.family with
  | .inet => ntohs (load x.bytes sin_port).value
  | .inet6 => ntohs (load x.bytes sin6_port).value

def Same : Prop := x.family = y.family ∧ address x = address y ∧ port x = port y

def text (str : Str) : Option (List Byte) :=
  (sock_ntop h inet_ntop str x.bytes (salen x.family)).map fun s => cString s.cells

end Addresses

def suffix (port : Nat) : List Byte := if port ≠ 0 then colon :: decimal port else []

section Static

variable (str : Str) {front s : List Byte}

theorem cString_put (hfront : str.cells.take front.length = front) (hzero : 0 ∉ front)
    (hs : 0 ∉ s) (hfit : front.length + s.length < sizeof_str) :
    cString (str.put front.length s).cells = front ++ s := by
  have hroom : front.length + (s ++ [0]).length ≤ str.cells.length := by
    rw [str.length_eq, List.length_append, List.length_singleton]
    omega
  change cString (store str.cells front.length (s ++ [0])) = _
  rw [store_eq hroom, hfront, List.append_assoc, List.append_assoc,
    cString_append_of_not_mem hzero, List.singleton_append, cString_append_nul,
    cString_eq_self hs]

theorem put_inside {offset : Nat} (hfit : offset + s.length < sizeof_str)
    (hstr : Inside sizeof_str str.touched) :
    Inside sizeof_str (str.put offset s).touched := by
  change Inside sizeof_str (str.touched ++ [⟨offset, s.length + 1⟩])
  rw [inside_append, inside_cons]
  refine ⟨hstr, .inr ⟨Int.natCast_nonneg _, ?_⟩, inside_nil⟩
  dsimp only
  omega

theorem cString_put_zero (hs : 0 ∉ s) (hfit : s.length < sizeof_str) :
    cString (str.put 0 s).cells = s := by
  have hnil : ([] : List Byte).length + s.length < sizeof_str := by simpa using hfit
  exact @cString_put str [] s List.take_zero List.not_mem_nil hs hnil

end Static

theorem snprintf_length_lt {size : Nat} (hsize : 0 < size) (s : List Byte) :
    (snprintf size s).length < size := by
  rw [snprintf, List.length_take]
  omega

theorem ntohs_lt {s : List Byte} (h : s.length ≤ 2) : ntohs s < 65536 := by
  match s, h with
  | [], _ => decide
  | [a], _ =>
      have ha := a.toNat_lt
      simp only [ntohs, List.foldl_cons, List.foldl_nil]
      omega
  | [a, b], _ =>
      have ha := a.toNat_lt
      have hb := b.toNat_lt
      simp only [ntohs, List.foldl_cons, List.foldl_nil]
      omega

theorem Dotted.not_mem {t : List Byte} (ht : Dotted t) {c : Byte}
    (hdigit : isDigit c = false) (hdot : c ≠ dot) : c ∉ t := by
  intro hmem
  rcases ht.chars c hmem with hc | hc
  · rw [hdigit] at hc
    cases hc
  · exact hdot hc

theorem portstr_eq {port : Nat} (h : port < 65536) :
    snprintf sizeof_portstr (colon :: decimal port) = colon :: decimal port := by
  apply snprintf_of_length_lt
  have hlen := decimalDigits_length_le_of_lt (port + 1) (k := 5) (n := port) (by decide)
    (by omega)
  rw [List.length_cons, decimal, sizeof_portstr]
  omega

theorem zero_not_mem_of_digits {s : List Byte} (hs : ∀ c ∈ s, isDigit c = true) : 0 ∉ s :=
  fun hmem => absurd (hs 0 hmem) (by decide)

theorem zero_not_mem_colon_decimal (port : Nat) : 0 ∉ colon :: decimal port := by
  rw [List.mem_cons, not_or]
  exact ⟨by decide, zero_not_mem_of_digits (decimal_isDigit port)⟩

section Readability

variable {t t' : List Byte}

theorem takeWhile_suffix (ht : Dotted t) (port : Nat) :
    (t ++ suffix port).takeWhile (· ≠ colon) = t := by
  have hall : ∀ c ∈ t, decide (c ≠ colon) = true := by
    intro c hc
    rw [decide_eq_true_eq]
    rintro rfl
    exact ht.not_mem (by decide) (by decide) hc
  rw [List.takeWhile_append_of_pos hall, suffix]
  split_ifs
  · rw [List.takeWhile_cons_of_neg (by simp), List.append_nil]
  · rw [List.takeWhile_nil, List.append_nil]

theorem suffix_injective : Function.Injective suffix := by
  intro p q heq
  unfold suffix at heq
  split_ifs at heq with hp hq hq
  · exact decimal_injective (List.tail_eq_of_cons_eq heq)
  · omega

/-- The first colon tells the address from the port. -/
theorem suffix_readable (ht : Dotted t) (ht' : Dotted t') {p q : Nat}
    (heq : t ++ suffix p = t' ++ suffix q) : t = t' ∧ p = q := by
  have hfront := congrArg (List.takeWhile (· ≠ colon)) heq
  rw [takeWhile_suffix ht, takeWhile_suffix ht'] at hfront
  subst hfront
  exact ⟨rfl, suffix_injective (List.append_cancel_left heq)⟩

theorem not_mem_inet (ht : Dotted t) (port : Nat) : (115 : Byte) ∉ t ++ suffix port := by
  intro hmem
  rcases List.mem_append.mp hmem with hc | hc
  · exact ht.not_mem (by decide) (by decide) hc
  · rw [suffix] at hc
    split_ifs at hc
    · rcases List.mem_cons.mp hc with hcolon | hdigit
      · exact absurd hcolon (by decide)
      · exact absurd (decimal_isDigit port 115 hdigit) (by decide)
    · cases hc

theorem suffix_length_lt (ht : Dotted t) {port : Nat} (hport : port < 65536) :
    (t ++ suffix port).length < sizeof_str := by
  have hlen := ht.length_lt
  have hshort := snprintf_length_lt (by decide : 0 < sizeof_portstr) (colon :: decimal port)
  rw [portstr_eq hport] at hshort
  rw [INET_ADDRSTRLEN] at hlen
  rw [sizeof_portstr] at hshort
  rw [List.length_append, suffix, sizeof_str]
  split_ifs
  · omega
  · rw [List.length_nil]
    omega

theorem bytes_suffix (u : String) (port : Nat) :
    bytes (if port ≠ 0 then u ++ ":" ++ toString port else u) = bytes u ++ suffix port := by
  rw [suffix]
  split_ifs
  · rw [bytes_append, bytes_append, bytes_toString, List.append_assoc]
    rfl
  · rw [List.append_nil]

theorem addrPort_value {struct : Nat} {block : List Byte} {addr port : Field struct}
    {ntop : List Byte → Option String} {u : String}
    (hu : ntop (load block addr).value = some u) (withPort : String → String → String) :
    (addrPort block addr port ntop withPort).value =
      some (if ntohs (load block port).value ≠ 0 then
        withPort u (toString (ntohs (load block port).value)) else u) := by
  rw [addrPort, Access.bind_value, hu]
  dsimp only
  rw [Access.bind_value]
  split_ifs
  · rfl
  · rfl

end Readability

section Inet

variable {h inet_ntop} {x : SockAddr h}

theorem load_length {struct : Nat} {block : List Byte} {f : Field struct}
    (hblock : struct ≤ block.length) : (load block f).value.length = f.size := by
  have hinside := f.inside
  change ((block.drop f.offset).take f.size).length = f.size
  rw [List.length_take, List.length_drop]
  omega

theorem family_eq (x : SockAddr h) : h.family (loadFamily h x.bytes).value = some x.family := by
  rw [x.family_eq, h.family_code]

theorem address_length (hx : x.family = .inet) : (address x).length = 4 := by
  have hlen := x.length_eq
  rw [hx] at hlen
  rw [address, hx]
  exact load_length (Nat.le_of_eq hlen.symm)

theorem port_lt (hx : x.family = .inet) : port x < 65536 := by
  have hlen := x.length_eq
  rw [hx] at hlen
  rw [port, hx]
  exact ntohs_lt (Nat.le_of_eq (load_length (Nat.le_of_eq hlen.symm)))

theorem sock_ntop_inet (hx : x.family = .inet) {t : List Byte}
    (ht : inet_ntop (address x) sizeof_str = some t) (str : Str) :
    sock_ntop h inet_ntop str x.bytes (salen x.family) =
      some (if port x ≠ 0 then
        (str.put 0 t).strcat (snprintf sizeof_portstr (colon :: decimal (port x)))
      else str.put 0 t) := by
  have hfamily := family_eq x
  rw [hx] at hfamily
  simp only [address, port, hx] at ht ⊢
  simp only [sock_ntop, hfamily, ht]
  split_ifs
  · rfl
  · rfl

theorem text_inet (hntop : System inet_ntop) (hx : x.family = .inet) (str : Str) :
    ∃ t s, inet_ntop (address x) sizeof_str = some t ∧ Dotted t ∧
      sock_ntop h inet_ntop str x.bytes (salen x.family) = some s ∧
      cString s.cells = t ++ suffix (port x) ∧
      (Inside sizeof_str str.touched → Inside sizeof_str s.touched) := by
  obtain ⟨t, ht, hdotted⟩ := hntop.writes (address_length hx)
    (by decide : INET_ADDRSTRLEN ≤ sizeof_str)
  have hzero := hdotted.not_mem (by decide) (by decide : (0 : Byte) ≠ dot)
  have hfit := suffix_length_lt hdotted (port_lt hx)
  have hroom : t.length < sizeof_str := Nat.lt_trans hdotted.length_lt (by decide)
  have hput := cString_put_zero str hzero hroom
  have hinside : Inside sizeof_str str.touched →
      Inside sizeof_str (str.put 0 t).touched := by
    apply put_inside
    omega
  refine ⟨t, _, ht, hdotted, sock_ntop_inet hx ht str, ?_⟩
  rw [portstr_eq (port_lt hx)]
  rw [suffix, List.length_append] at hfit
  split_ifs at hfit ⊢ with hzeroPort
  · rw [Str.strcat, hput, suffix, if_pos hzeroPort]
    refine ⟨cString_put _ ?_ hzero (zero_not_mem_colon_decimal _) hfit,
      fun hstr => put_inside _ hfit (hinside hstr)⟩
    have hprefix := cString_prefix_self (str.put 0 t).cells
    rw [hput] at hprefix
    exact (List.prefix_iff_eq_take.mp hprefix).symm
  · rw [hput, suffix, if_neg hzeroPort, List.append_nil]
    exact ⟨rfl, hinside⟩

end Inet

section Inet6

variable {h inet_ntop} {x : SockAddr h}

def unknown (h : Header) : List Byte :=
  snprintf sizeof_str (bytes "sock_ntop: unknown AF_xxx: " ++ decimal h.AF_INET6 ++
    bytes ", len " ++ decimal sizeof_sockaddr_in6)

theorem sock_ntop_inet6 (hx : x.family = .inet6) (str : Str) :
    sock_ntop h inet_ntop str x.bytes (salen x.family) = some (str.put 0 (unknown h)) := by
  have hfamily := family_eq x
  have hcode := x.family_eq
  rw [hx] at hfamily hcode
  simp only [sock_ntop, hfamily, hx, unknown, if_neg (h.family_ne_unix hfamily)]
  rw [hcode]
  rfl

theorem zero_not_mem_unknown (h : Header) : 0 ∉ unknown h := by
  intro hmem
  have hfull := List.mem_of_mem_take hmem
  simp only [List.mem_append] at hfull
  rcases hfull with ((hlit | hdec) | hlit) | hdec
  · exact absurd hlit (by decide)
  · exact zero_not_mem_of_digits (decimal_isDigit _) hdec
  · exact absurd hlit (by decide)
  · exact zero_not_mem_of_digits (decimal_isDigit _) hdec

theorem mem_unknown (h : Header) : (115 : Byte) ∈ unknown h := List.mem_cons_self

theorem text_inet6 (hx : x.family = .inet6) (str : Str) :
    text inet_ntop x str = some (unknown h) := by
  rw [text, sock_ntop_inet6 hx, Option.map_some,
    cString_put_zero str (zero_not_mem_unknown h) (snprintf_length_lt (by decide) _)]

end Inet6

/-- The text and its NUL stay within `str`; and with them all of the port. -/
def Fits {h : Header} (inet_ntop : List Byte → Nat → Option (List Byte)) (str : Str)
    (x : SockAddr h) : Prop :=
  ∃ s, sock_ntop h inet_ntop str x.bytes (salen x.family) = some s ∧
    (Inside sizeof_str str.touched → Inside sizeof_str s.touched) ∧
    (x.family = .inet → ∃ t, inet_ntop (address x) sizeof_str = some t ∧
      cString s.cells = t ++ suffix (port x))

section Addresses

variable {h inet_ntop} {x y : SockAddr h}

theorem fits (hntop : System inet_ntop) (str : Str) (x : SockAddr h) :
    Fits inet_ntop str x := by
  cases hx : x.family with
  | inet =>
      obtain ⟨t, s, ht, _, hs, hstring, hinside⟩ := text_inet hntop hx str
      exact ⟨s, hs, hinside, fun _ => ⟨t, ht, hstring⟩⟩
  | inet6 =>
      refine ⟨_, sock_ntop_inet6 hx str, ?_, fun hinet => ?_⟩
      · apply put_inside
        rw [Nat.zero_add]
        exact snprintf_length_lt (by decide) _
      · rw [hx] at hinet
        cases hinet

theorem same_of_text_eq (hntop : System inet_ntop) (hx : x.family = .inet)
    (hy : y.family = .inet) {str str' : Str}
    (heq : text inet_ntop x str = text inet_ntop y str') : Same x y := by
  obtain ⟨t, s, ht, hdotted, hs, hstring, _⟩ := text_inet hntop hx str
  obtain ⟨t', s', ht', hdotted', hs', hstring', _⟩ := text_inet hntop hy str'
  rw [text, text, hs, hs', Option.map_some, Option.map_some, hstring, hstring',
    Option.some_inj] at heq
  obtain ⟨rfl, hport⟩ := suffix_readable hdotted hdotted' heq
  have haddress := hntop.injective (address_length hx) (address_length hy) (by decide)
    (ht.trans ht'.symm)
  exact ⟨hx.trans hy.symm, haddress, hport⟩

theorem text_ne (hntop : System inet_ntop) (hx : x.family = .inet)
    (hy : y.family = .inet6) (str str' : Str) :
    text inet_ntop x str ≠ text inet_ntop y str' := by
  intro heq
  obtain ⟨t, s, _, hdotted, hs, hstring, _⟩ := text_inet hntop hx str
  rw [text_inet6 hy, text, hs, Option.map_some, hstring, Option.some_inj] at heq
  apply not_mem_inet hdotted (port x)
  rw [heq]
  exact mem_unknown h

theorem text_eq (hntop : System inet_ntop) {ntop : Family → List Byte → Option String}
    (hntop' : ∀ addr, (ntop .inet addr).map bytes = inet_ntop addr sizeof_str)
    (x : SockAddr h) (str : Str) :
    text inet_ntop x str =
      (SocketAddress.sock_ntop h false ntop x.bytes (salen x.family)).value.map
        fun s => snprintf sizeof_str (bytes s) := by
  have hfamily := family_eq x
  have hcode := x.family_eq
  cases hx : x.family with
  | inet =>
      obtain ⟨t, s, ht, hdotted, hs, hstring, _⟩ := text_inet hntop hx str
      obtain ⟨u, hu, rfl⟩ := Option.map_eq_some_iff.mp ((hntop' (address x)).trans ht)
      rw [hx] at hfamily
      simp only [address, hx] at hu
      rw [text, hs, Option.map_some, hstring, SocketAddress.sock_ntop, Access.bind_value,
        hfamily]
      dsimp only
      rw [addrPort_value hu, Option.map_some]
      simp only [port, hx]
      rw [bytes_suffix, snprintf_of_length_lt]
      exact suffix_length_lt hdotted (ntohs_lt (List.length_take_le _ _))
  | inet6 =>
      rw [hx] at hfamily hcode
      rw [text_inet6 hx, SocketAddress.sock_ntop, Access.bind_value, hfamily]
      dsimp only
      rw [if_neg (h.family_ne_unix hfamily), hcode]
      change _ = some (snprintf sizeof_str (bytes (_ ++ toString h.AF_INET6 ++ _ ++
        toString sizeof_sockaddr_in6)))
      rw [bytes_append, bytes_append, bytes_append, bytes_toString, bytes_toString, unknown]

/-- As compiled, `sock_ntop` tells all addresses apart but those of IPv6. -/
theorem sock_ntop_distinguishes_iff (hntop : System inet_ntop) (str str' : Str)
    (x y : SockAddr h) :
    Fits inet_ntop str x ∧
      ((text inet_ntop x str = text inet_ntop y str' → Same x y) ↔
        ¬ (x.family = .inet6 ∧ y.family = .inet6 ∧ ¬ Same x y)) := by
  refine ⟨fits hntop str x, ?_⟩
  cases hx : x.family with
  | inet =>
      refine iff_of_true (fun heq => ?_) (fun hboth => by cases hboth.1)
      cases hy : y.family with
      | inet => exact same_of_text_eq hntop hx hy heq
      | inet6 => exact absurd heq (text_ne hntop hx hy str str')
  | inet6 =>
      cases hy : y.family with
      | inet =>
          refine iff_of_true (fun heq => ?_) (fun hboth => by cases hboth.2.1)
          exact absurd heq.symm (text_ne hntop hy hx str' str)
      | inet6 =>
          rw [text_inet6 hx, text_inet6 hy]
          simp

end Addresses

section Linux

def linux : Header where
  sa_family := ⟨0, 2, by decide⟩
  number b := b.foldr (fun b n => b.toNat + 256 * n) 0
  AF_INET := 2
  AF_INET6 := 10
  AF_UNIX := 1
  distinct := by decide
  unix := by decide

def systemNtop (addr : List Byte) (size : Nat) : Option (List Byte) :=
  match addr with
  | [p0, p1, p2, p3] =>
      if (dotted ⟨p0, p1, p2, p3⟩).length < size then some (dotted ⟨p0, p1, p2, p3⟩)
      else none
  | _ => none

theorem dotted_lt (a : InAddr) : (dotted a).length < INET_ADDRSTRLEN :=
  Nat.lt_succ_of_le (InetNtop.dotted_length a).2

theorem systemNtop_eq (a : InAddr) {size : Nat} (h : INET_ADDRSTRLEN ≤ size) :
    systemNtop [a.p0, a.p1, a.p2, a.p3] size = some (dotted a) :=
  if_pos (Nat.lt_of_lt_of_le (dotted_lt a) h)

theorem systemNtop_system : System systemNtop where
  writes := by
    intro addr size haddr hsize
    obtain ⟨p0, p1, p2, p3, rfl⟩ := List.length_eq_four.mp haddr
    exact ⟨_, systemNtop_eq ⟨p0, p1, p2, p3⟩ hsize, dotted_lt _, InetNtop.dotted_chars _⟩
  injective := by
    intro addr addr' size haddr haddr' hsize heq
    obtain ⟨p0, p1, p2, p3, rfl⟩ := List.length_eq_four.mp haddr
    obtain ⟨q0, q1, q2, q3, rfl⟩ := List.length_eq_four.mp haddr'
    rw [systemNtop_eq ⟨p0, p1, p2, p3⟩ hsize, systemNtop_eq ⟨q0, q1, q2, q3⟩ hsize,
      Option.some_inj] at heq
    cases InetPton.dotted_injective heq
    rfl

def web : SockAddr linux :=
  ⟨.inet, [2, 0, 0, 80, 10, 0, 0, 1, 0, 0, 0, 0, 0, 0, 0, 0], rfl, rfl⟩

def host : SockAddr linux :=
  ⟨.inet, [2, 0, 0, 0, 10, 0, 0, 1, 0, 0, 0, 0, 0, 0, 0, 0], rfl, rfl⟩

def inet6 (last : Byte) : SockAddr linux :=
  ⟨.inet6, [10, 0, 0, 0, 0, 0, 0, 0, 0, 0, 0, 0, 0, 0, 0, 0, 0, 0, 0, 0, 0, 0, 0, last,
    0, 0, 0, 0], rfl, rfl⟩

def zeros : Str := ⟨List.replicate sizeof_str 0, List.length_replicate, []⟩

theorem sock_ntop_distinguishes_iff_port :
    Fits systemNtop zeros web ∧
      ((text systemNtop web zeros = text systemNtop host zeros → Same web host) ↔
        ¬ (web.family = .inet6 ∧ host.family = .inet6 ∧ ¬ Same web host)) :=
  sock_ntop_distinguishes_iff systemNtop_system zeros zeros web host

/-- `::1` and `::2` -/
theorem sock_ntop_inet6_alike :
    ¬ (text systemNtop (inet6 1) zeros = text systemNtop (inet6 2) zeros →
      Same (inet6 1) (inet6 2)) := by
  intro hsame
  have heq : text systemNtop (inet6 1) zeros = text systemNtop (inet6 2) zeros := by
    rw [text_inet6 rfl, text_inet6 rfl]
  exact absurd (hsame heq).2.1 (by decide)

end Linux

end MyUnp.SockNtopText
