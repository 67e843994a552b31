import MyUnp.FieldAccess
import MyUnp.Unp

namespace MyUnp.SocketAddress

open MyUnp.FieldAccess MyUnp.Unp

def sizeof_sockaddr_in : Nat := 16

def sizeof_sockaddr_in6 : Nat := 28

def sizeof_sockaddr_un : Nat := 110

def sizeof_sockaddr_storage : Nat := 128

inductive Family
  | inet
  | inet6
  deriving DecidableEq

def salen : Family → Nat
  | .inet => sizeof_sockaddr_in
  | .inet6 => sizeof_sockaddr_in6

theorem le_salen (f : Family) : sizeof_sockaddr_in ≤ salen f := by
  cases f <;> decide

theorem salen_le (f : Family) : salen f ≤ sizeof_sockaddr_storage := by
  cases f <;> decide

/-- What a host's headers say about socket addresses: where the family is kept,
how its bytes read as a number, and the numbers of the families. -/
structure Header where
  sa_family : Field sizeof_sockaddr_in
  number : List Byte → Nat
  AF_INET : Nat
  AF_INET6 : Nat
  AF_UNIX : Nat
  distinct : AF_INET ≠ AF_INET6
  unix : AF_UNIX ≠ AF_INET ∧ AF_UNIX ≠ AF_INET6

variable (h : Header)

def Header.code : Family → Nat
  | .inet => h.AF_INET
  | .inet6 => h.AF_INET6

def Header.family (n : Nat) : Option Family :=
  if n = h.AF_INET then some .inet
  else if n = h.AF_INET6 then some .inet6
  else none

theorem Header.family_code (f : Family) : h.family (h.code f) = some f := by
  cases f with
  | inet => exact if_pos rfl
  | inet6 => exact (if_neg h.distinct.symm).trans (if_pos rfl)

theorem Header.family_ne_unix {n : Nat} {f : Family} (hf : h.family n = some f) :
    n ≠ h.AF_UNIX := by
  rintro rfl
  rw [Header.family, if_neg h.unix.1, if_neg h.unix.2] at hf
  cases hf

def loadFamily (block : List Byte) : Access Nat := do
  let bytes ← load block h.sa_family
  pure (h.number bytes)

/-- An IPv4 or IPv6 address: as many bytes as its family has, with that family
in the family field. -/
structure SockAddr where
  family : Family
  bytes : List Byte
  length_eq : bytes.length = salen family
  family_eq : (loadFamily h bytes).value = h.code family

def sin_port : Field sizeof_sockaddr_in := ⟨2, 2, by decide⟩

def sin_addr : Field sizeof_sockaddr_in := ⟨4, 4, by decide⟩

def sin6_port : Field sizeof_sockaddr_in6 := ⟨2, 2, by decide⟩

def sin6_addr : Field sizeof_sockaddr_in6 := ⟨8, 16, by decide⟩

/-- `sun_path[0]`, with which the path of a `sockaddr_un` begins. -/
def sun_path : Field sizeof_sockaddr_un := ⟨2, 1, by decide⟩

def ntohs (bytes : List Byte) : Nat := bytes.foldl (fun n b => 256 * n + b.toNat) 0

def addrPort {struct : Nat} (block : List Byte) (addr port : Field struct)
    (inet_ntop : List Byte → Option String) (withPort : String → String → String) :
    Access (Option String) := do
  let bytes ← load block addr
  match inet_ntop bytes with
  | none => pure none
  | some str =>
      let bytes ← load block port
      if ntohs bytes ≠ 0 then pure (some (withPort str (toString (ntohs bytes))))
      else pure (some str)

/-- What `%s` makes of the string at `sun_path`, with a character for each byte. -/
def pathname (block : List Byte) : Access String :=
  let path := cString (block.drop sun_path.offset)
  ⟨.ofList (path.map fun b => Char.ofNat b.toNat), [(sun_path.offset, path.length + 1)]⟩

def unixPath (block : List Byte) : Access (Option String) := do
  let first ← load block sun_path
  if first = [0] then pure (some "(no pathname bound)")
  else
    let str ← pathname block
    pure (some str)

/-- `sock_ntop` on the address at the start of a block, before the text is cut to the
size of `str`. The IPv6 case is there only if the macro `IPV6` is defined. -/
def sock_ntop (IPV6 : Bool) (inet_ntop : Family → List Byte → Option String)
    (block : List Byte) (salen : Nat) : Access (Option String) := do
  let sa_family ← loadFamily h block
  match h.family sa_family, IPV6 with
  | some .inet, _ =>
      addrPort block sin_addr sin_port (inet_ntop .inet)
        fun str port => str ++ ":" ++ port
  | some .inet6, true =>
      addrPort block sin6_addr sin6_port (inet_ntop .inet6)
        fun str port => "[" ++ str ++ "]:" ++ port
  | _, _ =>
      if sa_family = h.AF_UNIX then unixPath block
      else
        pure (some ("sock_ntop: unknown AF_xxx: " ++ toString sa_family ++ ", len " ++
          toString salen))

variable {h}

theorem loadFamily_within (block : List Byte) {n : Nat} (hn : sizeof_sockaddr_in ≤ n) :
    (loadFamily h block).Within n :=
  (load_within block h.sa_family hn).bind (Access.within_pure n _)

theorem loadFamily_congr {block block' : List Byte} {n : Nat}
    (heq : block.take n = block'.take n) (hn : sizeof_sockaddr_in ≤ n) :
    loadFamily h block = loadFamily h block' := by
  unfold loadFamily
  rw [load_congr h.sa_family heq hn]

theorem addrPort_within {struct n : Nat} (hn : struct ≤ n) (block : List Byte)
    (addr port : Field struct) (inet_ntop : List Byte → Option String)
    (withPort : String → String → String) :
    (addrPort block addr port inet_ntop withPort).Within n := by
  unfold addrPort
  apply (load_within block addr hn).bind
  cases inet_ntop (load block addr).value with
  | none => exact Access.within_pure n _
  | some str =>
      apply (load_within block port hn).bind
      split_ifs <;> exact Access.within_pure n _

theorem sock_ntop_within (IPV6 : Bool) (inet_ntop : Family → List Byte → Option String)
    {block : List Byte} {f : Family} (len : Nat)
    (hf : h.family (loadFamily h block).value = some f) :
    (sock_ntop h IPV6 inet_ntop block len).Within (salen f) := by
  unfold sock_ntop
  apply (loadFamily_within block (le_salen f)).bind
  rw [hf, if_neg (h.family_ne_unix hf)]
  cases f with
  | inet =>
      exact addrPort_within (Nat.le_refl _) block sin_addr sin_port _ _
  | inet6 =>
      cases IPV6 with
      | false => exact Access.within_pure _ _
      | true =>
          exact addrPort_within (Nat.le_refl _) block sin6_addr sin6_port _ _

theorem addrPort_congr {struct n : Nat} (hn : struct ≤ n) {block block' : List Byte}
    (heq : block.take n = block'.take n) (addr port : Field struct)
    (inet_ntop : List Byte → Option String) (withPort : String → String → String) :
    addrPort block addr port inet_ntop withPort =
      addrPort block' addr port inet_ntop withPort := by
  unfold addrPort
  rw [load_congr addr heq hn, load_congr port heq hn]

theorem sock_ntop_congr (IPV6 : Bool) (inet_ntop : Family → List Byte → Option String)
    {block block' : List Byte} {f : Family} (len : Nat)
    (hf : h.family (loadFamily h block).value = some f)
    (heq : block.take (salen f) = block'.take (salen f)) :
    sock_ntop h IPV6 inet_ntop block len = sock_ntop h IPV6 inet_ntop block' len := by
  unfold sock_ntop
  rw [← loadFamily_congr heq (le_salen f)]
  apply Access.bind_congr
  rw [hf, if_neg (h.family_ne_unix hf), if_neg (h.family_ne_unix hf)]
  cases f with
  | inet => exact addrPort_congr (Nat.le_refl _) heq sin_addr sin_port _ _
  | inet6 =>
      cases IPV6 with
      | false => rfl
      | true => exact addrPort_congr (Nat.le_refl _) heq sin6_addr sin6_port _ _

end MyUnp.SocketAddress
