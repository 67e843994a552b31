import MyUnp.Decimal
import MyUnp.Readn
import MyUnp.TransitionSystem
import MyUnp.WebChild

/-!
One connection between a child of the client of Chapter 30 and the process that
runs `web_child` for it, one system call at a time.
-/

namespace MyUnp.WebExchange

open MyUnp.Atol MyUnp.Decimal MyUnp.Readline MyUnp.Readn MyUnp.TransitionSystem
open MyUnp.Unp MyUnp.WebChild

/-- The command line of the client, and what the kernel holds of a reply that
the client has not read. -/
structure Config where
  nchildren : Int
  nloops : Int
  nbytes : Nat
  sndbuf : Nat
  nbytes_pos : 0 < nbytes
  nbytes_lt : (nbytes : Int) < MAXN
  room : 0 < sndbuf

def requestText (nbytes : Nat) : List Byte :=
  cString ((decimal nbytes ++ [newline]).take (MAXLINE - 1))

/-- Program points of the client in one round of its loop: before `Write`, in
`Readn`, before `Close`, behind it, and in `err_quit`. -/
inductive ClientPc where
  | write
  | readn (f : Frame)
  | close
  | closed
  | errQuit (n : Int)
  deriving DecidableEq

/-- The server's process: not forked yet, in `Readline` with `acc` in `line` so
far, in `Writen`, back from `web_child`, or ended in it. -/
inductive ServerPc where
  | queued
  | readline (acc : List Byte)
  | writen (ntowrite : Nat) (f : Frame)
  | returned
  | errSys
  | errQuit (ntowrite : Int)
  deriving DecidableEq

/-- Both processes and the two directions of the connection: `up` is what the
client has written and the server has not read, `down` the number of bytes the
other way. `written` and `got` record how much the server has written in all and
what `Readn` has returned. -/
structure Conn where
  clientPc : ClientPc
  serverPc : ServerPc
  readBuf : ReadBuf
  up : List Byte
  down : Nat
  written : Nat
  got : Option Int
  deriving DecidableEq

def Conn.start : Conn := ⟨.write, .queued, .empty, [], 0, 0, none⟩

inductive ClientAct where
  | write
  | read (k : Nat)
  | readEintr
  | readEof
  | close
  deriving DecidableEq

inductive ServerAct where
  | accept
  | fill (k : Nat)
  | fillEintr
  | fillEof
  | byte
  | write (k : Nat)
  | writeEintr
  deriving DecidableEq

def ClientPc.open : ClientPc → Bool
  | .closed => false
  | .errQuit _ => false
  | _ => true

def ServerPc.open : ServerPc → Bool
  | .returned => false
  | .errSys => false
  | .errQuit _ => false
  | _ => true

variable (cfg : Config)

def Conn.afterReadn (c : Conn) : Pass → Conn
  | .call f => { c with clientPc := .readn f }
  | .done n =>
      { c with
        clientPc := if n = cfg.nbytes then .close else .errQuit n
        got := some n }

def Conn.clientStep (c : Conn) : ClientAct → Option Conn
  | .write =>
      if c.clientPc = .write then
        some ({ c with up := c.up ++ requestText cfg.nbytes }.afterReadn cfg
          (loopHead (.start cfg.nbytes)))
      else none
  | .read k =>
      match c.clientPc with
      | .readn f =>
          if 0 < k ∧ k ≤ f.nleft ∧ k ≤ c.down then
            some ({ c with down := c.down - k }.afterReadn cfg (read_n f k false))
          else none
      | _ => none
  | .readEintr =>
      match c.clientPc with
      | .readn f => some (c.afterReadn cfg (read_n f (-1) true))
      | _ => none
  | .readEof =>
      match c.clientPc with
      | .readn f =>
          if c.down = 0 ∧ c.serverPc.open = false then
            some (c.afterReadn cfg (read_n f 0 false))
          else none
      | _ => none
  | .close => if c.clientPc = .close then some { c with clientPc := .closed } else none

/-- `Writen` ends the process unless `writen` has returned `ntowrite`; then
`web_child` goes on with its loop. -/
def Conn.afterWriten (c : Conn) (ntowrite : Nat) : Pass → Conn
  | .call f => { c with serverPc := .writen ntowrite f }
  | .done ret => { c with serverPc := if ret = ntowrite then .readline [] else .errSys }

def Conn.afterReadline (c : Conn) : Request → Conn
  | .closed => { c with serverPc := .returned }
  | .readError => { c with serverPc := .errSys }
  | .refused ntowrite => { c with serverPc := .errQuit ntowrite }
  | .reply ntowrite => c.afterWriten ntowrite (loopHead (.start ntowrite))

def Conn.serverStep (c : Conn) : ServerAct → Option Conn
  | .accept =>
      if c.serverPc = .queued then some { c with serverPc := .readline [] } else none
  -- my_read with read_cnt <= 0: `read(fd, read_buf, sizeof(read_buf))`
  | .fill k =>
      match c.serverPc with
      | .readline _ =>
          if c.readBuf.unread = [] ∧ 0 < k ∧ k ≤ MAXLINE ∧ k ≤ c.up.length then
            some { c with readBuf := ⟨c.up.take k⟩, up := c.up.drop k }
          else none
      | _ => none
  | .fillEintr =>
      match c.serverPc with
      | .readline _ => if c.readBuf.unread = [] then some c else none
      | _ => none
  -- readline returns the n - 1 bytes it has
  | .fillEof =>
      match c.serverPc with
      | .readline acc =>
          if c.readBuf.unread = [] ∧ c.up = [] ∧ c.clientPc.open = false then
            some (c.afterReadline (if acc = [] then .closed else request acc))
          else none
      | _ => none
  | .byte =>
      match c.serverPc, c.readBuf.unread with
      | .readline acc, b :: rest =>
          if endsLine MAXLINE acc b then
            some ({ c with readBuf := ⟨rest⟩ }.afterReadline (request (acc ++ [b])))
          else some { c with readBuf := ⟨rest⟩, serverPc := .readline (acc ++ [b]) }
      | _, _ => none
  | .write k =>
      match c.serverPc with
      | .writen ntowrite f =>
          if 0 < k ∧ k ≤ f.nleft ∧ c.down + k ≤ cfg.sndbuf then
            some ({ c with down := c.down + k, written := c.written + k }.afterWriten
              ntowrite (writen f k false))
          else none
      | _ => none
  | .writeEintr =>
      match c.serverPc with
      | .writen ntowrite f => some (c.afterWriten ntowrite (writen f (-1) true))
      | _ => none

def ClientAct.interrupted : ClientAct → Bool
  | .readEintr => true
  | _ => false

def ServerAct.interrupted : ServerAct → Bool
  | .fillEintr => true
  | .writeEintr => true
  | _ => false

section Request

variable {cfg}

theorem Config.nbytes_le (cfg : Config) : cfg.nbytes < 16384 := by
  have hlt := cfg.nbytes_lt
  rw [MAXN] at hlt
  omega

theorem Config.nbytes_ssize (cfg : Config) : cfg.nbytes ≤ SSIZE_MAX := by
  have hlt := cfg.nbytes_le
  rw [SSIZE_MAX]
  omega

theorem decimal_length_lt (cfg : Config) : (decimal cfg.nbytes).length < MAXLINE - 2 := by
  have hlen := decimalDigits_length_le (cfg.nbytes + 1) cfg.nbytes
  have hlt := cfg.nbytes_le
  rw [decimal, MAXLINE]
  omega

theorem requestText_eq (cfg : Config) :
    requestText cfg.nbytes = decimal cfg.nbytes ++ [newline] := by
  have hlen := decimal_length_lt cfg
  rw [requestText, List.take_of_length_le]
  · apply cString_eq_self
    intro hmem
    rcases List.mem_append.mp hmem with hmem | hmem
    · have hdigit := decimal_isDigit _ _ hmem
      exact absurd hdigit (by decide)
    · exact absurd (List.mem_singleton.mp hmem) (by decide)
  · rw [List.length_append, List.length_singleton]
    omega

theorem requestText_ne_nil (cfg : Config) : requestText cfg.nbytes ≠ [] := by
  rw [requestText_eq]
  exact List.append_ne_nil_of_right_ne_nil _ (List.cons_ne_nil _ _)

theorem request_requestText (cfg : Config) :
    request (requestText cfg.nbytes) = .reply cfg.nbytes := by
  have hpos := cfg.nbytes_pos
  have hlt := cfg.nbytes_lt
  have hle := cfg.nbytes_le
  have hvalue := decimalValue_decimal cfg.nbytes isDigit_newline []
  have hatol : toInt (atol (requestText cfg.nbytes)) = cfg.nbytes := by
    rw [requestText_eq, toInt_atol, hvalue]
    rw [hvalue, IsInt]
    omega
  rw [request, hatol, if_neg (by omega), Int.toNat_natCast]

theorem endsLine_requestText {acc rest : List Byte} {b : Byte}
    (h : acc ++ b :: rest = requestText cfg.nbytes) :
    endsLine MAXLINE acc b = true ↔ rest = [] := by
  have hlen := decimal_length_lt cfg
  rw [requestText_eq] at h
  constructor
  · intro hends
    rcases List.eq_nil_or_concat rest with rfl | ⟨front, x, rfl⟩
    · rfl
    · rw [List.concat_eq_append, ← List.cons_append, ← List.append_assoc] at h
      obtain ⟨hdecimal, -⟩ := List.append_inj' h rfl
      have hmem : b ∈ decimal cfg.nbytes := by
        rw [← hdecimal]
        exact List.mem_append_right _ List.mem_cons_self
      have hne : b ≠ newline := by
        rintro rfl
        have hdigit := decimal_isDigit _ _ hmem
        rw [isDigit_newline] at hdigit
        exact Bool.false_ne_true hdigit
      have hlength := congrArg List.length hdecimal
      rw [List.length_append, List.length_cons] at hlength
      rw [endsLine, Bool.or_eq_true, decide_eq_true_eq, decide_eq_true_eq] at hends
      rcases hends with heq | hlimit
      · exact absurd heq hne
      · omega
  · rintro rfl
    obtain ⟨-, hb⟩ := List.append_inj' h rfl
    rw [List.singleton_inj.mp hb]
    rfl

end Request

section Frames

variable {cfg}

def frameAt (cfg : Config) (q : Nat) : Frame := ⟨cfg.nbytes, cfg.nbytes - q, q⟩

@[simp] theorem frameAt_nleft (q : Nat) : (frameAt cfg q).nleft = cfg.nbytes - q := rfl

theorem start_eq_frameAt : Frame.start cfg.nbytes = frameAt cfg 0 := rfl

theorem frameAt_inside {q : Nat} (h : q ≤ cfg.nbytes) : (frameAt cfg q).Inside := by
  have hle := cfg.nbytes_ssize
  have hlt := SSIZE_MAX_lt
  refine ⟨?_, ?_⟩
  · change q + (cfg.nbytes - q) = cfg.nbytes
    omega
  · change cfg.nbytes < SIZE
    omega

theorem frameAt_advance {q k : Nat} (h : q + k ≤ cfg.nbytes) :
    (frameAt cfg q).advance k = frameAt cfg (q + k) := by
  have hle := cfg.nbytes_ssize
  have hlt := SSIZE_MAX_lt
  have hnleft : subSize (cfg.nbytes - q) (k : Int) = cfg.nbytes - q - k :=
    subSize_of_le (by omega) (by omega)
  simp only [frameAt, Frame.advance, hnleft, Nat.sub_sub, Frame.mk.injEq, true_and]
  omega

theorem loopHead_frameAt {q : Nat} (h : q ≤ cfg.nbytes) :
    loopHead (frameAt cfg q) =
      if q < cfg.nbytes then .call (frameAt cfg q) else .done cfg.nbytes := by
  rw [loopHead, frameAt_nleft, (frameAt_inside h).result_eq]
  by_cases hlt : q < cfg.nbytes
  · rw [if_pos (by omega), if_pos hlt]
  · obtain rfl : q = cfg.nbytes := by omega
    rw [if_neg (by omega), if_neg hlt]
    exact congrArg Pass.done (toSsize_of_le cfg.nbytes_ssize)

def readnPc (cfg : Config) (q : Nat) : ClientPc :=
  if q < cfg.nbytes then .readn (frameAt cfg q) else .close

def readnGot (cfg : Config) (q : Nat) : Option Int :=
  if q < cfg.nbytes then none else some cfg.nbytes

def replyPc (cfg : Config) (w : Nat) : ServerPc :=
  if w < cfg.nbytes then .writen cfg.nbytes (frameAt cfg w) else .readline []

theorem afterReadn_frameAt (c : Conn) {q : Nat} (h : q ≤ cfg.nbytes) (hgot : c.got = none) :
    c.afterReadn cfg (loopHead (frameAt cfg q)) =
      { c with clientPc := readnPc cfg q, got := readnGot cfg q } := by
  rw [loopHead_frameAt h, readnPc, readnGot]
  by_cases hlt : q < cfg.nbytes
  · rw [if_pos hlt, if_pos hlt, if_pos hlt, ← hgot]
    rfl
  · rw [if_neg hlt, if_neg hlt, if_neg hlt, Conn.afterReadn, if_pos rfl]

theorem afterWriten_frameAt (c : Conn) {w : Nat} (h : w ≤ cfg.nbytes) :
    c.afterWriten cfg.nbytes (loopHead (frameAt cfg w)) =
      { c with serverPc := replyPc cfg w } := by
  rw [loopHead_frameAt h, replyPc]
  by_cases hlt : w < cfg.nbytes
  · rw [if_pos hlt, if_pos hlt]
    rfl
  · rw [if_neg hlt, if_neg hlt, Conn.afterWriten, if_pos rfl]

end Frames

/-- The states that a connection goes through, and nothing else that it could be
in. -/
inductive Phase (cfg : Config) : Conn → Prop
  | opened : Phase cfg ⟨.write, .queued, .empty, [], 0, 0, none⟩
  | accepted : Phase cfg ⟨.write, .readline [], .empty, [], 0, 0, none⟩
  | asked :
      Phase cfg ⟨readnPc cfg 0, .queued, .empty, requestText cfg.nbytes, 0, 0, none⟩
  | asking {acc unread up : List Byte}
      (hrequest : acc ++ (unread ++ up) = requestText cfg.nbytes)
      (hrest : unread ++ up ≠ []) :
      Phase cfg ⟨readnPc cfg 0, .readline acc, ⟨unread⟩, up, 0, 0, none⟩
  | replying {q w : Nat} (hqw : q ≤ w) (hw : w ≤ cfg.nbytes) :
      Phase cfg ⟨readnPc cfg q, replyPc cfg w, .empty, [], w - q, w, readnGot cfg q⟩
  | closed :
      Phase cfg ⟨.closed, .readline [], .empty, [], 0, cfg.nbytes, some cfg.nbytes⟩
  | served :
      Phase cfg ⟨.closed, .returned, .empty, [], 0, cfg.nbytes, some cfg.nbytes⟩

def clientWork (cfg : Config) : ClientPc → Nat
  | .write => 2 * (requestText cfg.nbytes).length + cfg.nbytes + 4
  | .readn f => f.nleft + 2
  | .close => 1
  | .closed => 0
  | .errQuit _ => 0

def serverWork : ServerPc → Nat
  | .queued => 2
  | .readline _ => 1
  | .writen _ _ => 1
  | .returned => 0
  | .errSys => 0
  | .errQuit _ => 0

/-- What is still to be done on a connection. A byte of the request counts twice
until it is in the read buffer. -/
def work (cfg : Config) (c : Conn) : Nat :=
  2 * c.up.length + c.readBuf.unread.length + (cfg.nbytes - c.written) +
    clientWork cfg c.clientPc + serverWork c.serverPc

def Advances (cfg : Config) (interrupted : Bool) (c d : Conn) : Prop :=
  Phase cfg d ∧ if interrupted then d = c else work cfg d < work cfg c

section Client

variable {cfg} {c d : Conn}

inductive Conn.ClientMove (cfg : Config) (c : Conn) : ClientAct → Conn → Prop
  | write (hpc : c.clientPc = .write) :
      ClientMove cfg c .write
        ({ c with up := c.up ++ requestText cfg.nbytes }.afterReadn cfg
          (loopHead (.start cfg.nbytes)))
  | read {f : Frame} {k : Nat} (hpc : c.clientPc = .readn f) (hk : 0 < k)
      (hleft : k ≤ f.nleft) (hdown : k ≤ c.down) :
      ClientMove cfg c (.read k)
        ({ c with down := c.down - k }.afterReadn cfg (read_n f k false))
  | readEintr {f : Frame} (hpc : c.clientPc = .readn f) :
      ClientMove cfg c .readEintr (c.afterReadn cfg (read_n f (-1) true))
  | readEof {f : Frame} (hpc : c.clientPc = .readn f) (hdown : c.down = 0)
      (hserver : c.serverPc.open = false) :
      ClientMove cfg c .readEof (c.afterReadn cfg (read_n f 0 false))
  | close (hpc : c.clientPc = .close) :
      ClientMove cfg c .close { c with clientPc := .closed }

theorem clientStep_move {a : ClientAct} (h : c.clientStep cfg a = some d) :
    c.ClientMove cfg a d := by
  cases a with
  | write =>
      obtain ⟨hpc, rfl⟩ := guard_eq_some.mp h
      exact .write hpc
  | read k =>
      rw [Conn.clientStep] at h
      split at h
      · rename_i f hpc
        obtain ⟨⟨hk, hleft, hdown⟩, rfl⟩ := guard_eq_some.mp h
        exact .read hpc hk hleft hdown
      · cases h
  | readEintr =>
      rw [Conn.clientStep] at h
      split at h
      · rename_i f hpc
        obtain rfl := Option.some_inj.mp h
        exact .readEintr hpc
      · cases h
  | readEof =>
      rw [Conn.clientStep] at h
      split at h
      · rename_i f hpc
        obtain ⟨⟨hdown, hserver⟩, rfl⟩ := guard_eq_some.mp h
        exact .readEof hpc hdown hserver
      · cases h
  | close =>
      obtain ⟨hpc, rfl⟩ := guard_eq_some.mp h
      exact .close hpc

theorem readnPc_eq_readn {q : Nat} {f : Frame} :
    readnPc cfg q = .readn f ↔ q < cfg.nbytes ∧ frameAt cfg q = f := by
  by_cases hlt : q < cfg.nbytes <;> simp [readnPc, hlt]

theorem readnPc_eq_close {q : Nat} : readnPc cfg q = .close ↔ ¬q < cfg.nbytes := by
  by_cases hlt : q < cfg.nbytes <;> simp [readnPc, hlt]

theorem readnPc_open (cfg : Config) (q : Nat) : (readnPc cfg q).open = true := by
  rw [readnPc]
  split <;> rfl

theorem readnPc_ne_write (cfg : Config) (q : Nat) : readnPc cfg q ≠ .write := by
  rw [readnPc]
  split <;> simp

theorem replyPc_open (cfg : Config) (w : Nat) : (replyPc cfg w).open = true := by
  rw [replyPc]
  split <;> rfl

theorem readnGot_of_lt {q : Nat} (h : q < cfg.nbytes) : readnGot cfg q = none := if_pos h

theorem clientWork_readnPc {q : Nat} (h : q < cfg.nbytes) :
    clientWork cfg (readnPc cfg q) = cfg.nbytes - q + 2 := by
  rw [readnPc, if_pos h, clientWork, frameAt_nleft]

theorem clientWork_readnPc_le (cfg : Config) (q : Nat) :
    clientWork cfg (readnPc cfg q) ≤ cfg.nbytes - q + 2 := by
  rw [readnPc]
  split
  · exact Nat.le_refl _
  · rw [clientWork]
    omega

theorem Phase.write (h : Phase cfg c) (hpc : c.clientPc = .write) :
    Advances cfg false c ({ c with up := c.up ++ requestText cfg.nbytes }.afterReadn cfg
      (loopHead (.start cfg.nbytes))) := by
  have hwork := clientWork_readnPc_le cfg 0
  rw [start_eq_frameAt]
  cases h with
  | opened =>
      rw [afterReadn_frameAt _ (Nat.zero_le _) rfl, readnGot_of_lt cfg.nbytes_pos]
      refine ⟨.asked, ?_⟩
      simp only [Bool.false_eq_true, if_false, work, List.nil_append, List.length_nil]
      rw [show clientWork cfg .write = 2 * (requestText cfg.nbytes).length + cfg.nbytes + 4
        from rfl]
      omega
  | accepted =>
      rw [afterReadn_frameAt _ (Nat.zero_le _) rfl, readnGot_of_lt cfg.nbytes_pos]
      refine ⟨.asking rfl (requestText_ne_nil cfg), ?_⟩
      simp only [Bool.false_eq_true, if_false, work, List.nil_append, List.length_nil]
      rw [show clientWork cfg .write = 2 * (requestText cfg.nbytes).length + cfg.nbytes + 4
        from rfl]
      omega
  | asked => exact absurd hpc (readnPc_ne_write cfg 0)
  | asking => exact absurd hpc (readnPc_ne_write cfg 0)
  | replying => exact absurd hpc (readnPc_ne_write cfg _)
  | closed => cases hpc
  | served => cases hpc

theorem Phase.read (h : Phase cfg c) {f : Frame} (hpc : c.clientPc = .readn f) {k : Nat}
    (hk : 0 < k) (hleft : k ≤ f.nleft) (hdown : k ≤ c.down) :
    Advances cfg false c
      ({ c with down := c.down - k }.afterReadn cfg (read_n f k false)) := by
  have hnone : ∀ {m : Nat}, k ≤ m → m ≠ 0 := by
    intro m hkm
    omega
  cases h with
  | replying hqw hw =>
      rename_i q w
      obtain ⟨hq, rfl⟩ := readnPc_eq_readn.mp hpc
      have hdown : k ≤ w - q := hdown
      have hwork := clientWork_readnPc_le cfg (q + k)
      rw [read_n_data hk, frameAt_advance (by omega),
        afterReadn_frameAt _ (by omega) (readnGot_of_lt hq)]
      dsimp only
      rw [Nat.sub_sub]
      refine ⟨.replying (by omega) hw, ?_⟩
      simp only [Bool.false_eq_true, if_false, work, clientWork_readnPc hq]
      omega
  | opened => cases hpc
  | accepted => cases hpc
  | asked => exact absurd rfl (hnone hdown)
  | asking => exact absurd rfl (hnone hdown)
  | closed => cases hpc
  | served => cases hpc

theorem Phase.server_open (h : Phase cfg c) (hpc : c.clientPc.open = true) :
    c.serverPc.open = true := by
  cases h with
  | replying hqw hw => exact replyPc_open cfg _
  | served => cases hpc
  | _ => rfl

theorem Phase.readEintr (h : Phase cfg c) {f : Frame} (hpc : c.clientPc = .readn f) :
    c.afterReadn cfg (read_n f (-1) true) = c := by
  have hsame : ∀ {q}, readnPc cfg q = .readn f → c.clientPc = readnPc cfg q →
      c.got = none → c.afterReadn cfg (read_n f (-1) true) = c := by
    intro q hq hcpc hgot
    obtain ⟨hlt, rfl⟩ := readnPc_eq_readn.mp hq
    have hadvance : (frameAt cfg q).advance 0 = frameAt cfg q :=
      frameAt_advance (k := 0) (Nat.le_of_lt hlt)
    rw [read_n_eintr, hadvance, afterReadn_frameAt _ (Nat.le_of_lt hlt) hgot,
      ← hcpc, readnGot_of_lt hlt, ← hgot]
  cases h with
  | asked => exact hsame hpc rfl rfl
  | asking => exact hsame hpc rfl rfl
  | replying hqw hw =>
      exact hsame hpc rfl (readnGot_of_lt (readnPc_eq_readn.mp hpc).1)
  | opened => cases hpc
  | accepted => cases hpc
  | closed => cases hpc
  | served => cases hpc

theorem Phase.close (h : Phase cfg c) (hpc : c.clientPc = .close) :
    Advances cfg false c { c with clientPc := .closed } := by
  have hpos := cfg.nbytes_pos
  cases h with
  | replying hqw hw =>
      rename_i q w
      have hq := readnPc_eq_close.mp hpc
      obtain rfl : w = cfg.nbytes := by omega
      obtain rfl : q = cfg.nbytes := by omega
      have hgot : readnGot cfg cfg.nbytes = some (cfg.nbytes : Int) := if_neg hq
      have hreply : replyPc cfg cfg.nbytes = .readline [] := if_neg hq
      dsimp only at hpc ⊢
      rw [hpc, hgot, hreply, Nat.sub_self]
      refine ⟨.closed, ?_⟩
      simp [work, clientWork]
  | asked => exact absurd hpos (readnPc_eq_close.mp hpc)
  | asking => exact absurd hpos (readnPc_eq_close.mp hpc)
  | opened => cases hpc
  | accepted => cases hpc
  | closed => cases hpc
  | served => cases hpc

theorem Phase.clientStep {a : ClientAct} (h : Phase cfg c)
    (hstep : c.clientStep cfg a = some d) : Advances cfg a.interrupted c d := by
  cases clientStep_move hstep with
  | write hpc => exact h.write hpc
  | read hpc hk hleft hdown => exact h.read hpc hk hleft hdown
  | readEintr hpc =>
      rw [h.readEintr hpc]
      exact ⟨h, rfl⟩
  | readEof hpc hdown hserver =>
      rw [h.server_open (by rw [hpc]; rfl)] at hserver
      cases hserver
  | close hpc => exact h.close hpc

end Client

section Server

variable {cfg} {c d : Conn}

inductive Conn.ServerMove (cfg : Config) (c : Conn) : ServerAct → Conn → Prop
  | accept (hpc : c.serverPc = .queued) :
      ServerMove cfg c .accept { c with serverPc := .readline [] }
  | fill {acc : List Byte} {k : Nat} (hpc : c.serverPc = .readline acc)
      (hempty : c.readBuf.unread = []) (hk : 0 < k) (hup : k ≤ c.up.length) :
      ServerMove cfg c (.fill k) { c with readBuf := ⟨c.up.take k⟩, up := c.up.drop k }
  | fillEintr : ServerMove cfg c .fillEintr c
  | fillEof {acc : List Byte} (hpc : c.serverPc = .readline acc)
      (hempty : c.readBuf.unread = []) (hup : c.up = [])
      (hclient : c.clientPc.open = false) :
      ServerMove cfg c .fillEof
        (c.afterReadline (if acc = [] then .closed else request acc))
  | byte {acc rest : List Byte} {b : Byte} (hpc : c.serverPc = .readline acc)
      (hunread : c.readBuf.unread = b :: rest) :
      ServerMove cfg c .byte
        (if endsLine MAXLINE acc b then
          { c with readBuf := ⟨rest⟩ }.afterReadline (request (acc ++ [b]))
        else { c with readBuf := ⟨rest⟩, serverPc := .readline (acc ++ [b]) })
  | write {ntowrite k : Nat} {f : Frame} (hpc : c.serverPc = .writen ntowrite f)
      (hk : 0 < k) (hleft : k ≤ f.nleft) :
      ServerMove cfg c (.write k)
        ({ c with down := c.down + k, written := c.written + k }.afterWriten ntowrite
          (writen f k false))
  | writeEintr {ntowrite : Nat} {f : Frame} (hpc : c.serverPc = .writen ntowrite f) :
      ServerMove cfg c .writeEintr (c.afterWriten ntowrite (writen f (-1) true))

theorem serverStep_move {a : ServerAct} (h : c.serverStep cfg a = some d) :
    c.ServerMove cfg a d := by
  cases a with
  | accept =>
      obtain ⟨hpc, rfl⟩ := guard_eq_some.mp h
      exact .accept hpc
  | fill k =>
      rw [Conn.serverStep] at h
      split at h
      · rename_i acc hpc
        obtain ⟨⟨hempty, hk, -, hup⟩, rfl⟩ := guard_eq_some.mp h
        exact .fill hpc hempty hk hup
      · cases h
  | fillEintr =>
      rw [Conn.serverStep] at h
      split at h
      · obtain ⟨-, rfl⟩ := guard_eq_some.mp h
        exact .fillEintr
      · cases h
  | fillEof =>
      rw [Conn.serverStep] at h
      split at h
      · rename_i acc hpc
        obtain ⟨⟨hempty, hup, hclient⟩, rfl⟩ := guard_eq_some.mp h
        exact .fillEof hpc hempty hup hclient
      · cases h
  | byte =>
      rw [Conn.serverStep] at h
      split at h
      · rename_i acc b rest hpc hunread
        rw [← apply_ite some] at h
        obtain rfl := Option.some_inj.mp h
        exact .byte hpc hunread
      · cases h
  | write k =>
      rw [Conn.serverStep] at h
      split at h
      · rename_i ntowrite f hpc
        obtain ⟨⟨hk, hleft, -⟩, rfl⟩ := guard_eq_some.mp h
        exact .write hpc hk hleft
      · cases h
  | writeEintr =>
      rw [Conn.serverStep] at h
      split at h
      · rename_i ntowrite f hpc
        obtain rfl := Option.some_inj.mp h
        exact .writeEintr hpc
      · cases h

theorem afterWriten_clientPc (c : Conn) (ntowrite : Nat) (p : Pass) :
    (c.afterWriten ntowrite p).clientPc = c.clientPc := by
  cases p <;> rfl

theorem afterReadline_clientPc (c : Conn) (r : Request) :
    (c.afterReadline r).clientPc = c.clientPc := by
  cases r with
  | reply ntowrite => exact afterWriten_clientPc c ntowrite _
  | _ => rfl

theorem serverStep_clientPc {a : ServerAct} (h : c.serverStep cfg a = some d) :
    d.clientPc = c.clientPc := by
  cases serverStep_move h with
  | accept hpc => rfl
  | fill hpc hempty hk hup => rfl
  | fillEintr => rfl
  | fillEof hpc hempty hup hclient => exact afterReadline_clientPc ..
  | byte hpc hunread =>
      split
      · exact afterReadline_clientPc ..
      · rfl
  | write hpc hk hleft => exact afterWriten_clientPc ..
  | writeEintr hpc => exact afterWriten_clientPc ..

theorem replyPc_eq_writen {w k : Nat} {f : Frame} :
    replyPc cfg w = .writen k f ↔ w < cfg.nbytes ∧ cfg.nbytes = k ∧ frameAt cfg w = f := by
  by_cases hlt : w < cfg.nbytes <;> simp [replyPc, hlt]

theorem replyPc_ne_queued (cfg : Config) (w : Nat) : replyPc cfg w ≠ .queued := by
  rw [replyPc]
  split <;> simp

theorem serverWork_replyPc (cfg : Config) (w : Nat) : serverWork (replyPc cfg w) = 1 := by
  rw [replyPc]
  split <;> rfl

theorem Phase.accept (h : Phase cfg c) (hpc : c.serverPc = .queued) :
    Advances cfg false c { c with serverPc := .readline [] } := by
  cases h with
  | opened => exact ⟨.accepted, Nat.lt_succ_self _⟩
  | asked => exact ⟨.asking rfl (requestText_ne_nil cfg), Nat.lt_succ_self _⟩
  | replying hqw hw => exact absurd hpc (replyPc_ne_queued cfg _)
  | accepted => cases hpc
  | asking => cases hpc
  | closed => cases hpc
  | served => cases hpc

theorem Phase.fill (h : Phase cfg c) (hempty : c.readBuf.unread = []) {k : Nat} (hk : 0 < k)
    (hup : k ≤ c.up.length) (hpc : c.serverPc ≠ .queued) :
    Advances cfg false c { c with readBuf := ⟨c.up.take k⟩, up := c.up.drop k } := by
  have hnil : ¬k ≤ ([] : List Byte).length := by
    rw [List.length_nil]
    omega
  cases h with
  | asking hrequest hrest =>
      rename_i acc unread up
      obtain rfl : unread = [] := hempty
      have hup : k ≤ up.length := hup
      dsimp only
      refine ⟨.asking ?_ ?_, ?_⟩
      · rwa [List.take_append_drop]
      · rwa [List.take_append_drop]
      · simp only [Bool.false_eq_true, if_false, work, List.length_take, List.length_drop,
          List.length_nil]
        omega
  | asked => exact absurd rfl hpc
  | opened => exact absurd hup hnil
  | accepted => exact absurd hup hnil
  | replying hqw hw => exact absurd hup hnil
  | closed => exact absurd hup hnil
  | served => exact absurd hup hnil

theorem Phase.fillEof (h : Phase cfg c) {acc : List Byte} (hpc : c.serverPc = .readline acc)
    (hclient : c.clientPc.open = false) :
    Advances cfg false c (c.afterReadline (if acc = [] then .closed else request acc)) := by
  have hopen : ∀ {q}, c.clientPc ≠ readnPc cfg q := by
    intro q hq
    rw [hq, readnPc_open] at hclient
    cases hclient
  cases h with
  | closed =>
      obtain rfl : [] = acc := ServerPc.readline.inj hpc
      exact ⟨.served, Nat.lt_succ_self _⟩
  | opened => cases hclient
  | accepted => cases hclient
  | asked => exact absurd rfl hopen
  | asking => exact absurd rfl hopen
  | replying hqw hw => exact absurd rfl hopen
  | served => cases hpc

theorem Phase.byte (h : Phase cfg c) {acc rest : List Byte} {b : Byte}
    (hpc : c.serverPc = .readline acc) (hunread : c.readBuf.unread = b :: rest) :
    Advances cfg false c
      (if endsLine MAXLINE acc b then
        { c with readBuf := ⟨rest⟩ }.afterReadline (request (acc ++ [b]))
      else { c with readBuf := ⟨rest⟩, serverPc := .readline (acc ++ [b]) }) := by
  cases h with
  | asking hrequest hrest =>
      rename_i acc' unread up
      obtain rfl : acc' = acc := ServerPc.readline.inj hpc
      obtain rfl : unread = b :: rest := hunread
      have hends : endsLine MAXLINE acc' b = true ↔ rest ++ up = [] :=
        endsLine_requestText hrequest
      rw [List.cons_append, List.append_cons] at hrequest
      by_cases hlast : rest ++ up = []
      · obtain ⟨rfl, rfl⟩ := List.append_eq_nil_iff.mp hlast
        rw [List.append_nil, List.append_nil] at hrequest
        rw [if_pos (hends.mpr hlast), hrequest, request_requestText]
        dsimp only [Conn.afterReadline]
        rw [start_eq_frameAt, afterWriten_frameAt _ (Nat.zero_le _)]
        refine ⟨?_, ?_⟩
        · have hreply : Phase cfg ⟨readnPc cfg 0, replyPc cfg 0, .empty, [], 0, 0,
              readnGot cfg 0⟩ := .replying (Nat.le_refl 0) (Nat.zero_le _)
          rwa [readnGot_of_lt cfg.nbytes_pos] at hreply
        · have hreading : serverWork (.readline acc') = 1 := rfl
          simp only [Bool.false_eq_true, if_false, work, serverWork_replyPc, List.length_cons,
            List.length_nil]
          omega
      · rw [if_neg (mt hends.mp hlast)]
        refine ⟨.asking hrequest hlast, ?_⟩
        simp only [Bool.false_eq_true, if_false, work, List.length_cons, serverWork]
        omega
  | opened => cases hpc
  | accepted => cases hunread
  | asked => cases hpc
  | replying hqw hw => cases hunread
  | closed => cases hunread
  | served => cases hpc

theorem Phase.of_writen (h : Phase cfg c) {ntowrite : Nat} {f : Frame}
    (hpc : c.serverPc = .writen ntowrite f) :
    ∃ q w, q ≤ w ∧ w < cfg.nbytes ∧ ntowrite = cfg.nbytes ∧ f = frameAt cfg w ∧
      c = ⟨readnPc cfg q, replyPc cfg w, .empty, [], w - q, w, readnGot cfg q⟩ := by
  cases h with
  | replying hqw hw =>
      rename_i q w
      obtain ⟨hlt, rfl, rfl⟩ := replyPc_eq_writen.mp hpc
      exact ⟨q, w, hqw, hlt, rfl, rfl, rfl⟩
  | opened => cases hpc
  | accepted => cases hpc
  | asked => cases hpc
  | asking => cases hpc
  | closed => cases hpc
  | served => cases hpc

theorem Phase.serverWrite (h : Phase cfg c) {ntowrite k : Nat} {f : Frame}
    (hpc : c.serverPc = .writen ntowrite f) (hk : 0 < k) (hleft : k ≤ f.nleft) :
    Advances cfg false c
      ({ c with down := c.down + k, written := c.written + k }.afterWriten ntowrite
        (writen f k false)) := by
  obtain ⟨q, w, hqw, hlt, rfl, rfl, rfl⟩ := h.of_writen hpc
  rw [frameAt_nleft] at hleft
  rw [writen_data hk, frameAt_advance (by omega), afterWriten_frameAt _ (by omega)]
  dsimp only
  rw [show w - q + k = w + k - q by omega]
  refine ⟨.replying (by omega) (by omega), ?_⟩
  simp only [Bool.false_eq_true, if_false, work, serverWork_replyPc]
  omega

theorem Phase.writeEintr (h : Phase cfg c) {ntowrite : Nat} {f : Frame}
    (hpc : c.serverPc = .writen ntowrite f) :
    c.afterWriten ntowrite (writen f (-1) true) = c := by
  obtain ⟨q, w, hqw, hlt, rfl, rfl, rfl⟩ := h.of_writen hpc
  have hadvance : (frameAt cfg w).advance 0 = frameAt cfg w :=
    frameAt_advance (k := 0) hlt.le
  rw [writen_eintr, hadvance, afterWriten_frameAt _ hlt.le]

theorem Phase.serverStep {a : ServerAct} (h : Phase cfg c)
    (hstep : c.serverStep cfg a = some d) : Advances cfg a.interrupted c d := by
  cases serverStep_move hstep with
  | accept hpc => exact h.accept hpc
  | fill hpc hempty hk hup => exact h.fill hempty hk hup (by simp [hpc])
  | fillEintr => exact ⟨h, rfl⟩
  | fillEof hpc hempty hup hclient => exact h.fillEof hpc hclient
  | byte hpc hunread => exact h.byte hpc hunread
  | write hpc hk hleft => exact h.serverWrite hpc hk hleft
  | writeEintr hpc =>
      rw [h.writeEintr hpc]
      exact ⟨h, rfl⟩

end Server

section Law

variable {cfg} {c : Conn}

theorem Phase.progress (h : Phase cfg c) :
    (c.clientPc = .closed ∧ c.serverPc = .returned) ∨
      (∃ a, a.interrupted = false ∧ (c.clientStep cfg a).isSome) ∨
        ∃ a, a.interrupted = false ∧ (c.serverStep cfg a).isSome := by
  have hroom := cfg.room
  cases h with
  | opened => exact .inr (.inl ⟨.write, rfl, rfl⟩)
  | accepted => exact .inr (.inl ⟨.write, rfl, rfl⟩)
  | asked => exact .inr (.inr ⟨.accept, rfl, rfl⟩)
  | @asking acc unread up hrequest hrest =>
      refine .inr (.inr ?_)
      cases unread with
      | nil =>
          have hup : 1 ≤ up.length := List.length_pos_iff.mpr hrest
          refine ⟨.fill 1, rfl, ?_⟩
          rw [Conn.serverStep, if_pos ⟨rfl, Nat.one_pos, MAXLINE_pos, hup⟩]
          rfl
      | cons b rest =>
          refine ⟨.byte, rfl, ?_⟩
          rw [Conn.serverStep]
          dsimp only
          split <;> rfl
  | @replying q w hqw hw =>
      rcases Nat.eq_or_lt_of_le hqw with rfl | hlt
      · by_cases hq : q < cfg.nbytes
        · refine .inr (.inr ⟨.write 1, rfl, ?_⟩)
          rw [Conn.serverStep, replyPc, if_pos hq]
          dsimp only
          rw [if_pos ⟨Nat.one_pos, by rw [frameAt_nleft]; omega, by omega⟩]
          rfl
        · refine .inr (.inl ⟨.close, rfl, ?_⟩)
          rw [Conn.clientStep, if_pos (readnPc_eq_close.mpr hq)]
          rfl
      · refine .inr (.inl ⟨.read 1, rfl, ?_⟩)
        rw [Conn.clientStep, readnPc, if_pos (by omega)]
        dsimp only
        rw [if_pos ⟨Nat.one_pos, by rw [frameAt_nleft]; omega, by omega⟩]
        rfl
  | closed => exact .inr (.inr ⟨.fillEof, rfl, rfl⟩)
  | served => exact .inl ⟨rfl, rfl⟩

/-- The exchange on one connection: `Readn` returns `nbytes`, by then the server
has written that many bytes, it writes no more, `web_child` returns once the
client has closed the connection and not before, and neither side breaks off. -/
structure Exchange (cfg : Config) (c : Conn) : Prop where
  readn : ∀ n, c.got = some n → n = cfg.nbytes ∧ c.written = cfg.nbytes
  written_le : c.written ≤ cfg.nbytes
  client : ∀ n, c.clientPc ≠ .errQuit n
  server : c.serverPc ≠ .errSys ∧ ∀ n, c.serverPc ≠ .errQuit n
  closed : c.clientPc = .closed → c.got = some (cfg.nbytes : Int) ∧
    (c.serverPc = .returned ∨
      c.serverStep cfg .fillEof = some { c with serverPc := .returned })
  returned : c.serverPc = .returned → c.clientPc = .closed

theorem Exchange.of_open (hclient : c.clientPc.open = true)
    (hserver : c.serverPc.open = true) (hle : c.written ≤ cfg.nbytes)
    (hgot : ∀ n, c.got = some n → n = cfg.nbytes ∧ c.written = cfg.nbytes) :
    Exchange cfg c := by
  refine ⟨hgot, hle, ?_, ⟨?_, ?_⟩, ?_, ?_⟩
  · intro n hpc
    rw [hpc] at hclient
    cases hclient
  · intro hpc
    rw [hpc] at hserver
    cases hserver
  · intro n hpc
    rw [hpc] at hserver
    cases hserver
  · intro hpc
    rw [hpc] at hclient
    cases hclient
  · intro hpc
    rw [hpc] at hserver
    cases hserver

theorem Phase.exchange (h : Phase cfg c) : Exchange cfg c := by
  cases h with
  | opened => exact .of_open rfl rfl (Nat.zero_le _) (by simp)
  | accepted => exact .of_open rfl rfl (Nat.zero_le _) (by simp)
  | asked => exact .of_open (readnPc_open cfg 0) rfl (Nat.zero_le _) (by simp)
  | asking => exact .of_open (readnPc_open cfg 0) rfl (Nat.zero_le _) (by simp)
  | @replying q w hqw hw =>
      refine .of_open (readnPc_open cfg q) (replyPc_open cfg w) hw ?_
      intro n hgot
      dsimp only at hgot ⊢
      by_cases hq : q < cfg.nbytes
      · rw [readnGot_of_lt hq] at hgot
        cases hgot
      · rw [readnGot, if_neg hq] at hgot
        exact ⟨(Option.some_inj.mp hgot).symm, by omega⟩
  | closed =>
      refine ⟨by simp, Nat.le_refl _, by simp, by simp, fun _ => ⟨rfl, .inr rfl⟩, by simp⟩
  | served => constructor <;> simp

end Law

end MyUnp.WebExchange
