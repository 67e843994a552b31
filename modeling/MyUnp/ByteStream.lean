import MyUnp.MemoryBlock
import MyUnp.Readn
import MyUnp.TransitionSystem
import MyUnp.Unp

/-!
Two processes at the ends of a byte stream, one calling `writen` and the other
`read_n`, with sizes of their own. The system calls may transfer less than they
are asked for, be interrupted, or fail.
-/

namespace MyUnp.ByteStream

open MyUnp.MemoryBlock MyUnp.Readn MyUnp.TransitionSystem MyUnp.Unp

structure Writing where
  buf : List Byte
  frame : Frame
  deriving DecidableEq

structure Wrote where
  buf : List Byte
  put : Nat
  ret : Int
  deriving DecidableEq

/-- A call of `read_n` that has not returned yet: the caller's buffer as it is
now, and how many bytes had been taken off the stream before. -/
structure Reading where
  buf : List Byte
  start : Nat
  frame : Frame
  deriving DecidableEq

structure HasRead where
  buf : List Byte
  start : Nat
  took : Nat
  ret : Int
  deriving DecidableEq

/-- `stream` is everything ever put on the stream, of which `taken` bytes have
been read. -/
structure State where
  stream : List Byte
  taken : Nat
  closed : Bool
  writing : Option Writing
  wrote : List Wrote
  reading : Option Reading
  hasRead : List HasRead
  deriving DecidableEq

/-- Calls, and returns of the system calls with their value; `eintr` tells
whether a failing one has set `errno` to `EINTR`. -/
inductive Act
  | writen (buf : List Byte)
  | write (nwritten : Int) (eintr : Bool)
  | close
  | read_n (buf : List Byte)
  | read (nread : Int) (eintr : Bool)
  deriving DecidableEq

def State.start : State := ⟨[], 0, false, none, [], none, []⟩

/-- Go on with the call of `writen`, or note that it has returned. -/
def State.afterWrite (s : State) (buf : List Byte) (put : Nat) : Pass → State
  | .call f => { s with writing := some ⟨buf, f⟩ }
  | .done ret => { s with writing := none, wrote := s.wrote ++ [⟨buf, put, ret⟩] }

def State.afterRead (s : State) (buf : List Byte) (start took : Nat) : Pass → State
  | .call f => { s with reading := some ⟨buf, start, f⟩ }
  | .done ret =>
      { s with reading := none, hasRead := s.hasRead ++ [⟨buf, start, took, ret⟩] }

def State.write (s : State) (w : Writing) (nwritten : Int) (eintr : Bool) : State :=
  { s with
    stream := s.stream ++ (w.buf.drop w.frame.ptr).take nwritten.toNat }.afterWrite w.buf
      (w.frame.ptr + nwritten.toNat) (Readn.writen w.frame nwritten eintr)

def State.read (s : State) (r : Reading) (nread : Int) (eintr : Bool) : State :=
  { s with taken := s.taken + nread.toNat }.afterRead
    (store r.buf r.frame.ptr ((s.stream.drop s.taken).take nread.toNat)) r.start
    (r.frame.ptr + nread.toNat) (Readn.read_n r.frame nread eintr)

/-- What `write` may return: -1, or any number from 0 up to what was asked for
that an `ssize_t` can hold. -/
def WriteReturns (w : Writing) (nwritten : Int) : Prop :=
  -1 ≤ nwritten ∧ nwritten ≤ w.frame.nleft ∧ nwritten ≤ SSIZE_MAX

/-- What `read` may return: -1, or a part of what was asked for and is there, but
0 only at the end of the stream. -/
def ReadReturns (s : State) (r : Reading) (nread : Int) : Prop :=
  -1 ≤ nread ∧ nread ≤ r.frame.nleft ∧ nread ≤ s.stream.length - s.taken ∧
    (nread = 0 → s.closed = true ∧ s.stream.length ≤ s.taken)

instance (w : Writing) (nwritten : Int) : Decidable (WriteReturns w nwritten) :=
  inferInstanceAs (Decidable (_ ∧ _))

instance (s : State) (r : Reading) (nread : Int) : Decidable (ReadReturns s r nread) :=
  inferInstanceAs (Decidable (_ ∧ _))

def State.step (s : State) : Act → Option State
  | .writen buf =>
      if s.writing = none ∧ s.closed = false ∧ buf.length < SIZE then
        some (s.afterWrite buf 0 (loopHead (.start buf.length)))
      else none
  | .write nwritten eintr =>
      match s.writing with
      | none => none
      | some w =>
          if WriteReturns w nwritten then some (s.write w nwritten eintr) else none
  | .close => if s.writing = none then some { s with closed := true } else none
  | .read_n buf =>
      if s.reading = none ∧ buf.length ≤ SSIZE_MAX then
        some (s.afterRead buf s.taken 0 (loopHead (.start buf.length)))
      else none
  | .read nread eintr =>
      match s.reading with
      | none => none
      | some r =>
          if ReadReturns s r nread then some (s.read r nread eintr) else none

def system : System State Act where
  init s := s = .start
  step := State.step

inductive Move (s : State) : Act → State → Prop
  | writen {buf : List Byte} (hidle : s.writing = none) (hopen : s.closed = false)
      (hlen : buf.length < SIZE) :
      Move s (.writen buf) (s.afterWrite buf 0 (loopHead (.start buf.length)))
  | write {w : Writing} {nwritten : Int} {eintr : Bool} (hw : s.writing = some w)
      (hret : WriteReturns w nwritten) :
      Move s (.write nwritten eintr) (s.write w nwritten eintr)
  | close (hidle : s.writing = none) : Move s .close { s with closed := true }
  | read_n {buf : List Byte} (hidle : s.reading = none)
      (hlen : buf.length ≤ SSIZE_MAX) :
      Move s (.read_n buf) (s.afterRead buf s.taken 0 (loopHead (.start buf.length)))
  | read {r : Reading} {nread : Int} {eintr : Bool} (hr : s.reading = some r)
      (hret : ReadReturns s r nread) :
      Move s (.read nread eintr) (s.read r nread eintr)

theorem step_move {s t : State} {l : Act} (h : system.step s l = some t) : Move s l t := by
  change s.step l = some t at h
  cases l with
  | writen buf =>
      obtain ⟨⟨hidle, hopen, hlen⟩, rfl⟩ := guard_eq_some.mp h
      exact .writen hidle hopen hlen
  | write nwritten eintr =>
      rw [State.step] at h
      cases hw : s.writing with
      | none =>
          rw [hw] at h
          cases h
      | some w =>
          rw [hw] at h
          obtain ⟨hret, rfl⟩ := guard_eq_some.mp h
          exact .write hw hret
  | close =>
      obtain ⟨hidle, rfl⟩ := guard_eq_some.mp h
      exact .close hidle
  | read_n buf =>
      obtain ⟨⟨hidle, hlen⟩, rfl⟩ := guard_eq_some.mp h
      exact .read_n hidle hlen
  | read nread eintr =>
      rw [State.step] at h
      cases hr : s.reading with
      | none =>
          rw [hr] at h
          cases h
      | some r =>
          rw [hr] at h
          obtain ⟨hret, rfl⟩ := guard_eq_some.mp h
          exact .read hr hret

def inFlight : Option Writing → List Byte
  | none => []
  | some w => w.buf.take w.frame.ptr

def written (s : State) : List Byte := s.wrote.flatMap fun w => w.buf.take w.put

theorem written_done (s : State) (buf : List Byte) (put : Nat) (ret : Int) :
    written (s.afterWrite buf put (.done ret)) = written s ++ buf.take put := by
  unfold written State.afterWrite
  rw [List.flatMap_append, List.flatMap_singleton]

structure Wrote.Ok (w : Wrote) : Prop where
  put_le : w.put ≤ w.buf.length
  lt_size : w.buf.length < SIZE
  ret_eq : w.ret = -1 ∨ w.put = w.buf.length ∧ w.ret = toSsize w.buf.length

structure Writing.Ok (w : Writing) : Prop where
  n_eq : w.frame.n = w.buf.length
  inside : w.frame.Inside

structure WriterInv (s : State) : Prop where
  stream_eq : s.stream = written s ++ inFlight s.writing
  writing : ∀ w, s.writing = some w → s.closed = false ∧ w.Ok
  wrote : ∀ w ∈ s.wrote, w.Ok

section Writer

variable {s t : State}

theorem WriterInv.after {buf : List Byte} {f : Frame} {p : Pass}
    (hstream : s.stream = written s ++ buf.take f.ptr) (hopen : s.closed = false)
    (hn : f.n = buf.length) (hf : f.Inside) (hwrote : ∀ w ∈ s.wrote, w.Ok)
    (hp : p = loopHead f ∨ p = .done (-1)) : WriterInv (s.afterWrite buf f.ptr p) := by
  have hsum := hf.sum_eq
  have hlt := hf.lt_size
  have hok : ∀ ret, (ret = -1 ∨ f.ptr = buf.length ∧ ret = toSsize buf.length) →
      WriterInv (s.afterWrite buf f.ptr (.done ret)) := by
    intro ret hret
    refine ⟨?_, fun w hw => ?_, ?_⟩
    · rw [written_done, ← hstream]
      exact (List.append_nil _).symm
    · cases hw
    · intro w hw
      rcases List.mem_append.mp hw with hold | hnew
      · exact hwrote w hold
      · obtain rfl := List.mem_singleton.mp hnew
        exact ⟨by dsimp only; omega, by dsimp only; omega, hret⟩
  rcases hp with rfl | rfl
  · cases hhead : loopHead f with
    | call g =>
        obtain ⟨rfl, hpos⟩ := loopHead_call hhead
        refine ⟨hstream, ?_, hwrote⟩
        rintro w ⟨⟩
        exact ⟨hopen, hn, hf⟩
    | done ret =>
        obtain ⟨_, hptr, hret⟩ := loopHead_done hf hhead
        exact hok ret (.inr ⟨hptr.trans hn, hn ▸ hret⟩)
  · exact hok (-1) (.inl rfl)

theorem WriterInv.write (h : WriterInv s) {w : Writing} {nwritten : Int} {eintr : Bool}
    (hw : s.writing = some w) (hret : WriteReturns w nwritten) :
    WriterInv (s.write w nwritten eintr) := by
  obtain ⟨hlow, hleft, _⟩ := hret
  obtain ⟨hopen, hn, hf⟩ := h.writing w hw
  have hk : nwritten.toNat ≤ w.frame.nleft := by omega
  have hstream := h.stream_eq
  rw [hw] at hstream
  have hgrown : s.stream ++ (w.buf.drop w.frame.ptr).take nwritten.toNat =
      written s ++ w.buf.take (w.frame.advance nwritten.toNat).ptr := by
    rw [hstream, Frame.advance_ptr, List.append_assoc, List.take_add]
    rfl
  have hcases : Readn.writen w.frame nwritten eintr =
        loopHead (w.frame.advance nwritten.toNat) ∨
      Readn.writen w.frame nwritten eintr = .done (-1) :=
    (writen_cases hlow eintr).imp And.left And.left
  have hafter := WriterInv.after
    (s := { s with stream := s.stream ++ (w.buf.drop w.frame.ptr).take nwritten.toNat })
    hgrown hopen hn (hf.advance hk) h.wrote hcases
  rw [Frame.advance_ptr] at hafter
  exact hafter

theorem WriterInv.congr (h : WriterInv s) (hstream : t.stream = s.stream)
    (hwriting : t.writing = s.writing) (hwrote : t.wrote = s.wrote)
    (hclosed : t.closed = s.closed ∨ s.writing = none) : WriterInv t := by
  refine ⟨?_, ?_, ?_⟩
  · rw [hstream, hwriting, h.stream_eq, written, written, hwrote]
  · intro w hw
    rw [hwriting] at hw
    rcases hclosed with hsame | hnone
    · rw [hsame]
      exact h.writing w hw
    · rw [hnone] at hw
      cases hw
  · rw [hwrote]
    exact h.wrote

end Writer

theorem reachable_writer {s : State} (h : system.Reachable s) : WriterInv s := by
  refine h.invariant (P := WriterInv) ?_ ?_
  · rintro s rfl
    exact ⟨rfl, fun _ hw => (by cases hw), List.forall_mem_nil _⟩
  · intro s l t _ hs hstep
    cases step_move hstep with
    | @writen buf hidle hopen hlen =>
        have hstream := hs.stream_eq
        rw [hidle] at hstream
        exact WriterInv.after (f := .start buf.length) hstream hopen rfl
          (Frame.Inside.start hlen) hs.wrote (.inl rfl)
    | write hw hret => exact hs.write hw hret
    | close hidle => exact hs.congr rfl rfl rfl (.inr hidle)
    | @read_n buf hidle hlen =>
        cases hhead : loopHead (.start buf.length) <;>
          exact hs.congr rfl rfl rfl (.inl rfl)
    | @read r nread eintr hr hret =>
        unfold State.read
        cases Readn.read_n r.frame nread eintr <;>
          exact hs.congr rfl rfl rfl (.inl rfl)

/-- Where on the stream the call of `read_n` in progress began, or the next one
will begin. -/
def position (s : State) : Nat :=
  match s.reading with
  | none => s.taken
  | some r => r.start

def Consecutive : Nat → List HasRead → Nat → Prop
  | a, [], b => a = b
  | a, r :: rs, b => r.start = a ∧ Consecutive (a + r.took) rs b

theorem Consecutive.snoc {a b : Nat} {rs : List HasRead} (h : Consecutive a rs b)
    {r : HasRead} (hr : r.start = b) : Consecutive a (rs ++ [r]) (b + r.took) := by
  induction rs generalizing a with
  | nil =>
      obtain rfl : a = b := h
      exact ⟨hr, rfl⟩
  | cons q rs ih => exact ⟨h.1, ih h.2⟩

structure HasRead.Ok (s : State) (r : HasRead) : Prop where
  took_le : r.took ≤ r.buf.length
  le_taken : r.start + r.took ≤ s.taken
  buf_eq : r.buf.take r.took = (s.stream.drop r.start).take r.took
  ret_eq : r.ret = -1 ∨ r.ret = r.took ∧
    (r.took = r.buf.length ∨ s.closed = true ∧ r.start + r.took = s.stream.length)

structure Reading.Ok (s : State) (r : Reading) : Prop where
  n_eq : r.frame.n = r.buf.length
  le_max : r.buf.length ≤ SSIZE_MAX
  inside : r.frame.Inside
  taken_eq : r.start + r.frame.ptr = s.taken
  buf_eq : r.buf.take r.frame.ptr = (s.stream.drop r.start).take r.frame.ptr

structure ReaderInv (s : State) : Prop where
  taken_le : s.taken ≤ s.stream.length
  reading : ∀ r, s.reading = some r → r.Ok s
  hasRead : ∀ r ∈ s.hasRead, r.Ok s
  consecutive : Consecutive 0 s.hasRead (position s)

section Reader

variable {s t : State}

theorem take_drop_append {α : Type} {a n : Nat} {x : List α} (h : a + n ≤ x.length)
    (y : List α) : ((x ++ y).drop a).take n = (x.drop a).take n := by
  rw [List.drop_append_of_le_length (by omega), List.take_append_of_le_length]
  rw [List.length_drop]
  omega

theorem ReaderInv.mono (h : ReaderInv s) {more : List Byte}
    (hstream : t.stream = s.stream ++ more) (htaken : t.taken = s.taken)
    (hreading : t.reading = s.reading) (hhasRead : t.hasRead = s.hasRead)
    (hclosed : s.closed = true → t.closed = true ∧ more = []) : ReaderInv t := by
  have hle := h.taken_le
  have hposition : position t = position s := by
    rw [position, position, hreading, htaken]
  refine ⟨?_, ?_, ?_, ?_⟩
  · rw [hstream, htaken, List.length_append]
    omega
  · intro r hr
    obtain ⟨hn, hmax, hf, htake, hbuf⟩ := h.reading r (hreading ▸ hr)
    refine ⟨hn, hmax, hf, htake.trans htaken.symm, ?_⟩
    rw [hstream, take_drop_append (by omega)]
    exact hbuf
  · intro r hr
    obtain ⟨htook, hlet, hbuf, hret⟩ := h.hasRead r (hhasRead ▸ hr)
    refine ⟨htook, htaken ▸ hlet, ?_, ?_⟩
    · rw [hstream, take_drop_append (by omega)]
      exact hbuf
    · refine hret.imp_right (And.imp_right (Or.imp_right ?_))
      rintro ⟨hcl, hend⟩
      obtain ⟨hclt, rfl⟩ := hclosed hcl
      rw [hstream, List.append_nil]
      exact ⟨hclt, hend⟩
  · rw [hhasRead, hposition]
    exact h.consecutive

theorem ReaderInv.after {buf : List Byte} {start : Nat} {f : Frame} {p : Pass}
    (hle : s.taken ≤ s.stream.length) (hr : Reading.Ok s ⟨buf, start, f⟩)
    (hhasRead : ∀ r ∈ s.hasRead, r.Ok s) (hcons : Consecutive 0 s.hasRead start)
    (hp : p = loopHead f ∨ p = .done (-1) ∨
      p = .done f.result ∧ s.closed = true ∧ s.stream.length ≤ s.taken) :
    ReaderInv (s.afterRead buf start f.ptr p) := by
  obtain ⟨hn, hmax, hf, htaken, hbuf⟩ := hr
  dsimp only at hn hmax hf htaken hbuf
  have hsum := hf.sum_eq
  have hok : ∀ ret, (ret = -1 ∨ ret = (f.ptr : Int) ∧ (f.ptr = buf.length ∨
      s.closed = true ∧ start + f.ptr = s.stream.length)) →
      ReaderInv (s.afterRead buf start f.ptr (.done ret)) := by
    intro ret hret
    refine ⟨hle, fun r hr => (by cases hr), ?_, ?_⟩
    · intro r hr
      rcases List.mem_append.mp hr with hold | hnew
      · exact ⟨(hhasRead r hold).took_le, (hhasRead r hold).le_taken,
          (hhasRead r hold).buf_eq, (hhasRead r hold).ret_eq⟩
      · obtain rfl := List.mem_singleton.mp hnew
        exact ⟨by dsimp only; omega, htaken.le, hbuf, hret⟩
    · have hpos : position (s.afterRead buf start f.ptr (.done ret)) = start + f.ptr :=
        htaken.symm
      rw [hpos]
      exact hcons.snoc rfl
  rcases hp with rfl | rfl | ⟨rfl, hclosed, hend⟩
  · cases hhead : loopHead f with
    | call g =>
        obtain ⟨rfl, hpos⟩ := loopHead_call hhead
        refine ⟨hle, ?_, ?_, hcons⟩
        · rintro r ⟨⟩
          exact ⟨hn, hmax, hf, htaken, hbuf⟩
        · intro r hr
          exact ⟨(hhasRead r hr).took_le, (hhasRead r hr).le_taken,
            (hhasRead r hr).buf_eq, (hhasRead r hr).ret_eq⟩
    | done ret =>
        obtain ⟨_, hptr, hret⟩ := loopHead_done hf hhead
        rw [toSsize_of_le (by omega)] at hret
        exact hok ret (.inr ⟨by omega, .inl (by omega)⟩)
  · exact hok (-1) (.inl rfl)
  · refine hok _ (.inr ⟨?_, .inr ⟨hclosed, by omega⟩⟩)
    rw [hf.result_eq, toSsize_of_le (by omega)]

theorem take_store_stream {buf : List Byte} {start ptr k : Nat}
    (hbuf : buf.take ptr = (s.stream.drop start).take ptr)
    (hfit : ptr + k ≤ buf.length) (havail : start + ptr + k ≤ s.stream.length) :
    (store buf ptr ((s.stream.drop (start + ptr)).take k)).take (ptr + k) =
      (s.stream.drop start).take (ptr + k) := by
  have hfront : ((s.stream.drop start).take ptr).length = ptr := by
    rw [List.length_take, List.length_drop]
    omega
  have hnew : ((s.stream.drop (start + ptr)).take k).length = k := by
    rw [List.length_take, List.length_drop]
    omega
  have hroom : ((s.stream.drop start).take ptr).length +
      ((s.stream.drop (start + ptr)).take k).length ≤ buf.length := by
    rw [hfront, hnew]
    exact hfit
  have hstore := take_store (by rw [hfront]; exact hbuf) hroom
  rw [hfront, hnew] at hstore
  rw [hstore, List.take_add, List.drop_drop]

theorem ReaderInv.read (h : ReaderInv s) {r : Reading} {nread : Int} {eintr : Bool}
    (hr : s.reading = some r) (hret : ReadReturns s r nread) :
    ReaderInv (s.read r nread eintr) := by
  obtain ⟨hlow, hleft, havail, heof⟩ := hret
  obtain ⟨hn, hmax, hf, htaken, hbuf⟩ := h.reading r hr
  have hle := h.taken_le
  have hsum := hf.sum_eq
  have hk : nread.toNat ≤ r.frame.nleft := by omega
  have hroom : s.taken + nread.toNat ≤ s.stream.length := by omega
  have hstored := take_store_stream (s := s) (k := nread.toNat) hbuf (by omega) (by omega)
  rw [htaken] at hstored
  have hcases : Readn.read_n r.frame nread eintr =
        loopHead (r.frame.advance nread.toNat) ∨
      Readn.read_n r.frame nread eintr = .done (-1) ∨
      Readn.read_n r.frame nread eintr = .done (r.frame.advance nread.toNat).result ∧
        s.closed = true ∧ s.stream.length ≤ s.taken + nread.toNat := by
    rcases read_n_cases hlow eintr with ⟨hgo, _⟩ | ⟨hdone, rfl⟩ | ⟨herr, _⟩
    · exact .inl hgo
    · obtain ⟨hclosed, hend⟩ := heof rfl
      refine .inr (.inr ⟨?_, hclosed, by omega⟩)
      rw [hdone, (hf.advance hk).result_eq, hf.result_eq, Frame.advance_ptr]
      rfl
    · exact .inr (.inl herr)
  have hcall : Reading.Ok { s with taken := s.taken + nread.toNat }
      ⟨store r.buf r.frame.ptr ((s.stream.drop s.taken).take nread.toNat), r.start,
        r.frame.advance nread.toNat⟩ := by
    refine ⟨?_, ?_, hf.advance hk, ?_, ?_⟩
    · rw [Frame.advance_n, store_length, hn]
    · rw [store_length]
      exact hmax
    · rw [Frame.advance_ptr, ← Nat.add_assoc, htaken]
    · rw [Frame.advance_ptr]
      exact hstored
  have hpast : ∀ q ∈ s.hasRead, q.Ok { s with taken := s.taken + nread.toNat } := by
    intro q hq
    obtain ⟨htook, hlet, hgot, hresult⟩ := h.hasRead q hq
    exact ⟨htook, Nat.le_trans hlet (Nat.le_add_right _ _), hgot, hresult⟩
  have hcons := h.consecutive
  rw [position, hr] at hcons
  have hafter := ReaderInv.after hroom hcall hpast hcons hcases
  rw [Frame.advance_ptr] at hafter
  exact hafter

end Reader

theorem reachable_reader {s : State} (h : system.Reachable s) : ReaderInv s := by
  refine h.invariant (P := ReaderInv) ?_ ?_
  · rintro s rfl
    exact ⟨Nat.le_refl _, fun _ hr => (by cases hr), List.forall_mem_nil _, rfl⟩
  · intro s l t hreach hs hstep
    cases step_move hstep with
    | @writen buf hidle hopen hlen =>
        cases hhead : loopHead (.start buf.length) <;>
          exact hs.mono (List.append_nil _).symm rfl rfl rfl fun hcl => ⟨hcl, rfl⟩
    | @write w nwritten eintr hw hret =>
        have hopen := ((reachable_writer hreach).writing w hw).1
        unfold State.write
        cases Readn.writen w.frame nwritten eintr <;>
          exact hs.mono rfl rfl rfl rfl fun hcl => (by rw [hopen] at hcl; cases hcl)
    | close hidle =>
        exact hs.mono (List.append_nil _).symm rfl rfl rfl fun _ => ⟨rfl, rfl⟩
    | @read_n buf hidle hlen =>
        have hcons := hs.consecutive
        rw [position, hidle] at hcons
        have hlt := SSIZE_MAX_lt
        exact ReaderInv.after (f := .start buf.length) hs.taken_le
          ⟨rfl, hlen, Frame.Inside.start (by omega), rfl, rfl⟩ hs.hasRead hcons (.inl rfl)
    | read hr hret => exact hs.read hr hret

section Progress

variable {s t : State}

theorem write_goes_on (h : WriterInv s) {w : Writing} {nwritten : Int} {eintr : Bool}
    (hw : s.writing = some w) (hstep : system.step s (.write nwritten eintr) = some t)
    (hgood : 0 < nwritten ∨ nwritten = -1 ∧ eintr = true) :
    (∃ f, t.writing = some ⟨w.buf, f⟩ ∧ f.nleft + nwritten.toNat = w.frame.nleft) ∨
      t.writing = none ∧
        t.wrote = s.wrote ++ [⟨w.buf, w.buf.length, toSsize w.buf.length⟩] := by
  cases step_move hstep with
  | @write w' nwritten eintr hw' hret =>
      obtain rfl := Option.some_inj.mp (hw.symm.trans hw')
      obtain ⟨_, hn, hf⟩ := h.writing w hw
      have hk : nwritten.toNat ≤ w.frame.nleft := by
        have := hret.2.1
        omega
      have hadv := hf.advance hk
      unfold State.write
      rcases writen_cases hret.1 eintr with ⟨hgo, _⟩ | ⟨_, hbad⟩
      · rw [hgo, ← Frame.advance_ptr w.frame nwritten.toNat]
        cases hhead : loopHead (w.frame.advance nwritten.toNat) with
        | call f =>
            obtain ⟨rfl, _⟩ := loopHead_call hhead
            refine .inl ⟨_, rfl, ?_⟩
            rw [Frame.advance_nleft hf hk]
            omega
        | done ret =>
            obtain ⟨_, hptr, hret'⟩ := loopHead_done hadv hhead
            refine .inr ⟨rfl, ?_⟩
            rw [Frame.advance_n, hn] at hptr hret'
            rw [hret', hptr]
            rfl
      · rcases hgood with hpos | ⟨hminus, rfl⟩
        · omega
        · rcases hbad.2 with hzero | hfalse
          · omega
          · cases hfalse

theorem read_goes_on (h : ReaderInv s) {r : Reading} {nread : Int} {eintr : Bool}
    (hr : s.reading = some r) (hstep : system.step s (.read nread eintr) = some t)
    (hgood : 0 ≤ nread ∨ nread = -1 ∧ eintr = true) :
    (∃ q, t.reading = some q ∧ q.start = r.start ∧
      q.frame.nleft + nread.toNat = r.frame.nleft) ∨
      t.reading = none ∧ ∃ q, t.hasRead = s.hasRead ++ [q] ∧ q.start = r.start ∧
        0 ≤ q.ret := by
  cases step_move hstep with
  | @read r' nread eintr hr' hret =>
      obtain rfl := Option.some_inj.mp (hr.symm.trans hr')
      obtain ⟨hn, hmax, hf, _, _⟩ := h.reading r hr
      have hsum := hf.sum_eq
      have hk : nread.toNat ≤ r.frame.nleft := by
        have := hret.2.1
        omega
      have hadv := hf.advance hk
      unfold State.read
      rcases read_n_cases hret.1 eintr with ⟨hgo, _⟩ | ⟨hdone, _⟩ | ⟨_, hminus, hfalse⟩
      · rw [hgo]
        cases hhead : loopHead (r.frame.advance nread.toNat) with
        | call f =>
            obtain ⟨rfl, _⟩ := loopHead_call hhead
            refine .inl ⟨_, rfl, rfl, ?_⟩
            dsimp only
            rw [Frame.advance_nleft hf hk]
            omega
        | done ret =>
            obtain ⟨_, _, hret'⟩ := loopHead_done hadv hhead
            refine .inr ⟨rfl, _, rfl, rfl, ?_⟩
            dsimp only
            rw [Frame.advance_n, hn, toSsize_of_le hmax] at hret'
            omega
      · rw [hdone]
        refine .inr ⟨rfl, _, rfl, rfl, ?_⟩
        dsimp only
        rw [hf.result_eq, toSsize_of_le (by omega)]
        omega
      · rcases hgood with hpos | ⟨_, htrue⟩
        · omega
        · rw [hfalse] at htrue
          cases htrue

end Progress

structure Law (s : State) : Prop where
  /-- A `writen` that returns a count has put its whole buffer on the stream. -/
  writes : ∀ w ∈ s.wrote, 0 ≤ w.ret → w.put = w.buf.length ∧ w.ret = w.buf.length
  stream_eq : s.stream = written s ++ inFlight s.writing
  consecutive : Consecutive 0 s.hasRead (position s)
  /-- One that returns a count has stored the next bytes, as many as asked for or
  as are left, and fewer than asked for only at the end. -/
  reads : ∀ r ∈ s.hasRead, 0 ≤ r.ret →
    r.ret = r.took ∧ r.took = min r.buf.length (s.stream.length - r.start) ∧
    r.buf.take r.took = (s.stream.drop r.start).take r.buf.length ∧
    (r.took < r.buf.length → s.closed = true ∧ r.start + r.took = s.stream.length)
  bounded : (∀ r ∈ s.hasRead, r.took ≤ r.buf.length) ∧
    ∀ r, s.reading = some r → s.taken ≤ r.start + r.buf.length
  inside : (∀ w, s.writing = some w → w.frame.ptr + w.frame.nleft = w.buf.length) ∧
    ∀ r, s.reading = some r → r.frame.ptr + r.frame.nleft = r.buf.length
  write_goes_on : ∀ w t nwritten eintr, s.writing = some w →
    system.step s (.write nwritten eintr) = some t →
    0 < nwritten ∨ nwritten = -1 ∧ eintr = true →
    (∃ f, t.writing = some ⟨w.buf, f⟩ ∧ f.nleft + nwritten.toNat = w.frame.nleft) ∨
      t.writing = none ∧
        t.wrote = s.wrote ++ [⟨w.buf, w.buf.length, toSsize w.buf.length⟩]
  read_goes_on : ∀ r t nread eintr, s.reading = some r →
    system.step s (.read nread eintr) = some t →
    0 ≤ nread ∨ nread = -1 ∧ eintr = true →
    (∃ q, t.reading = some q ∧ q.start = r.start ∧
      q.frame.nleft + nread.toNat = r.frame.nleft) ∨
      t.reading = none ∧ ∃ q, t.hasRead = s.hasRead ++ [q] ∧ q.start = r.start ∧
        0 ≤ q.ret

theorem Wrote.Ok.of_nonneg {w : Wrote} (h : w.Ok) (hret : 0 ≤ w.ret) :
    w.put = w.buf.length ∧ w.ret = w.buf.length := by
  rcases h.ret_eq with hminus | ⟨hput, hsize⟩
  · omega
  · refine ⟨hput, ?_⟩
    rcases Nat.lt_or_ge SSIZE_MAX w.buf.length with hbig | hsmall
    · have := toSsize_neg hbig h.lt_size
      omega
    · rw [hsize, toSsize_of_le hsmall]

theorem HasRead.Ok.of_nonneg {s : State} {r : HasRead} (h : r.Ok s)
    (hle : s.taken ≤ s.stream.length) (hret : 0 ≤ r.ret) :
    r.ret = r.took ∧ r.took = min r.buf.length (s.stream.length - r.start) ∧
      r.buf.take r.took = (s.stream.drop r.start).take r.buf.length ∧
      (r.took < r.buf.length →
        s.closed = true ∧ r.start + r.took = s.stream.length) := by
  have hlet := h.le_taken
  have htook := h.took_le
  rcases h.ret_eq with hminus | ⟨hcount, hall⟩
  · omega
  · refine ⟨hcount, ?_, ?_, fun hlt => hall.resolve_left (by omega)⟩
    · rcases hall with hfull | ⟨_, hend⟩ <;> omega
    · rcases hall with hfull | ⟨_, hend⟩
      · rw [h.buf_eq, hfull]
      · rw [h.buf_eq, List.take_of_length_le, List.take_of_length_le] <;>
          · rw [List.length_drop]
            omega

theorem reachable_streamLaw {s : State} (h : system.Reachable s) : Law s := by
  have hwriter := reachable_writer h
  have hreader := reachable_reader h
  refine ⟨fun w hw => (hwriter.wrote w hw).of_nonneg, hwriter.stream_eq,
    hreader.consecutive, fun r hr => (hreader.hasRead r hr).of_nonneg hreader.taken_le,
    ⟨fun r hr => (hreader.hasRead r hr).took_le, ?_⟩, ⟨?_, ?_⟩,
    fun _ _ _ _ => write_goes_on hwriter, fun _ _ _ _ => read_goes_on hreader⟩
  · intro r hr
    have hok := hreader.reading r hr
    have hsum := hok.inside.sum_eq
    have htaken := hok.taken_eq
    have hn := hok.n_eq
    omega
  · intro w hw
    obtain ⟨_, hn, hf⟩ := hwriter.writing w hw
    exact hf.sum_eq.trans hn
  · intro r hr
    have hok := hreader.reading r hr
    exact hok.inside.sum_eq.trans hok.n_eq

theorem reachable_streamLaw_two : ∃ s : State, Law s ∧ s.stream = [1, 2, 3, 4, 5] ∧
    s.hasRead.map (fun r => (r.ret, r.buf)) = [(4, [1, 2, 3, 4]), (1, [5, 0, 0])] := by
  have hmap : (system.run .start
      [.writen [1, 2, 3], .read_n [0, 0, 0, 0], .write 2 false, .read 2 false,
        .write (-1) true, .write 1 false, .writen [4, 5], .write 2 false, .close,
        .read (-1) true, .read 2 false, .read_n [0, 0, 0], .read 1 false,
        .read 0 false]).map (fun s => (s.stream, s.hasRead.map fun r => (r.ret, r.buf))) =
      some ([1, 2, 3, 4, 5], [(4, [1, 2, 3, 4]), (1, [5, 0, 0])]) := by
    decide +kernel
  obtain ⟨s, hrun, hfacts⟩ := Option.map_eq_some_iff.mp hmap
  obtain ⟨hstream, hread⟩ := Prod.mk.inj hfacts
  exact ⟨s, reachable_streamLaw ⟨_, _, rfl, hrun⟩, hstream, hread⟩

end MyUnp.ByteStream
