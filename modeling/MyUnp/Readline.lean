import MyUnp.LinePieces
import MyUnp.Unp

/-!
`my_read` and `readline` of libunp, with the static buffer that `my_read`
refills by whole reads and hands out byte by byte.
-/

namespace MyUnp.Readline

open MyUnp.LinePieces
open MyUnp.Unp

inductive ReadEvent where
  | data (g : Segment)
  | eintr
  deriving DecidableEq

inductive Ending where
  | eof
  | error
  deriving DecidableEq

structure Source where
  events : List ReadEvent
  ending : Ending
  deriving DecidableEq

def ReadEvent.bytes : ReadEvent → List Byte
  | .data g => g.bytes
  | .eintr => []

def Source.bytes (src : Source) : List Byte :=
  (src.events.map ReadEvent.bytes).flatten

/-- The unread part of `read_buf`: the `read_cnt` bytes from `read_ptr` on. -/
structure ReadBuf where
  unread : List Byte
  deriving DecidableEq

def ReadBuf.empty : ReadBuf := ⟨[]⟩

def stream (rb : ReadBuf) (src : Source) : List Byte := rb.unread ++ src.bytes

inductive MyRead where
  | byte (c : Byte)
  | eof
  | error
  deriving DecidableEq

/-- The `again` loop of `my_read`, entered with `read_cnt` at 0. -/
def refill : List ReadEvent → Ending → MyRead × ReadBuf × Source
  | .eintr :: events, ending => refill events ending
  | .data g :: events, ending => (.byte g.head, ⟨g.tail⟩, ⟨events, ending⟩)
  | [], .eof => (.eof, ⟨[]⟩, ⟨[], .eof⟩)
  | [], .error => (.error, ⟨[]⟩, ⟨[], .error⟩)

def myRead (rb : ReadBuf) (src : Source) : MyRead × ReadBuf × Source :=
  match rb.unread with
  | c :: rest => (.byte c, ⟨rest⟩, src)
  | [] => refill src.events src.ending

/-- The test in the body of `readline`'s loop after `c` is stored behind `acc`:
it breaks at a newline, and the loop condition fails at `n = maxlen`. -/
def endsLine (maxlen : Nat) (acc : List Byte) (c : Byte) : Bool :=
  c = newline || decide (maxlen ≤ acc.length + 2)

/-- What a call of `readline` returns and stores, and the buffer and the
descriptor it leaves behind. -/
structure LineRead where
  ret : Int
  line : List Byte
  buf : ReadBuf
  src : Source
  deriving DecidableEq

/-- The loop of `readline`, with `fuel = maxlen - n` rounds to go and `acc`
stored so far, so that `n = acc.length + 1`. -/
def readlineLoop : Nat → List Byte → ReadBuf → Source → LineRead
  | 0, acc, rb, src => ⟨acc.length + 1, acc, rb, src⟩
  | fuel + 1, acc, rb, src =>
      match myRead rb src with
      | (.byte c, rb, src) =>
          if c = newline then ⟨acc.length + 1, acc ++ [c], rb, src⟩
          else readlineLoop fuel (acc ++ [c]) rb src
      | (.eof, rb, src) => ⟨acc.length, acc, rb, src⟩
      | (.error, rb, src) => ⟨-1, acc, rb, src⟩

def readline (maxlen : Nat) (rb : ReadBuf) (src : Source) : LineRead :=
  readlineLoop (maxlen - 1) [] rb src

theorem refill_spec (events : List ReadEvent) (ending : Ending) :
    let bytes := (events.map ReadEvent.bytes).flatten
    let r := refill events ending
    r.2.2.ending = ending ∧
      ((∃ c, r.1 = .byte c ∧ bytes = c :: stream r.2.1 r.2.2) ∨
        (bytes = [] ∧ stream r.2.1 r.2.2 = [] ∧
          (r.1 = .eof ∧ ending = .eof ∨ r.1 = .error ∧ ending = .error))) := by
  induction events with
  | nil => cases ending <;> simp [refill, stream, Source.bytes]
  | cons e events ih =>
      cases e with
      | eintr => simpa [refill, ReadEvent.bytes] using ih
      | data g =>
          refine ⟨rfl, .inl ⟨g.head, rfl, ?_⟩⟩
          simp [refill, ReadEvent.bytes, Segment.bytes, stream, Source.bytes]

theorem myRead_spec (rb : ReadBuf) (src : Source) :
    let r := myRead rb src
    r.2.2.ending = src.ending ∧
      ((∃ c, r.1 = .byte c ∧ stream rb src = c :: stream r.2.1 r.2.2) ∨
        (stream rb src = [] ∧ stream r.2.1 r.2.2 = [] ∧
          (r.1 = .eof ∧ src.ending = .eof ∨
            r.1 = .error ∧ src.ending = .error))) := by
  obtain ⟨unread⟩ := rb
  cases unread with
  | nil => exact refill_spec src.events src.ending
  | cons c rest => exact ⟨rfl, .inl ⟨c, rfl, rfl⟩⟩

section Loop

variable {rb rb' : ReadBuf} {src src' : Source}

theorem readlineLoop_newline (h : myRead rb src = (.byte newline, rb', src'))
    (fuel : Nat) (acc : List Byte) :
    readlineLoop (fuel + 1) acc rb src =
      ⟨acc.length + 1, acc ++ [newline], rb', src'⟩ := by
  simp only [readlineLoop, h, if_true]

theorem readlineLoop_byte {c : Byte} (hc : c ≠ newline)
    (h : myRead rb src = (.byte c, rb', src')) (fuel : Nat) (acc : List Byte) :
    readlineLoop (fuel + 1) acc rb src =
      readlineLoop fuel (acc ++ [c]) rb' src' := by
  simp only [readlineLoop, h, hc, if_false]

theorem readlineLoop_eof (h : myRead rb src = (.eof, rb', src'))
    (fuel : Nat) (acc : List Byte) :
    readlineLoop (fuel + 1) acc rb src = ⟨acc.length, acc, rb', src'⟩ := by
  simp only [readlineLoop, h]

theorem readlineLoop_error (h : myRead rb src = (.error, rb', src'))
    (fuel : Nat) (acc : List Byte) :
    readlineLoop (fuel + 1) acc rb src = ⟨-1, acc, rb', src'⟩ := by
  simp only [readlineLoop, h]

end Loop

/-- A call that does not fail takes the next piece of the stream. It returns 0
only at end of file, and fails only where the descriptor does before the piece
is complete. -/
theorem readlineLoop_spec (fuel : Nat) (acc : List Byte) (rb : ReadBuf)
    (src : Source) :
    let r := readlineLoop fuel acc rb src
    let p := nextPiece newline fuel (stream rb src)
    r.src.ending = src.ending ∧
      (r.ret = -1 ∧ src.ending = .error ∧ stream r.buf r.src = [] ∧
          ¬Complete newline fuel p.1 ∨
        0 ≤ r.ret ∧ r.line = acc ++ p.1 ∧ stream r.buf r.src = p.2 ∧
          (src.ending = .error → Complete newline fuel p.1) ∧
          (r.ret = 0 ↔ acc = [] ∧ p.1 = [] ∧ 0 < fuel)) := by
  induction fuel generalizing acc rb src with
  | zero =>
      refine ⟨rfl, .inr ⟨?_, by simp [readlineLoop, nextPiece], rfl, ?_, ?_⟩⟩
      · simp only [readlineLoop]
        omega
      · intro _
        exact .inr rfl
      · simp only [readlineLoop, Nat.lt_irrefl, and_false, iff_false]
        omega
  | succ fuel ih =>
      have hread := myRead_spec rb src
      rcases hr : myRead rb src with ⟨rc, rb', src'⟩
      simp only [hr] at hread
      obtain ⟨hending, ⟨c, rfl, hstream⟩ | ⟨hstream, hrest, hrc⟩⟩ := hread
      -- a byte: it ends the piece, or the loop goes on with the rest
      · rw [hstream]
        by_cases hc : c = newline
        · subst hc
          rw [nextPiece_cons_self, readlineLoop_newline hr]
          refine ⟨hending, .inr ⟨Int.le_add_one (Int.natCast_nonneg _), rfl, rfl,
            fun _ => .inl (List.mem_cons_self ..), ?_⟩⟩
          simp only [reduceCtorEq, false_and, and_false, iff_false]
          omega
        · rw [nextPiece_cons_ne hc, readlineLoop_byte hc hr]
          obtain ⟨hend, hcase⟩ := ih (acc ++ [c]) rb' src'
          refine ⟨hend.trans hending, ?_⟩
          rw [hending] at hcase
          simp only [complete_cons_of_ne hc]
          refine hcase.imp id ?_
          rintro ⟨hret, hline, hbuf, hcomplete, hzero⟩
          refine ⟨hret, by simpa using hline, hbuf, hcomplete, ?_⟩
          rw [hzero]
          simp
      · rw [hstream, nextPiece_nil]
        have hshort : ¬Complete newline (fuel + 1) ([] : List Byte) := by
          simp [Complete]
        obtain ⟨rfl, he⟩ | ⟨rfl, he⟩ := hrc
        · rw [readlineLoop_eof hr]
          refine ⟨hending, .inr ⟨by simp, by simp, hrest, ?_, by simp⟩⟩
          intro herror
          rw [he] at herror
          simp at herror
        · rw [readlineLoop_error hr]
          exact ⟨hending, .inl ⟨rfl, he, hrest, hshort⟩⟩

theorem readline_spec {maxlen : Nat} (hlen : 1 < maxlen) (rb : ReadBuf)
    (src : Source) :
    let r := readline maxlen rb src
    let p := nextPiece newline (maxlen - 1) (stream rb src)
    r.src.ending = src.ending ∧
      (r.ret = -1 ∧ src.ending = .error ∧ stream r.buf r.src = [] ∧
          ¬Complete newline (maxlen - 1) p.1 ∨
        0 ≤ r.ret ∧ r.line = p.1 ∧ stream r.buf r.src = p.2 ∧
          (src.ending = .error → Complete newline (maxlen - 1) p.1) ∧
          (r.ret = 0 ↔ stream rb src = [])) := by
  have hpos : 0 < maxlen - 1 := by omega
  have hempty : (nextPiece newline (maxlen - 1) (stream rb src)).1 = [] ↔
      stream rb src = [] := by
    constructor
    · intro hnil
      by_contra hne
      exact nextPiece_ne_nil hpos hne hnil
    · intro hnil
      rw [hnil, nextPiece_nil]
  have hspec := readlineLoop_spec (maxlen - 1) [] rb src
  simpa [hpos, hempty, readline] using hspec

end MyUnp.Readline
