import MyUnp.Atol
import MyUnp.Readline

/-!
`web_child` of Chapter 30: the requests it reads off a connection, and the
replies it writes. A request is a line with a number, the reply to it that many
bytes.
-/

namespace MyUnp.WebChild

open MyUnp.Atol
open MyUnp.LinePieces
open MyUnp.Readline
open MyUnp.Unp

def MAXN : Int := 16384

/-- What one round of the loop finds: `Readline` returns 0, it ends the process,
`ntowrite` is refused, or `ntowrite` bytes are to be written. -/
inductive Request where
  | closed
  | readError
  | refused (ntowrite : Int)
  | reply (ntowrite : Nat)
  deriving DecidableEq

def request (line : List Byte) : Request :=
  let ntowrite := toInt (atol line)
  if ntowrite ≤ 0 ∨ ntowrite ≥ MAXN then .refused ntowrite
  else .reply ntowrite.toNat

def nextRequest (rb : ReadBuf) (src : Source) : Request × ReadBuf × Source :=
  let l := readline MAXLINE rb src
  if l.ret < 0 then (.readError, l.buf, l.src)
  else if l.ret = 0 then (.closed, l.buf, l.src)
  else (request l.line, l.buf, l.src)

/-- How `web_child` ends: it returns, or `err_sys` or `err_quit` ends the
process. -/
inductive Ended where
  | returned
  | errSys
  | errQuit (ntowrite : Int)
  deriving DecidableEq

structure Served where
  replies : List Nat
  ended : Ended
  deriving DecidableEq

/-- The loop on a connection whose writes succeed, for at most `fuel` rounds. -/
def webChildLoop : Nat → ReadBuf → Source → Option Served
  | 0, _, _ => none
  | fuel + 1, rb, src =>
      match nextRequest rb src with
      | (.closed, _, _) => some ⟨[], .returned⟩
      | (.readError, _, _) => some ⟨[], .errSys⟩
      | (.refused n, _, _) => some ⟨[], .errQuit n⟩
      | (.reply n, rb, src) =>
          (webChildLoop fuel rb src).map fun r => { r with replies := n :: r.replies }

/-- Each round but the last takes a byte off the stream. -/
def webChild (rb : ReadBuf) (src : Source) : Option Served :=
  webChildLoop ((stream rb src).length + 1) rb src

/-- The requests on a stream: what `Readline` cuts it into, less an unfinished
rest that a failing read cuts off. -/
def requests (ending : Ending) (s : List Byte) : List (List Byte) :=
  (pieces newline (MAXLINE - 1) s).filter fun p =>
    decide (ending = .eof ∨ Complete newline (MAXLINE - 1) p)

theorem pieceLimit_pos : 0 < MAXLINE - 1 := by decide

@[simp] theorem requests_nil (ending : Ending) : requests ending [] = [] := rfl

theorem requests_cons {ending : Ending} {s : List Byte} (hs : s ≠ [])
    (h : ending = .eof ∨
      Complete newline (MAXLINE - 1) (nextPiece newline (MAXLINE - 1) s).1) :
    requests ending s =
      (nextPiece newline (MAXLINE - 1) s).1 ::
        requests ending (nextPiece newline (MAXLINE - 1) s).2 := by
  rw [requests, pieces_eq_cons pieceLimit_pos hs,
    List.filter_cons_of_pos (by simpa using h)]
  rfl

theorem requests_cut {ending : Ending} {s : List Byte} (hs : s ≠ [])
    (h : ending ≠ .eof)
    (hcut : ¬Complete newline (MAXLINE - 1) (nextPiece newline (MAXLINE - 1) s).1) :
    requests ending s = [] := by
  rw [requests, pieces_eq_cons pieceLimit_pos hs,
    nextPiece_rest_of_not_complete hcut, pieces_nil, List.filter_cons_of_neg]
  · rfl
  · simp [h, hcut]

theorem requests_lines (ending : Ending) (lines : List (List Byte))
    (rest : List Byte)
    (hlines : ∀ l ∈ lines, newline ∉ l ∧ l.length < MAXLINE - 1)
    (hrest : newline ∉ rest ∧ rest.length < MAXLINE - 1) :
    requests ending ((lines.map (· ++ [newline])).flatten ++ rest) =
      lines.map (· ++ [newline]) ++
        if rest = [] ∨ ending ≠ .eof then [] else [rest] := by
  rw [requests, pieces_lines lines rest hlines ⟨hrest.1, Nat.le_of_lt hrest.2⟩,
    List.filter_append]
  congr 1
  · rw [List.filter_eq_self]
    intro p hp
    obtain ⟨l, -, rfl⟩ := List.mem_map.mp hp
    simp [Complete]
  · have hcut : ¬Complete newline (MAXLINE - 1) rest := by
      rintro (hmem | hlen)
      · exact hrest.1 hmem
      · omega
    by_cases hnil : rest = []
    · simp [hnil]
    · cases ending with
      | eof => simp [hnil]
      | error => simp [hnil, hcut]

theorem readline_requests (rb : ReadBuf) (src : Source) :
    let l := readline MAXLINE rb src
    l.src.ending = src.ending ∧
      match requests src.ending (stream rb src) with
      | [] =>
          stream l.buf l.src = [] ∧
            if src.ending = .eof then l.ret = 0 else l.ret < 0
      | p :: ps =>
          0 < l.ret ∧ l.line = p ∧ requests src.ending (stream l.buf l.src) = ps ∧
            (stream l.buf l.src).length < (stream rb src).length := by
  have hspec := readline_spec (by decide : 1 < MAXLINE) rb src
  dsimp only
  generalize readline MAXLINE rb src = l at hspec ⊢
  obtain ⟨hending, ⟨hret, herror, hrest, hcut⟩ |
    ⟨hret, hline, hrest, hcomplete, hzero⟩⟩ := hspec
  · have hnil : requests src.ending (stream rb src) = [] := by
      by_cases hs : stream rb src = []
      · rw [hs, requests_nil]
      · exact requests_cut hs (by simp [herror]) hcut
    rw [hnil]
    refine ⟨hending, hrest, ?_⟩
    rw [herror, if_neg (by decide)]
    omega
  · by_cases hs : stream rb src = []
    · have heof : src.ending = .eof := by
        cases hend : src.ending with
        | eof => rfl
        | error =>
            have hfull := hcomplete hend
            rw [hs, nextPiece_nil] at hfull
            exact absurd hfull (by decide)
      have hreturn := hzero.mpr hs
      rw [hs, requests_nil]
      rw [hs, nextPiece_nil] at hrest
      refine ⟨hending, hrest, ?_⟩
      rw [if_pos heof]
      exact hreturn
    · have hkeep : src.ending = .eof ∨ Complete newline (MAXLINE - 1)
          (nextPiece newline (MAXLINE - 1) (stream rb src)).1 := by
        cases hend : src.ending with
        | eof => exact .inl rfl
        | error => exact .inr (hcomplete hend)
      have hne : l.ret ≠ 0 := fun h => hs (hzero.mp h)
      rw [requests_cons hs hkeep]
      refine ⟨hending, by omega, hline, by rw [hrest], ?_⟩
      rw [hrest]
      exact nextPiece_rest_length pieceLimit_pos hs

theorem nextRequest_spec (rb : ReadBuf) (src : Source) :
    let r := nextRequest rb src
    let s := stream rb src
    r.2.2.ending = src.ending ∧
      match requests src.ending s with
      | [] =>
          stream r.2.1 r.2.2 = [] ∧
            r.1 = if src.ending = .eof then .closed else .readError
      | p :: ps =>
          r.1 = request p ∧ requests src.ending (stream r.2.1 r.2.2) = ps ∧
            (stream r.2.1 r.2.2).length < s.length := by
  obtain ⟨hending, hcase⟩ := readline_requests rb src
  dsimp only at hending hcase ⊢
  unfold nextRequest
  generalize readline MAXLINE rb src = l at hending hcase ⊢
  cases hreqs : requests src.ending (stream rb src) with
  | nil =>
      rw [hreqs] at hcase
      obtain ⟨hrest, hret⟩ := hcase
      split_ifs at hret with heof
      · rw [if_neg (by omega), if_pos hret]
        exact ⟨hending, hrest, (if_pos heof).symm⟩
      · rw [if_pos hret]
        exact ⟨hending, hrest, (if_neg heof).symm⟩
  | cons p ps =>
      rw [hreqs] at hcase
      obtain ⟨hret, rfl, hrest, hlen⟩ := hcase
      rw [if_neg (by omega), if_neg (by omega)]
      exact ⟨hending, rfl, hrest, hlen⟩

end MyUnp.WebChild
