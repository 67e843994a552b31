import MyUnp.Printf
import MyUnp.Scanf
import MyUnp.WebChild

namespace MyUnp.StrEcho2

open MyUnp.Atol MyUnp.Decimal MyUnp.LinePieces MyUnp.Printf MyUnp.Readline MyUnp.Scanf
open MyUnp.Unp
open MyUnp.WebChild (requests readline_requests pieceLimit_pos)

/-- What `Writen` sends for a request; and whether the addition has gone out of the
range of `long`, which C leaves undefined. -/
structure Reply where
  text : List Byte
  overflow : Bool
  deriving DecidableEq

/-- `arg1+arg2`. On overflow this is what a machine computes that wraps around. -/
def add (arg1 arg2 : Int) : Int := Int.bmod (arg1 + arg2) 18446744073709551616

def sent (text : List Byte) : List Byte := cString (snprintf MAXLINE text ++ [0])

def inputError : List Byte := bytes "input error\n"

/-- The body of the loop behind `Readline`, which has stored `line` and a NUL. -/
def answer (line : List Byte) : Reply :=
  match scanTwo (cString line) with
  | some (arg1, arg2) =>
      ⟨sent (formatLd (add arg1 arg2) ++ [newline]), !decide (IsLong (arg1 + arg2))⟩
  | none => ⟨sent inputError, false⟩

inductive Ended
  | returned
  | errSys
  deriving DecidableEq

structure Served where
  replies : List Reply
  ended : Ended
  deriving DecidableEq

def str_echoLoop : Nat → ReadBuf → Source → Option Served
  | 0, _, _ => none
  | fuel + 1, rb, src =>
      let l := readline MAXLINE rb src
      -- in the wrapper
      if l.ret < 0 then some ⟨[], .errSys⟩
      else if l.ret = 0 then some ⟨[], .returned⟩
      else
        (str_echoLoop fuel l.buf l.src).map fun r =>
          { r with replies := answer l.line :: r.replies }

/-- `str_echo2.c`. Each round but the last takes a byte off the stream. -/
def str_echo (rb : ReadBuf) (src : Source) : Option Served :=
  str_echoLoop ((stream rb src).length + 1) rb src

section Answers

variable {x y : Int} {text : List Byte}

theorem sent_eq (hzero : 0 ∉ text) (hlen : text.length < MAXLINE) : sent text = text := by
  rw [sent, snprintf_of_length_lt hlen, cString_append_nul, cString_eq_self hzero]

theorem sent_inputError : sent inputError = inputError := sent_eq (by decide) (by decide)

theorem add_isLong (x y : Int) : IsLong (add x y) := by
  have hlow := Int.le_bmod (x := x + y) (m := 18446744073709551616) (by decide)
  have hhigh := Int.bmod_lt (x := x + y) (m := 18446744073709551616) (by decide)
  rw [IsLong, LONG_MIN, LONG_MAX, add]
  omega

theorem add_eq (h : IsLong (x + y)) : add x y = x + y := by
  obtain ⟨hlow, hhigh⟩ := h
  rw [LONG_MIN] at hlow
  rw [LONG_MAX] at hhigh
  apply Int.bmod_eq_of_le
  · omega
  · omega

theorem sent_formatLd (h : IsLong x) :
    sent (formatLd x ++ [newline]) = formatLd x ++ [newline] := by
  have hlen := formatLd_length_le h
  apply sent_eq
  · rw [List.mem_append, not_or]
    exact ⟨(formatLd_numeral x).not_mem (by decide) (by decide), by decide⟩
  · rw [List.length_append, List.length_singleton, MAXLINE]
    omega

theorem answer_text (line : List Byte) :
    ∃ body, newline ∉ body ∧ (answer line).text = body ++ [newline] ∧
      (answer line).text.length < MAXLINE := by
  unfold answer
  split
  · rename_i arg1 arg2 _
    have hlen := formatLd_length_le (add_isLong arg1 arg2)
    refine ⟨formatLd (add arg1 arg2),
      (formatLd_numeral _).not_mem (by decide) (by decide),
      sent_formatLd (add_isLong arg1 arg2), ?_⟩
    change (sent _).length < MAXLINE
    rw [sent_formatLd (add_isLong arg1 arg2), List.length_append, List.length_singleton,
      MAXLINE]
    omega
  · exact ⟨bytes "input error", by decide, sent_inputError, by decide⟩

/-- What the reply to a line with two numbers has to be. -/
structure Correct (x y : Int) (r : Reply) : Prop where
  text_eq : r.text =
    if IsLong (x + y) then formatLd (x + y) ++ [newline] else inputError
  length_lt : r.text.length < MAXLINE
  no_overflow : r.overflow = false

theorem answer_correct_iff {line : List Byte} (hline : TwoNumerals line x y)
    (hx : IsLong x) (hy : IsLong y) : Correct x y (answer line) ↔ IsLong (x + y) := by
  have hanswer : answer line =
      ⟨sent (formatLd (add x y) ++ [newline]), !decide (IsLong (x + y))⟩ := by
    rw [answer, scanTwo_numerals hline.cString hx hy]
  constructor
  · intro hcorrect
    have hflag := hcorrect.no_overflow
    rw [hanswer] at hflag
    simpa using hflag
  · intro hsum
    obtain ⟨_, _, _, hlen⟩ := answer_text line
    refine ⟨?_, hlen, ?_⟩
    · rw [hanswer, if_pos hsum, add_eq hsum]
      exact sent_formatLd hsum
    · rw [hanswer]
      simpa using hsum

end Answers

section Runs

variable {rb : ReadBuf} {src : Source}

def outstanding (rb : ReadBuf) (src : Source) : Served :=
  { replies := (requests src.ending (stream rb src)).map answer
    ended := if src.ending = .eof then .returned else .errSys }

theorem str_echoLoop_eq {fuel : Nat} (hfuel : (stream rb src).length < fuel) :
    str_echoLoop fuel rb src = some (outstanding rb src) := by
  induction fuel generalizing rb src with
  | zero => exact absurd hfuel (Nat.not_lt_zero _)
  | succ fuel ih =>
      obtain ⟨hending, hcase⟩ := readline_requests rb src
      rw [str_echoLoop, outstanding]
      generalize readline MAXLINE rb src = l at hending hcase ⊢
      cases hreqs : requests src.ending (stream rb src) with
      | nil =>
          rw [hreqs] at hcase
          obtain ⟨_, hret⟩ := hcase
          cases hend : src.ending with
          | eof =>
              rw [hend, if_pos rfl] at hret
              rw [if_neg (by omega), if_pos hret]
              rfl
          | error =>
              rw [hend, if_neg (by decide)] at hret
              rw [if_pos hret]
              rfl
      | cons p ps =>
          rw [hreqs] at hcase
          obtain ⟨hret, rfl, hrest, hlen⟩ := hcase
          rw [if_neg (by omega), if_neg (by omega), ih (by omega), Option.map_some,
            outstanding, hending, hrest]
          rfl

theorem str_echo_eq (rb : ReadBuf) (src : Source) :
    str_echo rb src = some (outstanding rb src) :=
  str_echoLoop_eq (Nat.lt_succ_self _)

def Line (l : List Byte) : Prop := OneLine newline l ∧ newline ∈ l

theorem Line.of_body {body : List Byte} (h : newline ∉ body) : Line (body ++ [newline]) := by
  have hpiece := nextPiece_line h (Nat.lt_succ_self body.length) []
  have hone := nextPiece_oneLine newline (body.length + 1) (body ++ [newline])
  rw [hpiece] at hone
  exact ⟨hone, List.mem_append_right _ (List.mem_singleton_self newline)⟩

theorem answer_line (line : List Byte) : Line (answer line).text := by
  obtain ⟨body, hbody, htext, _⟩ := answer_text line
  rw [htext]
  exact Line.of_body hbody

theorem requests_flatten {lines : List (List Byte)} (hlines : ∀ l ∈ lines, Line l)
    (ending : Ending) :
    requests ending lines.flatten = lines.flatMap (pieces newline (MAXLINE - 1)) := by
  rw [requests, pieces_flatten_lines pieceLimit_pos hlines, List.filter_eq_self]
  intro p hp
  obtain ⟨l, hl, hmem⟩ := List.mem_flatMap.mp hp
  obtain ⟨hline, hnewline⟩ := hlines l hl
  exact decide_eq_true
    (.inr (pieces_complete pieceLimit_pos hline (.inl hnewline) p hmem))

def lineReplies (l : List Byte) : List Reply :=
  (pieces newline (MAXLINE - 1) l).map answer

theorem str_echo_lines {lines : List (List Byte)} (hlines : ∀ l ∈ lines, Line l)
    {src : Source} (hsrc : src.bytes = lines.flatten) :
    str_echo .empty src =
      some ⟨lines.flatMap lineReplies, if src.ending = .eof then .returned else .errSys⟩ := by
  have hstream : stream .empty src = lines.flatten := hsrc
  rw [str_echo_eq, outstanding, hstream, requests_flatten hlines, List.map_flatMap]
  rfl

theorem lineReplies_of_length_lt {l : List Byte} (hl : Line l) (hlen : l.length < MAXLINE) :
    lineReplies l = [answer l] := by
  rw [lineReplies, pieces_of_length_le (List.ne_nil_of_mem hl.2) hl.1
    (Nat.le_sub_one_of_lt hlen), List.map_singleton]

theorem lineReplies_length {l : List Byte} (hl : Line l) :
    (lineReplies l).length = (l.length + (MAXLINE - 2)) / (MAXLINE - 1) := by
  rw [lineReplies, List.length_map, pieces_length pieceLimit_pos hl.1]
  rfl

theorem replies_length_iff {lines : List (List Byte)} (hlines : ∀ l ∈ lines, Line l) :
    (lines.flatMap lineReplies).length = lines.length ↔ ∀ l ∈ lines, l.length < MAXLINE := by
  have hcount := (pieces_lines_count pieceLimit_pos hlines).2
  have hmap : (lines.flatMap lineReplies).length =
      (lines.flatMap (pieces newline (MAXLINE - 1))).length := by
    rw [← List.length_map answer, List.map_flatMap]
    rfl
  rw [hmap, hcount]
  exact forall₂_congr fun l _ => Nat.le_sub_one_iff_lt (by decide)

end Runs

/-- For a request with two numbers the server does what it should exactly if a `long`
can hold the sum; and a line is one request if `line` has room for it. -/
theorem str_echo_adds_iff {line : List Byte} {x y : Int} (hnumbers : TwoNumerals line x y)
    (hx : IsLong x) (hy : IsLong y) :
    (Correct x y (answer line) ↔ IsLong (x + y)) ∧
      (Line line → ∀ src : Source, src.bytes = line →
        ∃ served, str_echo .empty src = some served ∧
          ((∃ r, served.replies = [r] ∧ Correct x y r) ↔
            IsLong (x + y) ∧ line.length < MAXLINE)) := by
  have hanswer := answer_correct_iff hnumbers hx hy
  refine ⟨hanswer, fun hline src hsrc => ?_⟩
  have hlines : ∀ l ∈ [line], Line l := List.forall_mem_singleton.mpr hline
  refine ⟨_, str_echo_lines hlines (hsrc.trans List.flatten_singleton.symm), ?_⟩
  dsimp only
  constructor
  · rintro ⟨r, hr, hcorrect⟩
    have hlen := (replies_length_iff hlines).mp (congrArg List.length hr) line
      List.mem_cons_self
    rw [List.flatMap_singleton, lineReplies_of_length_lt hline hlen] at hr
    cases hr
    exact ⟨hanswer.mp hcorrect, hlen⟩
  · rintro ⟨hsum, hlen⟩
    refine ⟨answer line, ?_, hanswer.mpr hsum⟩
    rw [List.flatMap_singleton, lineReplies_of_length_lt hline hlen]

theorem twoNumerals_one_two : TwoNumerals [49, 32, 50, 10] 1 2 :=
  ⟨[], [49], [32], [50], [10], rfl, List.forall_mem_nil _,
    .unsigned (List.cons_ne_nil _ _) (List.forall_mem_singleton.mpr rfl),
    fun _ hc => Option.some_inj.mp hc ▸ rfl, List.forall_mem_singleton.mpr rfl,
    .unsigned (List.cons_ne_nil _ _) (List.forall_mem_singleton.mpr rfl),
    fun _ hc => Option.some_inj.mp hc ▸ rfl⟩

theorem str_echo_adds_iff_three :
    (Correct 1 2 (answer [49, 32, 50, 10]) ↔ IsLong (1 + 2)) ∧
      (Line [49, 32, 50, 10] → ∀ src : Source, src.bytes = [49, 32, 50, 10] →
        ∃ served, str_echo .empty src = some served ∧
          ((∃ r, served.replies = [r] ∧ Correct 1 2 r) ↔
            IsLong (1 + 2) ∧ [49, 32, 50, 10].length < MAXLINE)) :=
  str_echo_adds_iff twoNumerals_one_two (by decide) (by decide)

def overflowing : List Byte := formatLd LONG_MAX ++ [32, 49, 10]

theorem str_echo_overflow :
    TwoNumerals overflowing LONG_MAX 1 ∧ IsLong LONG_MAX ∧ IsLong 1 ∧
      ¬ Correct LONG_MAX 1 (answer overflowing) := by
  refine ⟨⟨[], formatLd LONG_MAX, [32], [49], [10], rfl, List.forall_mem_nil _,
    formatLd_numeral LONG_MAX, fun _ hc => Option.some_inj.mp hc ▸ rfl,
    List.forall_mem_singleton.mpr rfl,
    .unsigned (List.cons_ne_nil _ _) (List.forall_mem_singleton.mpr rfl),
    fun _ hc => Option.some_inj.mp hc ▸ rfl⟩, by decide, by decide, ?_⟩
  intro hcorrect
  exact absurd hcorrect.no_overflow (by decide)

/-- The replies are those to the lines one by one, and what a line is answered depends on
nothing but the line. It is one reply unless `Readline` has to cut the line. -/
theorem str_echo_line_by_line {lines : List (List Byte)} (hlines : ∀ l ∈ lines, Line l)
    {src : Source} (hsrc : src.bytes = lines.flatten) :
    ∃ served, str_echo .empty src = some served ∧
      served.replies = lines.flatMap lineReplies ∧
      (∀ r ∈ served.replies, Line r.text) ∧
      (∀ l ∈ lines, l.length < MAXLINE → lineReplies l = [answer l]) ∧
      (∀ l ∈ lines, (lineReplies l).length = (l.length + (MAXLINE - 2)) / (MAXLINE - 1)) ∧
      (served.replies.length = lines.length ↔ ∀ l ∈ lines, l.length < MAXLINE) := by
  refine ⟨_, str_echo_lines hlines hsrc, rfl, ?_, ?_, ?_, replies_length_iff hlines⟩
  · intro r hr
    obtain ⟨l, _, hmem⟩ := List.mem_flatMap.mp hr
    obtain ⟨p, _, rfl⟩ := List.mem_map.mp hmem
    exact answer_line p
  · intro l hl
    exact lineReplies_of_length_lt (hlines l hl)
  · intro l hl
    exact lineReplies_length (hlines l hl)

def twoLines : List (List Byte) := [[49, 32, 50, 10], [120, 10]]

def atOnce : Source := ⟨[.data ⟨49, [32, 50, 10, 120, 10], by decide⟩], .eof⟩

theorem str_echo_two_lines :
    ∃ served, str_echo .empty atOnce = some served ∧
      served.replies = twoLines.flatMap lineReplies ∧
      (∀ r ∈ served.replies, Line r.text) ∧
      (∀ l ∈ twoLines, l.length < MAXLINE → lineReplies l = [answer l]) ∧
      (∀ l ∈ twoLines, (lineReplies l).length = (l.length + (MAXLINE - 2)) / (MAXLINE - 1)) ∧
      (served.replies.length = twoLines.length ↔ ∀ l ∈ twoLines, l.length < MAXLINE) := by
  have hlines : ∀ l ∈ twoLines, Line l :=
    List.forall_mem_cons.mpr ⟨@Line.of_body [49, 32, 50] (by decide),
      List.forall_mem_singleton.mpr (@Line.of_body [120] (by decide))⟩
  exact str_echo_line_by_line hlines rfl

def longLine : List Byte := List.replicate 4095 48 ++ [newline]

def longSource : Source :=
  ⟨[.data ⟨48, List.replicate 4094 48 ++ [newline], by
    rw [List.length_append, List.length_replicate]
    decide⟩], .eof⟩

/-- The newline of the line is a request of its own. -/
theorem str_echo_long_line :
    ¬ ∀ (lines : List (List Byte)) (src : Source) (served : Served),
      (∀ l ∈ lines, Line l) → src.bytes = lines.flatten →
        str_echo .empty src = some served → served.replies.length = lines.length := by
  intro h
  have hlines : ∀ l ∈ [longLine], Line l := by
    rw [List.forall_mem_singleton]
    apply Line.of_body
    intro hmem
    exact absurd (List.eq_of_mem_replicate hmem) (by decide)
  have hbytes : longSource.bytes = [longLine].flatten := by
    rw [List.flatten_singleton, longLine, List.replicate_succ]
    exact List.append_nil _
  have hcount := h [longLine] longSource _ hlines hbytes (str_echo_lines hlines hbytes)
  dsimp only at hcount
  rw [replies_length_iff hlines] at hcount
  have hlen := hcount longLine List.mem_cons_self
  rw [longLine, List.length_append, List.length_replicate] at hlen
  exact absurd hlen (by decide)

end MyUnp.StrEcho2
