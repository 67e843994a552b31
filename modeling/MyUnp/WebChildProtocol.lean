import MyUnp.WebChild

namespace MyUnp.WebChildProtocol

open MyUnp.Atol
open MyUnp.LinePieces
open MyUnp.Readline
open MyUnp.Unp
open MyUnp.WebChild

/-- The service of a list of requests, one by one up to the first refusal. -/
def answers (ending : Ending) : List (List Byte) → Served
  | [] => ⟨[], if ending = .eof then .returned else .errSys⟩
  | p :: ps =>
      let ntowrite := toInt (atol p)
      if ntowrite ≤ 0 ∨ ntowrite ≥ MAXN then ⟨[], .errQuit ntowrite⟩
      else
        { answers ending ps with
          replies := ntowrite.toNat :: (answers ending ps).replies }

def outstanding (rb : ReadBuf) (src : Source) : Served :=
  answers src.ending (requests src.ending (stream rb src))

theorem outstanding_next (rb : ReadBuf) (src : Source) :
    let r := nextRequest rb src
    match r.1 with
    | .closed => outstanding rb src = ⟨[], .returned⟩ ∧ r.2.1 = .empty
    | .readError => outstanding rb src = ⟨[], .errSys⟩
    | .refused k => outstanding rb src = ⟨[], .errQuit k⟩
    | .reply k =>
        outstanding rb src =
            ⟨k :: (outstanding r.2.1 r.2.2).replies,
              (outstanding r.2.1 r.2.2).ended⟩ ∧
          (stream r.2.1 r.2.2).length < (stream rb src).length := by
  have hspec := nextRequest_spec rb src
  simp only [outstanding]
  rcases hnext : nextRequest rb src with ⟨req, rb', src'⟩
  simp only [hnext] at hspec ⊢
  obtain ⟨hending, hcase⟩ := hspec
  rw [hending]
  rcases hreqs : requests src.ending (stream rb src) with _ | ⟨p, ps⟩
  · rw [hreqs] at hcase
    obtain ⟨hrest, rfl⟩ := hcase
    obtain ⟨hunread, -⟩ := List.append_eq_nil_iff.mp hrest
    cases src.ending with
    | eof => exact ⟨rfl, congrArg ReadBuf.mk hunread⟩
    | error => rfl
  · rw [hreqs] at hcase
    obtain ⟨rfl, hrest, hlen⟩ := hcase
    rw [hrest, request, answers]
    by_cases hrange : toInt (atol p) ≤ 0 ∨ toInt (atol p) ≥ MAXN
    · simp only [if_pos hrange]
    · simp only [if_neg hrange]
      exact ⟨trivial, hlen⟩

theorem webChildLoop_eq {fuel : Nat} {rb : ReadBuf} {src : Source}
    (hfuel : (stream rb src).length < fuel) :
    webChildLoop fuel rb src = some (outstanding rb src) := by
  induction fuel generalizing rb src with
  | zero => exact absurd hfuel (Nat.not_lt_zero _)
  | succ fuel ih =>
      have hround := outstanding_next rb src
      rcases hnext : nextRequest rb src with ⟨req, rb', src'⟩
      simp only [hnext] at hround
      rw [webChildLoop, hnext]
      cases req with
      | closed => simp only [hround.1]
      | readError => simp only [hround]
      | refused k => simp only [hround]
      | reply k =>
          obtain ⟨heq, hlen⟩ := hround
          have hlt : (stream rb' src').length < fuel := by omega
          simp only [ih hlt, heq, Option.map_some]

theorem webChild_eq (rb : ReadBuf) (src : Source) :
    webChild rb src = some (outstanding rb src) :=
  webChildLoop_eq (Nat.lt_succ_self _)

def Valid (p : List Byte) : Prop := 0 < decimalValue p ∧ decimalValue p < MAXN

instance (p : List Byte) : Decidable (Valid p) :=
  inferInstanceAs (Decidable (_ ∧ _))

def size (p : List Byte) : Nat := (decimalValue p).toNat

theorem Valid.isInt {p : List Byte} (h : Valid p) : IsInt (decimalValue p) := by
  obtain ⟨hpos, hlt⟩ := h
  rw [MAXN] at hlt
  constructor <;> omega

theorem answers_valid {ending : Ending} {p : List Byte} (h : Valid p)
    (ps : List (List Byte)) :
    answers ending (p :: ps) =
      { answers ending ps with
        replies := size p :: (answers ending ps).replies } := by
  have hrange : ¬(decimalValue p ≤ 0 ∨ decimalValue p ≥ MAXN) := by
    obtain ⟨hpos, hlt⟩ := h
    omega
  rw [answers, toInt_atol h.isInt, if_neg hrange]
  rfl

theorem answers_invalid {ending : Ending} {p : List Byte} (h : ¬Valid p)
    (hint : IsInt (decimalValue p)) (ps : List (List Byte)) :
    answers ending (p :: ps) = ⟨[], .errQuit (decimalValue p)⟩ := by
  have hrange : decimalValue p ≤ 0 ∨ decimalValue p ≥ MAXN := by
    rw [Valid] at h
    omega
  rw [answers, toInt_atol hint, if_pos hrange]

theorem answers_append (ending : Ending) {good : List (List Byte)}
    (hgood : ∀ p ∈ good, Valid p) (ps : List (List Byte)) :
    answers ending (good ++ ps) =
      ⟨good.map size ++ (answers ending ps).replies,
        (answers ending ps).ended⟩ := by
  induction good with
  | nil => rfl
  | cons p good ih =>
      rw [List.cons_append, answers_valid (hgood p (List.mem_cons_self ..)),
        ih fun q hq => hgood q (List.mem_cons_of_mem _ hq)]
      rfl

/-- For every stream and every way it arrives: the valid requests up to the
first other one get replies of exactly their size and in order. If there is no
other one, that is all, and `web_child` returns at end of file. If the first
other one is a number that an `int` can hold, that is all as well, and the
process ends there. -/
theorem webChild_protocol (src : Source) :
    ∃ r, webChild .empty src = some r ∧
      let reqs := requests src.ending src.bytes
      let good := reqs.takeWhile fun p => decide (Valid p)
      good.map size <+: r.replies ∧
        (good = reqs → r.replies = good.map size ∧
          r.ended = if src.ending = .eof then .returned else .errSys) ∧
        (∀ p, reqs[good.length]? = some p → IsInt (decimalValue p) →
          r.replies = good.map size ∧ r.ended = .errQuit (decimalValue p)) ∧
        ∀ (lines : List (List Byte)) (rest : List Byte),
          (∀ l ∈ lines, newline ∉ l ∧ l.length < MAXLINE - 1) →
            newline ∉ rest ∧ rest.length < MAXLINE - 1 →
              src.bytes = (lines.map (· ++ [newline])).flatten ++ rest →
                reqs = lines.map (· ++ [newline]) ++
                  if rest = [] ∨ src.ending ≠ .eof then [] else [rest] := by
  refine ⟨_, webChild_eq .empty src, ?_⟩
  rw [outstanding, show stream .empty src = src.bytes from rfl]
  intro reqs good
  have hsplit : good ++ reqs.dropWhile (fun p => decide (Valid p)) = reqs :=
    List.takeWhile_append_dropWhile
  have hvalid : ∀ p ∈ good, Valid p := by
    intro p hp
    simpa using List.mem_takeWhile_imp hp
  have hanswers := answers_append src.ending hvalid
    (reqs.dropWhile fun p => decide (Valid p))
  rw [hsplit] at hanswers
  rw [hanswers]
  refine ⟨List.prefix_append .., ?_, ?_, ?_⟩
  · intro hall
    have hnil : reqs.dropWhile (fun p => decide (Valid p)) = [] := by
      apply List.append_right_eq_self.mp
      rw [hsplit]
      exact hall.symm
    rw [hnil]
    exact ⟨List.append_nil _, rfl⟩
  · intro p hp hint
    rw [← hsplit, List.getElem?_append_right (Nat.le_refl _), Nat.sub_self] at hp
    rcases hdrop : reqs.dropWhile (fun p => decide (Valid p)) with _ | ⟨q, ps⟩
    · rw [hdrop] at hp
      simp at hp
    · rw [hdrop] at hp
      obtain rfl : q = p := by simpa using hp
      have hinvalid : ¬Valid q := by
        have hhead := List.head?_dropWhile_not (fun p => decide (Valid p)) reqs
        simpa [hdrop] using hhead
      rw [answers_invalid hinvalid hint]
      exact ⟨List.append_nil _, rfl⟩
  · intro lines rest hlines hrest hbytes
    simp only [reqs, hbytes]
    exact requests_lines src.ending lines rest hlines hrest

def terminatedLines (s : List Byte) : List (List Byte) :=
  (pieces newline s.length s).filter fun p => decide (newline ∈ p)

/-- Each terminated line with a valid number is answered, and nothing else. -/
def AnswersLines (src : Source) : Prop :=
  (webChild .empty src).map Served.replies =
    some (((terminatedLines src.bytes).filter fun p => decide (Valid p)).map size)

instance (src : Source) : Decidable (AnswersLines src) :=
  inferInstanceAs (Decidable (_ = _))

/-- After the line `0` the process is gone, and the line `5` gets no answer; at
end of file `5` is a request without a newline. -/
theorem webChild_not_line_by_line :
    ¬AnswersLines ⟨[.data ⟨48, [10, 53, 10], by decide⟩], .eof⟩ ∧
      ¬AnswersLines ⟨[.data ⟨53, [], by decide⟩], .eof⟩ := by
  constructor
  · decide +kernel
  · decide +kernel

end MyUnp.WebChildProtocol
