import MyUnp.SctpStrCli

namespace MyUnp.SctpStrCliLines

open MyUnp.Atol MyUnp.LinePieces MyUnp.SctpStrCli MyUnp.Strtol MyUnp.TransitionSystem
open MyUnp.Unp hiding MAXLINE

/-- A line of any length; only the last one of a file may lack its newline. -/
structure Line (line back : List Byte) : Prop where
  ne_nil : line ≠ []
  oneLine : OneLine newline line
  ends : newline ∈ line ∨ back = []

def Form (line : List Byte) (n : Int) : Prop :=
  ∃ num text, line = 91 :: (num ++ 93 :: text) ∧ Numeral num n ∧ 0 ≤ n ∧ n ≤ 65535

def ofLine : Event → Bool
  | .formError => true
  | .sendmsg _ _ => true
  | _ => false

/-- The line is sent as it is on the stream it names, or rejected if it has not got the
form. -/
def Exact (line : List Byte) (es : List Event) : Prop :=
  (∀ n, Form line n → es.filter ofLine = [.sendmsg (BitVec.ofInt 16 n) line]) ∧
    ((∀ n, ¬ Form line n) →
      .formError ∈ es ∧ ∀ stream data, .sendmsg stream data ∉ es)

/-- What `fgets` makes of the line has no piece that begins with a bracket; or the line
is of the form, without a NUL, and fits `sendline`. -/
def Handled (line : List Byte) : Prop :=
  (∀ p ∈ pieces newline (MAXLINE - 1) line, State.opensBracket p = false) ∨
    line.length < MAXLINE ∧ 0 ∉ line ∧ ∃ n, Form line n

def lineEvent (p : List Byte) : Event :=
  if State.opensBracket p then .sendmsg (State.streamOf p) (cString p) else .formError

section Runs

variable {version : Version} {beyond file : List Byte} {s t : State}

theorem receive_frame (s : State) (r : Recv) :
    (s.receive version beyond r).input = s.input ∧
      ∃ es, (s.receive version beyond r).log = s.log ++ es ∧ es.filter ofLine = [] := by
  have hcheck : ∀ (s : State) (rd_sz : Int), (s.check beyond rd_sz).input = s.input ∧
      ∃ es, (s.check beyond rd_sz).log = s.log ++ es ∧ es.filter ofLine = [] := by
    intro s rd_sz
    unfold State.check
    split_ifs
    · exact ⟨rfl, _, rfl, rfl⟩
    · exact ⟨rfl, _, rfl, rfl⟩
  cases version with
  | getLocalAndPeerAddr =>
      cases r with
      | error =>
          obtain ⟨hinput, es, hlog, hes⟩ := hcheck
            { s with log := s.log ++ [.perror "sctp_recvmsg error"] } (-1)
          refine ⟨hinput, .perror "sctp_recvmsg error" :: es, ?_, hes⟩
          rw [← List.singleton_append, ← List.append_assoc]
          exact hlog
      | message sri flags data => exact hcheck (s.take sri flags data) _
  | chapter9 =>
      cases r with
      | error => exact ⟨rfl, _, rfl, rfl⟩
      | message sri flags data => exact ⟨rfl, _, rfl, rfl⟩
  | client =>
      cases r with
      | error => exact ⟨rfl, _, rfl, rfl⟩
      | message sri flags data => exact ⟨rfl, _, rfl, rfl⟩

theorem step_input {l : Act} (h : (system version beyond file).step s l = some t) :
    ∃ es, t.log = s.log ++ es ∧
      (t.input = s.input ∧ es.filter ofLine = [] ∨
        s.input ≠ [] ∧ t.input = s.nextLine.2 ∧
          es.filter ofLine = [lineEvent s.nextLine.1]) := by
  cases step_move h with
  | eof => exact ⟨[], (List.append_nil _).symm, .inl ⟨rfl, rfl⟩⟩
  | reject _ hinput hform =>
      refine ⟨[.formError], rfl, .inr ⟨hinput, rfl, ?_⟩⟩
      rw [lineEvent, hform]
      rfl
  | @send sendOk _ hinput hform =>
      refine ⟨_, rfl, .inr ⟨hinput, rfl, ?_⟩⟩
      rw [lineEvent, hform]
      cases sendOk <;> rfl
  | recv =>
      obtain ⟨hinput, es, hlog, hes⟩ := receive_frame s _
      exact ⟨es, hlog, .inl ⟨hinput, hes⟩⟩

theorem step_input_le {l : Act} (h : (system version beyond file).step s l = some t) :
    t.input.length ≤ s.input.length := by
  obtain ⟨_, _, ⟨hinput, _⟩ | ⟨hne, hinput, _⟩⟩ := step_input h
  · rw [hinput]
  · rw [hinput]
    exact (nextPiece_rest_length (by decide) hne).le

theorem run_input_le {ls : List Act} (h : (system version beyond file).run s ls = some t) :
    t.input.length ≤ s.input.length := by
  induction ls generalizing s with
  | nil =>
      obtain rfl : s = t := by simpa using h
      exact Nat.le_refl _
  | cons l ls ih =>
      obtain ⟨u, hstep, hrest⟩ := Option.bind_eq_some_iff.mp h
      exact Nat.le_trans (ih hrest) (step_input_le hstep)

theorem run_pieces {ls : List Act} {m back : List Byte}
    (hrun : (system version beyond file).run s ls = some t) (hinput : s.input = m ++ back)
    (ht : t.input = back) (hline : OneLine newline m) (hends : Ends newline m back) :
    ∃ es, t.log = s.log ++ es ∧
      es.filter ofLine = (pieces newline (MAXLINE - 1) m).map lineEvent := by
  induction ls generalizing s m with
  | nil =>
      obtain rfl : s = t := by simpa using hrun
      have hnil : m = [] := by
        rw [hinput] at ht
        exact List.append_left_eq_self.mp ht
      subst hnil
      exact ⟨[], (List.append_nil _).symm, rfl⟩
  | cons l ls ih =>
      obtain ⟨u, hstep, hrest⟩ := Option.bind_eq_some_iff.mp hrun
      obtain ⟨es, hlog, ⟨hsame, hes⟩ | ⟨hne, htaken, hes⟩⟩ := step_input hstep
      · obtain ⟨es', hlog', hes'⟩ := ih hrest (hsame.trans hinput) hline hends
        refine ⟨es ++ es', ?_, ?_⟩
        · rw [hlog', hlog, List.append_assoc]
        · rw [List.filter_append, hes, hes', List.nil_append]
      · have hm : m ≠ [] := by
          rintro rfl
          have hlt := nextPiece_rest_length (d := newline) (k := MAXLINE - 1) (by decide) hne
          have hle := run_input_le hrest
          rw [htaken, ht] at hle
          rw [hinput, List.nil_append] at hlt
          rw [State.nextLine, hinput, List.nil_append] at hle
          omega
        obtain ⟨hpiece, hline', hends'⟩ :=
          nextPiece_ends (k := MAXLINE - 1) hline hends hm
        rw [State.nextLine, hinput, hpiece] at htaken hes
        obtain ⟨es', hlog', hes'⟩ := ih hrest htaken hline' hends'
        refine ⟨es ++ es', ?_, ?_⟩
        · rw [hlog', hlog, List.append_assoc]
        · rw [List.filter_append, hes, hes', pieces_eq_cons (by decide) hm]
          rfl

end Runs

section Forms

variable {line : List Byte}

theorem opensBracket_of_form {n : Int} (h : Form line n) : State.opensBracket line = true := by
  obtain ⟨num, text, rfl, _⟩ := h
  rfl

theorem strtol_form {n : Int} (h : Form line n) : strtol (line.drop 1) = n := by
  obtain ⟨num, text, rfl, hnum, hlow, hhigh⟩ := h
  have hrange : LONG_MIN ≤ n ∧ n ≤ LONG_MAX := by
    unfold LONG_MIN LONG_MAX
    omega
  exact strtol_numeral hnum hrange (by decide) (by decide) text

theorem streamOf_form {n : Int} (h : Form line n) :
    State.streamOf line = BitVec.ofInt 16 n := by
  rw [State.streamOf, strtol_form h]

theorem opensBracket_append {p rest : List Byte} (hp : p ≠ []) :
    State.opensBracket (p ++ rest) = State.opensBracket p := by
  cases p with
  | nil => exact absurd rfl hp
  | cons c p => rfl

theorem sendmsg_mem_iff {es : List Event} {stream : BitVec 16} {data : List Byte} :
    .sendmsg stream data ∈ es ↔ .sendmsg stream data ∈ es.filter ofLine := by
  rw [List.mem_filter]
  exact (and_iff_left rfl).symm

theorem formError_mem_iff {es : List Event} :
    .formError ∈ es ↔ .formError ∈ es.filter ofLine := by
  rw [List.mem_filter]
  exact (and_iff_left rfl).symm

theorem lineEvent_of_opens {p : List Byte} (h : State.opensBracket p = true) :
    lineEvent p = .sendmsg (State.streamOf p) (cString p) := if_pos h

theorem lineEvent_of_not_opens {p : List Byte} (h : State.opensBracket p = false) :
    lineEvent p = .formError := if_neg (by simp [h])

theorem exact_iff {es : List Event} (hne : line ≠ []) (hline : OneLine newline line)
    (hes : es.filter ofLine = (pieces newline (MAXLINE - 1) line).map lineEvent) :
    Exact line es ↔ Handled line := by
  have happ := nextPiece_append newline (MAXLINE - 1) line
  have hpne := nextPiece_ne_nil (d := newline) (k := MAXLINE - 1) (by decide) hne
  have hple := nextPiece_length_le newline (MAXLINE - 1) line
  have hcons := pieces_eq_cons (d := newline) (k := MAXLINE - 1) (by decide) hne
  unfold Exact
  rw [formError_mem_iff]
  constructor
  · rintro ⟨hsent, hrejected⟩
    by_cases hform : ∃ n, Form line n
    · obtain ⟨n, hn⟩ := hform
      have hone := hsent n hn
      have hopens := opensBracket_of_form hn
      rw [← happ, opensBracket_append hpne] at hopens
      rw [hes, hcons, List.map_cons, lineEvent_of_opens hopens] at hone
      obtain ⟨hevent, _⟩ := List.cons.inj hone
      obtain ⟨_, hdata⟩ := Event.sendmsg.inj hevent
      -- the C string at the front of the first piece is all of the line
      have hlen := congrArg List.length hdata
      have hstr := (cString_prefix_self (nextPiece newline (MAXLINE - 1) line).1).length_le
      have hsum := congrArg List.length happ
      rw [List.length_append] at hsum
      refine .inr ⟨?_, ?_, n, hn⟩
      · have hmax : MAXLINE = 1024 := rfl
        omega
      · rw [← hdata]
        exact zero_not_mem_cString _
    · refine .inl fun p hp => ?_
      have hno := (hrejected (not_exists.mp hform)).2
      by_contra hopens
      rw [Bool.not_eq_false] at hopens
      apply hno (State.streamOf p) (cString p)
      rw [sendmsg_mem_iff, hes, ← lineEvent_of_opens hopens]
      exact List.mem_map_of_mem hp
  · rintro (hnone | ⟨hlen, hzero, n, hn⟩)
    · have hall : es.filter ofLine =
          (pieces newline (MAXLINE - 1) line).map fun _ => .formError := by
        rw [hes]
        exact List.map_congr_left fun p hp => lineEvent_of_not_opens (hnone p hp)
      refine ⟨fun n hn => ?_, fun _ => ⟨?_, fun stream data => ?_⟩⟩
      · have hopens := opensBracket_of_form hn
        rw [← happ, opensBracket_append hpne, hnone _ (by rw [hcons]; exact List.mem_cons_self)]
          at hopens
        cases hopens
      · rw [hall, hcons]
        exact List.mem_cons_self
      · rw [sendmsg_mem_iff, hall]
        intro hmem
        obtain ⟨_, _, heq⟩ := List.mem_map.mp hmem
        cases heq
    · refine ⟨fun m hm => ?_, fun hnone => absurd hn (hnone n)⟩
      rw [hes, pieces_of_length_le hne hline (Nat.le_sub_one_of_lt hlen), List.map_singleton,
        lineEvent_of_opens (opensBracket_of_form hn), streamOf_form hm,
        cString_eq_self hzero]

end Forms

/-- In a run of any of the clients that takes a line off the input, the line is answered
as it should be exactly if none of what `fgets` makes of it begins with a bracket, or it
has the form, fits `sendline` and holds no NUL. -/
theorem line_exact_iff {version : Version} {beyond file : List Byte} {s t : State}
    {ls : List Act} {line back : List Byte} (hline : Line line back)
    (hinput : s.input = line ++ back)
    (hrun : (system version beyond file).run s ls = some t) (ht : t.input = back) :
    ∃ es, t.log = s.log ++ es ∧ (Exact line es ↔ Handled line) := by
  obtain ⟨es, hlog, hes⟩ := run_pieces hrun hinput ht hline.oneLine
    (hline.ends.imp_right .inr)
  exact ⟨es, hlog, exact_iff hline.ne_nil hline.oneLine hes⟩

/-- `"[5]a\n"` -/
theorem line_exact_iff_five :
    ∃ es, ((State.start [91, 53, 93, 97, 10]).send true).log = [] ++ es ∧
      (Exact [91, 53, 93, 97, 10] es ↔ Handled [91, 53, 93, 97, 10]) :=
  @line_exact_iff .chapter9 [] [91, 53, 93, 97, 10] (State.start [91, 53, 93, 97, 10])
    ((State.start [91, 53, 93, 97, 10]).send true) [.line true] [91, 53, 93, 97, 10] []
    ⟨List.cons_ne_nil _ _, nextPiece_oneLine newline 5 [91, 53, 93, 97, 10], .inl (by decide)⟩
    rfl rfl rfl

/-- `"[65537]a\n"` goes out on stream 1. -/
theorem line_sent_on_other_stream :
    ¬ ∀ (s t : State) (ls : List Act) (line back : List Byte), Line line back →
      s.input = line ++ back → (system .chapter9 [] s.input).run s ls = some t →
        t.input = back → ∃ es, t.log = s.log ++ es ∧ Exact line es := by
  intro hall
  have hline : Line [91, 54, 53, 53, 51, 55, 93, 97, 10] [] :=
    ⟨List.cons_ne_nil _ _,
      nextPiece_oneLine newline 9 [91, 54, 53, 53, 51, 55, 93, 97, 10], .inl (by decide)⟩
  obtain ⟨es, hlog, hexact⟩ := hall (State.start [91, 54, 53, 53, 51, 55, 93, 97, 10])
    ((State.start [91, 54, 53, 53, 51, 55, 93, 97, 10]).send true) [.line true]
    [91, 54, 53, 53, 51, 55, 93, 97, 10] [] hline rfl rfl rfl
  have hes : es = [.sendmsg 1 [91, 54, 53, 53, 51, 55, 93, 97, 10]] := by
    rw [show (State.start [91, 54, 53, 53, 51, 55, 93, 97, 10]).log = [] from rfl,
      List.nil_append] at hlog
    rw [← hlog]
    decide
  have hnone : ∀ n, ¬ Form [91, 54, 53, 53, 51, 55, 93, 97, 10] n := by
    intro n hn
    have hvalue : (65537 : Int) = n := strtol_form hn
    obtain ⟨_, _, _, _, _, hhigh⟩ := hn
    omega
  apply (hexact.2 hnone).2 1 [91, 54, 53, 53, 51, 55, 93, 97, 10]
  rw [hes]
  exact List.mem_cons_self

end MyUnp.SctpStrCliLines
