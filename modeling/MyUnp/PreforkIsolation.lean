import MyUnp.PreforkAccounting
import MyUnp.WebChildProtocol

namespace MyUnp.PreforkIsolation

open MyUnp.LinePieces
open MyUnp.PreforkAccounting
open MyUnp.PreforkServer
open MyUnp.Readline
open MyUnp.TransitionSystem
open MyUnp.Unp
open MyUnp.WebChild
open MyUnp.WebChildProtocol

variable {n : Nat}

/-- A property of a child and its read buffer that survives that child's own
steps. -/
structure Local (P : ReadBuf → Child → Prop) : Prop where
  start : P .empty .notForked
  fork : ∀ rb, P rb .notForked → P rb (.running .select)
  select : ∀ rb, P rb (.running .select) → P rb (.running .accept)
  accept : ∀ rb c, P rb (.running .accept) → P rb (.running (.accepted c))
  count : ∀ rb c, P rb (.running (.accepted c)) → P rb (.running (.serving c c.script))
  request : ∀ rb c src writeOk, P rb (.running (.serving c src)) →
    P (nextRequest rb src).2.1
      (afterRequest c (nextRequest rb src).2.2 writeOk (nextRequest rb src).1)
  close : ∀ rb c, P rb (.running (.closing c)) → P rb (.running .select)

section Local

variable {P : ReadBuf → Child → Prop} {s t : State n}

theorem forall_of_update (h : ∀ j, P (s.readBuf j) (s.child j)) {i : Fin n}
    {rb : ReadBuf} {ch : Child} (hchild : t.child = Function.update s.child i ch)
    (hbuf : t.readBuf = Function.update s.readBuf i rb) (hi : P rb ch) (j : Fin n) :
    P (t.readBuf j) (t.child j) := by
  rw [hchild, hbuf]
  rcases eq_or_ne j i with rfl | hji
  · rw [Function.update_self, Function.update_self]
    exact hi
  · rw [Function.update_of_ne hji, Function.update_of_ne hji]
    exact h j

theorem Local.reachable (hP : Local P) (h : (system n).Reachable s) (i : Fin n) :
    P (s.readBuf i) (s.child i) := by
  revert i
  refine h.invariant (P := fun s => ∀ i, P (s.readBuf i) (s.child i)) ?_ ?_
  · rintro s rfl _
    exact hP.start
  · intro s l t hreach hs hstep
    have hsame : ∀ i, s.readBuf = Function.update s.readBuf i (s.readBuf i) :=
      fun i => (Function.update_eq_self i s.readBuf).symm
    have hat : ∀ {i old}, s.child i = old → P (s.readBuf i) old := fun hi => hi ▸ hs _
    cases step_move hstep with
    | fork hlt =>
        have hnew : s.child ⟨s.forked, hlt⟩ = .notForked :=
          ((reachable_inv hreach).forked _).mpr (Nat.le_refl _)
        exact forall_of_update hs rfl (hsame _) (hP.fork _ (hat hnew))
    | arrive script => exact hs
    | select hi hqueue => exact forall_of_update hs rfl (hsame _) (hP.select _ (hat hi))
    | accept hi hqueue => exact forall_of_update hs rfl (hsame _) (hP.accept _ _ (hat hi))
    | count hi => exact forall_of_update hs rfl (hsame _) (hP.count _ _ (hat hi))
    | request hi => exact forall_of_update hs rfl rfl (hP.request _ _ _ _ (hat hi))
    | close hi => exact forall_of_update hs rfl (hsame _) (hP.close _ _ (hat hi))

end Local

/-- What is left to be read on a connection in service is the rest of its own
stream, and the requests on it are the rest of its own requests. -/
structure Rest (c : Conn) (rb : ReadBuf) (src : Source) : Prop where
  ending_eq : src.ending = c.script.ending
  suffix : stream rb src <:+ c.script.bytes
  requests_suffix : requests src.ending (stream rb src) <:+
    requests c.script.ending c.script.bytes

/-- In `web_child` a child has only bytes of its connection in the buffer; out of
it the buffer is empty. -/
def Own (rb : ReadBuf) : Child → Prop
  | .running (.serving c src) => Rest c rb src
  | .ended _ _ => True
  | _ => rb = .empty

theorem readline_suffix (rb : ReadBuf) (src : Source) :
    stream (readline MAXLINE rb src).buf (readline MAXLINE rb src).src <:+
      stream rb src := by
  obtain ⟨_, ⟨_, _, hnil, _⟩ | ⟨_, _, hrest, _, _⟩⟩ :=
    readline_spec (by decide : 1 < MAXLINE) rb src
  · rw [hnil]
    exact List.nil_suffix
  · rw [hrest]
    exact ⟨_, nextPiece_append newline (MAXLINE - 1) (stream rb src)⟩

theorem nextRequest_snd (rb : ReadBuf) (src : Source) :
    (nextRequest rb src).2 =
      ((readline MAXLINE rb src).buf, (readline MAXLINE rb src).src) := by
  unfold nextRequest
  dsimp only
  split_ifs <;> rfl

theorem Rest.start (c : Conn) : Rest c .empty c.script := ⟨rfl, List.suffix_rfl, List.suffix_rfl⟩

theorem Rest.next {c : Conn} {rb : ReadBuf} {src : Source} (h : Rest c rb src) :
    Rest c (nextRequest rb src).2.1 (nextRequest rb src).2.2 := by
  obtain ⟨hending, hcase⟩ := nextRequest_spec rb src
  refine ⟨hending.trans h.ending_eq, ?_, ?_⟩
  · rw [nextRequest_snd]
    exact (readline_suffix rb src).trans h.suffix
  · rw [hending]
    cases hreqs : requests src.ending (stream rb src) with
    | nil =>
        rw [hreqs] at hcase
        rw [hcase.1, requests_nil]
        exact List.nil_suffix
    | cons p ps =>
        rw [hreqs] at hcase
        rw [hcase.2.1]
        exact ((List.suffix_cons p ps).trans (hreqs ▸ List.suffix_rfl)).trans
          h.requests_suffix

theorem own_local : Local Own where
  start := rfl
  fork _ h := h
  select _ h := h
  accept _ _ h := h
  count rb c h := by
    obtain rfl : rb = .empty := h
    exact Rest.start c
  request rb c src writeOk h := by
    have hnext := outstanding_next rb src
    have hrest := Rest.next h
    cases hreq : (nextRequest rb src).1 with
    | closed =>
        simp only [hreq] at hnext
        exact hnext.2
    | readError => exact trivial
    | refused k => exact trivial
    | reply k =>
        cases writeOk with
        | true => exact hrest
        | false => exact trivial
  close _ _ h := h

/-- No byte of one connection gets into a request of another: the buffer is
empty whenever a child is not in `web_child`, above all when `web_child` has
returned, and in `web_child` the line that `Readline` returns next is a piece of
the connection's own stream, and the request it makes one of its requests. -/
structure NoLeak (s : State n) : Prop where
  returned : ∀ i c, s.child i = .running (.closing c) → s.readBuf i = .empty
  outside : ∀ i stage, s.child i = .running stage →
    (∀ c src, stage ≠ .serving c src) → s.readBuf i = .empty
  suffix : ∀ i c src, s.child i = .running (.serving c src) →
    stream (s.readBuf i) src <:+ c.script.bytes
  line : ∀ i c src, s.child i = .running (.serving c src) →
    0 ≤ (readline MAXLINE (s.readBuf i) src).ret →
    (readline MAXLINE (s.readBuf i) src).line <:+: c.script.bytes
  request : ∀ i c src, s.child i = .running (.serving c src) →
    0 < (readline MAXLINE (s.readBuf i) src).ret →
    (readline MAXLINE (s.readBuf i) src).line ∈ requests c.script.ending c.script.bytes

theorem readline_line {rb : ReadBuf} {src : Source}
    (h : 0 ≤ (readline MAXLINE rb src).ret) :
    (readline MAXLINE rb src).line <+: stream rb src ∧
      (0 < (readline MAXLINE rb src).ret →
        (readline MAXLINE rb src).line ∈ requests src.ending (stream rb src)) := by
  obtain ⟨_, ⟨hret, _⟩ | ⟨_, hline, _, hcomplete, hzero⟩⟩ :=
    readline_spec (by decide : 1 < MAXLINE) rb src
  · omega
  · rw [hline]
    refine ⟨⟨_, nextPiece_append newline (MAXLINE - 1) (stream rb src)⟩, ?_⟩
    intro hpos
    have hne : stream rb src ≠ [] := by
      intro hnil
      have := hzero.mpr hnil
      omega
    have hkeep : src.ending = .eof ∨ Complete newline (MAXLINE - 1)
        (nextPiece newline (MAXLINE - 1) (stream rb src)).1 := by
      cases hend : src.ending with
      | eof => exact .inl rfl
      | error => exact .inr (hcomplete hend)
    rw [requests_cons hne hkeep]
    exact List.mem_cons_self

theorem reachable_noLeak {s : State n} (h : (system n).Reachable s) : NoLeak s := by
  have hown : ∀ {i ch}, s.child i = ch → Own (s.readBuf i) ch :=
    fun hi => hi ▸ own_local.reachable h _
  have hrest : ∀ {i c src}, s.child i = .running (.serving c src) →
      Rest c (s.readBuf i) src := fun hi => hown hi
  refine ⟨fun i c hi => hown hi, ?_, fun i c src hi => (hrest hi).suffix, ?_, ?_⟩
  · intro i stage hi hout
    cases stage with
    | select => exact hown hi
    | accept => exact hown hi
    | accepted c => exact hown hi
    | serving c src => exact absurd rfl (hout c src)
    | closing c => exact hown hi
  · intro i c src hi hret
    exact (readline_line hret).1.isInfix.trans (hrest hi).suffix.isInfix
  · intro i c src hi hret
    exact (hrest hi).requests_suffix.subset ((readline_line hret.le).2 hret)

theorem reachable_noLeak_two : ∃ s : State 1, NoLeak s ∧
    s.child 0 = .running (.closing ⟨0, ⟨[.data ⟨49, [10, 50], by decide⟩], .eof⟩⟩) ∧
    s.queue = [⟨1, ⟨[], .eof⟩⟩] := by
  have hmap : ((system 1).run (.start 1)
      [.fork, .arrive ⟨[.data ⟨49, [10, 50], by decide⟩], .eof⟩, .arrive ⟨[], .eof⟩,
        .select 0, .accept 0, .count 0, .request 0 true, .request 0 true,
        .request 0 true]).map (fun s => (s.child 0, s.queue)) =
      some (.running (.closing ⟨0, ⟨[.data ⟨49, [10, 50], by decide⟩], .eof⟩⟩),
        [⟨1, ⟨[], .eof⟩⟩]) := by
    decide +kernel
  obtain ⟨s, hrun, hfacts⟩ := Option.map_eq_some_iff.mp hmap
  obtain ⟨hchild, hqueue⟩ := Prod.mk.inj hfacts
  exact ⟨s, reachable_noLeak ⟨_, _, rfl, hrun⟩, hchild, hqueue⟩

end MyUnp.PreforkIsolation
