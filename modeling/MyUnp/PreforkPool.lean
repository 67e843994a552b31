import MyUnp.PreforkAccounting
import MyUnp.WebChildProtocol

namespace MyUnp.PreforkPool

open MyUnp.PreforkAccounting
open MyUnp.PreforkServer
open MyUnp.Readline
open MyUnp.TransitionSystem
open MyUnp.WebChild
open MyUnp.WebChildProtocol

variable {n : Nat}

def outcome (c : Conn) : Served := outstanding .empty c.script

/-- What a connection must have been like to end a child that way. -/
def Fatal (c : Conn) : Cause → Prop
  | .errQuit k => (outcome c).ended = .errQuit k
  | .readError => (outcome c).ended = .errSys
  | .writenError => (outcome c).replies ≠ []

def inHand : Child → Option Conn
  | .running (.accepted c) => some c
  | .running (.serving c _) => some c
  | .running (.closing c) => some c
  | .ended c _ => some c
  | _ => none

/-- Inside `web_child` the rest of the stream is what is left of the service of
the whole connection; outside, the read buffer is empty. -/
def ChildOk (rb : ReadBuf) : Child → Prop
  | .running (.serving c src) =>
      ∃ done, outcome c =
        ⟨done ++ (outstanding rb src).replies, (outstanding rb src).ended⟩
  | .running (.closing c) => (outcome c).ended = .returned ∧ rb = .empty
  | .ended c x => Fatal c x
  | _ => rb = .empty

theorem childOk_afterRequest {rb : ReadBuf} {c : Conn} {src : Source}
    (h : ChildOk rb (.running (.serving c src))) (writeOk : Bool) :
    let r := nextRequest rb src
    ChildOk r.2.1 (afterRequest c r.2.2 writeOk r.1) := by
  have hround := outstanding_next rb src
  obtain ⟨done, hdone⟩ := h
  rcases hnext : nextRequest rb src with ⟨req, rb', src'⟩
  simp only [hnext] at hround ⊢
  cases req with
  | closed =>
      obtain ⟨heq, hempty⟩ := hround
      rw [heq] at hdone
      exact ⟨congrArg Served.ended hdone, hempty⟩
  | readError =>
      rw [hround] at hdone
      exact congrArg Served.ended hdone
  | refused k =>
      rw [hround] at hdone
      exact congrArg Served.ended hdone
  | reply k =>
      obtain ⟨heq, -⟩ := hround
      rw [heq] at hdone
      cases writeOk with
      | true =>
          refine ⟨done ++ [k], ?_⟩
          rw [hdone, List.append_assoc]
          rfl
      | false =>
          show (outcome c).replies ≠ []
          rw [hdone]
          simp

structure Inv (s : State n) : Prop where
  ok : ∀ i, ChildOk (s.readBuf i) (s.child i)
  held : ∀ i c, inHand (s.child i) = some c → (i, c) ∈ s.taken
  past : ∀ i c, (i, c) ∈ s.taken → inHand (s.child i) = some c ∨
    (outcome c).ended = .returned

theorem inv_start (n : Nat) : Inv (.start n) := by
  constructor
  · intro i
    rfl
  · intro i c h
    simp [State.start, inHand] at h
  · intro i c h
    simp [State.start] at h

theorem Inv.childStep {s t : State n} (h : Inv s) {i : Fin n} {old ch : Child}
    {rb : ReadBuf} (hi : s.child i = old)
    (hchild : t.child = Function.update s.child i ch)
    (hbuf : t.readBuf = Function.update s.readBuf i rb)
    (htaken : t.taken = s.taken)
    (hok : ChildOk (s.readBuf i) old → ChildOk rb ch)
    (hhand : ∀ c, inHand ch = some c → inHand old = some c)
    (hpast : ChildOk (s.readBuf i) old → ∀ c, inHand old = some c →
      inHand ch = some c ∨ (outcome c).ended = .returned) : Inv t := by
  subst hi
  constructor
  · intro j
    rw [hchild, hbuf]
    rcases eq_or_ne j i with rfl | hji
    · rw [Function.update_self, Function.update_self]
      exact hok (h.ok j)
    · rw [Function.update_of_ne hji, Function.update_of_ne hji]
      exact h.ok j
  · intro j c hj
    rw [hchild] at hj
    rw [htaken]
    rcases eq_or_ne j i with rfl | hji
    · rw [Function.update_self] at hj
      exact h.held j c (hhand c hj)
    · rw [Function.update_of_ne hji] at hj
      exact h.held j c hj
  · intro j c hj
    rw [htaken] at hj
    rw [hchild]
    rcases eq_or_ne j i with rfl | hji
    · rw [Function.update_self]
      rcases h.past j c hj with hin | hreturned
      · exact hpast (h.ok j) c hin
      · exact .inr hreturned
    · rw [Function.update_of_ne hji]
      exact h.past j c hj

theorem inHand_afterRequest (c : Conn) (src : Source) (writeOk : Bool)
    (r : Request) : inHand (afterRequest c src writeOk r) = some c := by
  cases r with
  | closed => rfl
  | readError => rfl
  | refused k => rfl
  | reply k => cases writeOk <;> rfl

theorem Inv.step {s t : State n} {l : Act n} (hreach : (system n).Reachable s)
    (h : Inv s) (hstep : (system n).step s l = some t) : Inv t := by
  have hsame : ∀ i, Function.update s.readBuf i (s.readBuf i) = s.readBuf :=
    fun i => Function.update_eq_self i s.readBuf
  cases step_move hstep with
  | fork hlt =>
      have hnew : s.child ⟨s.forked, hlt⟩ = .notForked :=
        ((reachable_inv hreach).forked _).mpr (Nat.le_refl _)
      exact h.childStep hnew rfl (hsame _).symm rfl id (by simp [inHand])
        (by simp [inHand])
  | arrive script => exact ⟨h.ok, h.held, h.past⟩
  | select hi hqueue =>
      exact h.childStep hi rfl (hsame _).symm rfl id (by simp [inHand])
        (by simp [inHand])
  | @accept i c queue hi hqueue =>
      constructor
      · intro j
        rcases eq_or_ne j i with rfl | hji
        · have hok := h.ok j
          rw [hi] at hok
          simp only [State.accept, State.setChild, Function.update_self]
          exact hok
        · simpa [State.accept, State.setChild, hji] using h.ok j
      · intro j c' hj
        rcases eq_or_ne j i with rfl | hji
        · simp only [State.accept, State.setChild, Function.update_self, inHand,
            Option.some_inj] at hj
          subst hj
          exact List.mem_append_right _ (List.mem_singleton_self _)
        · simp only [State.accept, State.setChild, Function.update_of_ne hji] at hj
          exact List.mem_append_left _ (h.held j c' hj)
      · intro j c' hj
        rcases List.mem_append.mp hj with hold | hnew
        · rcases eq_or_ne j i with rfl | hji
          · have hpast := h.past j c' hold
            rw [hi] at hpast
            exact .inr (hpast.resolve_left (by simp [inHand]))
          · simpa [State.accept, State.setChild, hji] using h.past j c' hold
        · obtain ⟨rfl, rfl⟩ := Prod.mk.inj (List.mem_singleton.mp hnew)
          refine .inl ?_
          simp [State.accept, State.setChild, inHand]
  | @count i c hi =>
      refine h.childStep hi rfl (hsame i).symm rfl ?_ (fun _ hc => hc)
        fun _ _ hc => .inl hc
      intro hempty
      refine ⟨[], ?_⟩
      rw [show s.readBuf i = .empty from hempty]
      rfl
  | @request i c src writeOk hi =>
      refine h.childStep hi rfl rfl rfl
        (fun hok => childOk_afterRequest hok writeOk) ?_ ?_
      · rw [inHand_afterRequest]
        exact fun _ hc => hc
      · rw [inHand_afterRequest]
        exact fun _ _ hc => .inl hc
  | close hi =>
      refine h.childStep hi rfl (hsame _).symm rfl (fun hok => hok.2)
        (by simp [inHand]) ?_
      rintro hok c hc
      obtain rfl := Option.some.inj hc
      exact .inr hok.1

theorem reachable_childrenOk {s : State n} (h : (system n).Reachable s) :
    Inv s := by
  refine h.invariant (P := Inv) ?_ ?_
  · rintro s rfl
    exact inv_start n
  · intro s l t hreach hs hstep
    exact hs.step hreach hstep

theorem ended_step {s t : State n} {l : Act n} {i : Fin n} {stage : Stage}
    {c : Conn} {x : Cause} (hstep : (system n).step s l = some t)
    (hi : s.child i = .running stage) (hended : t.child i = .ended c x) :
    (∃ writeOk, l = .request i writeOk) ∧ ∀ j, j ≠ i → t.child j = s.child j := by
  have hrunning : ∀ (j : Fin n) (st : Stage),
      Function.update s.child j (.running st) i ≠ .ended c x := by
    intro j st
    rcases eq_or_ne i j with rfl | hij
    · simp
    · simp [hij, hi]
  cases step_move hstep with
  | fork hlt => exact absurd hended (hrunning _ _)
  | arrive script =>
      have hsame : (s.arrive script).child i = .running stage := hi
      rw [hsame] at hended
      simp at hended
  | select hj hqueue => exact absurd hended (hrunning _ _)
  | accept hj hqueue => exact absurd hended (hrunning _ _)
  | count hj => exact absurd hended (hrunning _ _)
  | @request j c' src writeOk hj =>
      rcases eq_or_ne i j with rfl | hij
      · exact ⟨⟨writeOk, rfl⟩, fun k hk => Function.update_of_ne hk ..⟩
      · have hsame : (s.request j c' src writeOk).child i = s.child i :=
          Function.update_of_ne hij ..
        rw [hsame, hi] at hended
        simp at hended
  | close hj => exact absurd hended (hrunning _ _)

def Alive (s : State n) (i : Fin n) : Prop := ∃ stage, s.child i = .running stage

/-- What becomes of the pool: a forked child is alive or was ended by the
connection it was serving, for a reason that lies in that connection; one
connection ends at most one child; a connection on which `web_child` does not
return leaves its child serving it or ended by it; and a step that ends a child
is a round of `web_child` of that child, and changes no other. -/
structure PoolLaw (s : State n) : Prop where
  alive : ∀ i, i.val < s.forked → Alive s i ∨ ∃ c x, s.child i = .ended c x
  fatal : ∀ i c x, s.child i = .ended c x → (i, c) ∈ s.taken ∧ Fatal c x
  one : ∀ i j c x y, s.child i = .ended c x → s.child j = .ended c y → i = j
  lost : ∀ i c, (i, c) ∈ s.taken → (outcome c).ended ≠ .returned →
    (Alive s i ∧ inHand (s.child i) = some c) ∨ ∃ x, s.child i = .ended c x
  others : ∀ l t i c x, (system n).step s l = some t → Alive s i →
    t.child i = .ended c x →
      (∃ writeOk, l = .request i writeOk) ∧ ∀ j, j ≠ i → t.child j = s.child j

theorem reachable_poolLaw {s : State n} (h : (system n).Reachable s) :
    PoolLaw s := by
  have hinv := reachable_childrenOk h
  constructor
  · intro i hi
    cases hchild : s.child i with
    | notForked =>
        have hnot := ((reachable_inv h).forked i).mp hchild
        omega
    | running stage => exact .inl ⟨stage, hchild⟩
    | ended c x => exact .inr ⟨c, x, rfl⟩
  · intro i c x hi
    have hok := hinv.ok i
    rw [hi] at hok
    exact ⟨hinv.held i c (by rw [hi]; rfl), hok⟩
  · intro i j c x y hi hj
    exact eq_of_mem_taken h (hinv.held i c (by rw [hi]; rfl))
      (hinv.held j c (by rw [hj]; rfl))
  · intro i c hmem hbad
    have hhand := (hinv.past i c hmem).resolve_right hbad
    cases hchild : s.child i with
    | notForked =>
        rw [hchild] at hhand
        simp [inHand] at hhand
    | running stage => exact .inl ⟨⟨stage, hchild⟩, hchild ▸ hhand⟩
    | ended c' x =>
        rw [hchild] at hhand
        obtain rfl := Option.some.inj hhand
        exact .inr ⟨x, rfl⟩
  · rintro l t i c x hstep ⟨stage, hstage⟩ hended
    exact ended_step hstep hstage hended

/-- One child, and a client that asks for no bytes. -/
theorem pool_emptied : ¬∀ s : State 1, (system 1).Reachable s →
    ∀ i, i.val < s.forked → Alive s i := by
  intro hall
  have hmap : ((system 1).run (.start 1)
      [.fork, .arrive ⟨[.data ⟨48, [10], by decide⟩], .eof⟩, .select 0, .accept 0,
        .count 0, .request 0 true]).map
          (fun s => (s.forked, s.child 0)) =
      some (1, .ended ⟨0, ⟨[.data ⟨48, [10], by decide⟩], .eof⟩⟩ (.errQuit 0)) := by
    decide +kernel
  obtain ⟨s, hrun, hfacts⟩ := Option.map_eq_some_iff.mp hmap
  obtain ⟨hforked, hended⟩ := Prod.mk.inj hfacts
  obtain ⟨stage, hstage⟩ := hall s ⟨_, _, rfl, hrun⟩ 0 (by simp [hforked])
  rw [hended] at hstage
  simp at hstage

theorem reachable_poolLaw_two : ∃ s : State 2, PoolLaw s ∧
    s.child 1 = .running .select ∧ ∃ c, s.child 0 = .ended c (.errQuit 0) := by
  have hmap : ((system 2).run (.start 2)
      [.fork, .fork, .arrive ⟨[.data ⟨48, [10], by decide⟩], .eof⟩, .select 0,
        .accept 0, .count 0, .request 0 true]).map
          (fun s => (s.child 1, s.child 0)) =
      some (.running .select,
        .ended ⟨0, ⟨[.data ⟨48, [10], by decide⟩], .eof⟩⟩ (.errQuit 0)) := by
    decide +kernel
  obtain ⟨s, hrun, hfacts⟩ := Option.map_eq_some_iff.mp hmap
  obtain ⟨hone, hzero⟩ := Prod.mk.inj hfacts
  exact ⟨s, reachable_poolLaw ⟨_, _, rfl, hrun⟩, hone, _, hzero⟩

end MyUnp.PreforkPool
