import MyUnp.TransitionSystem

namespace MyUnp.Fifo

open MyUnp.TransitionSystem

universe u

variable {α : Type u}

/-- How many elements a read that asked for `n` with `avail` waiting may
deliver: at least one, and never more than asked for or available. -/
structure ReadRule where
  allows : (n avail k : Nat) → Bool
  pos : ∀ {n avail k}, allows n avail k = true → 0 < k
  le_asked : ∀ {n avail k}, allows n avail k = true → k ≤ n
  le_avail : ∀ {n avail k}, allows n avail k = true → k ≤ avail

def ReadRule.short : ReadRule where
  allows n avail k := decide (0 < k ∧ k ≤ n ∧ k ≤ avail)
  pos h := (of_decide_eq_true h).1
  le_asked h := (of_decide_eq_true h).2.1
  le_avail h := (of_decide_eq_true h).2.2

theorem ReadRule.short_allows {n avail k : Nat} (hpos : 0 < k) (hn : k ≤ n)
    (havail : k ≤ avail) : ReadRule.short.allows n avail k = true :=
  decide_eq_true ⟨hpos, hn, havail⟩

def ReadRule.full : ReadRule where
  allows n avail k := decide (0 < k ∧ k = min n avail)
  pos h := (of_decide_eq_true h).1
  le_asked h := by have := of_decide_eq_true h; omega
  le_avail h := by have := of_decide_eq_true h; omega

theorem ReadRule.full_eq_min {n avail k : Nat}
    (h : ReadRule.full.allows n avail k = true) : k = min n avail :=
  (of_decide_eq_true h).2

structure Channel (α : Type u) (cap : Nat) where
  buf : List α
  closed : Bool
  bounded : buf.length ≤ cap
  deriving DecidableEq

namespace Channel

variable {cap : Nat}

def empty : Channel α cap := ⟨[], false, Nat.zero_le _⟩

@[simp] theorem empty_buf : (empty : Channel α cap).buf = [] := rfl

@[simp] theorem empty_closed : (empty : Channel α cap).closed = false := rfl

def put (c : Channel α cap) (a : α) : Option (Channel α cap) :=
  if h : c.closed = false ∧ c.buf.length < cap then
    some ⟨c.buf ++ [a], c.closed, by simpa using Nat.succ_le_of_lt h.2⟩
  else none

def recv (R : ReadRule) (n k : Nat) (c : Channel α cap) :
    Option (List α × Channel α cap) :=
  if R.allows n c.buf.length k then
    some (c.buf.take k, ⟨c.buf.drop k, c.closed, by
      have := c.bounded
      simp only [List.length_drop]
      omega⟩)
  else none

def shut (c : Channel α cap) : Channel α cap := { c with closed := true }

@[simp] theorem shut_buf (c : Channel α cap) : c.shut.buf = c.buf := rfl

@[simp] theorem shut_closed (c : Channel α cap) : c.shut.closed = true := rfl

def AtEof (c : Channel α cap) : Prop := c.buf = [] ∧ c.closed = true

instance [DecidableEq α] (c : Channel α cap) : Decidable c.AtEof :=
  inferInstanceAs (Decidable (_ ∧ _))

theorem put_eq_some {c d : Channel α cap} {a : α} (h : c.put a = some d) :
    c.closed = false ∧ c.buf.length < cap ∧ d.buf = c.buf ++ [a] ∧
      d.closed = c.closed := by
  unfold put at h
  split at h
  · rename_i hroom
    obtain rfl := Option.some.inj h
    exact ⟨hroom.1, hroom.2, rfl, rfl⟩
  · simp at h

theorem recv_eq_some {R : ReadRule} {n k : Nat} {c d : Channel α cap}
    {xs : List α} (h : c.recv R n k = some (xs, d)) :
    R.allows n c.buf.length k = true ∧ xs.length = k ∧
      xs ++ d.buf = c.buf ∧ d.closed = c.closed := by
  unfold recv at h
  split at h
  · rename_i hallow
    obtain ⟨rfl, rfl⟩ := Prod.mk.inj (Option.some.inj h)
    refine ⟨hallow, ?_, List.take_append_drop _ _, rfl⟩
    have := R.le_avail hallow
    simp only [List.length_take]
    omega
  · simp at h

theorem put_of_room {c : Channel α cap} (hopen : c.closed = false)
    (hroom : c.buf.length < cap) (a : α) :
    ∃ d, c.put a = some d ∧ d.buf = c.buf ++ [a] := by
  refine ⟨_, dif_pos ⟨hopen, hroom⟩, rfl⟩

theorem recv_of_allows {R : ReadRule} {n k : Nat} {c : Channel α cap}
    (h : R.allows n c.buf.length k = true) :
    ∃ d, c.recv R n k = some (c.buf.take k, d) ∧ d.buf = c.buf.drop k := by
  refine ⟨_, if_pos h, rfl⟩

theorem recv_length_le {R : ReadRule} {n k : Nat} {c d : Channel α cap}
    {xs : List α} (h : c.recv R n k = some (xs, d)) : xs.length ≤ n := by
  obtain ⟨hallow, hlen, -, -⟩ := recv_eq_some h
  exact hlen ▸ R.le_asked hallow

end Channel

structure Pipe (α : Type u) where
  entered : List α
  left : List α
  content : List α

inductive PipeAct (α : Type u) where
  | enter (xs : List α)
  | leave (k : Nat)

/-- Elements enter at the back, and a prefix of the content leaves. -/
def pipe (α : Type u) : System (Pipe α) (PipeAct α) where
  init p := p = ⟨[], [], []⟩
  step p
    | .enter xs => some ⟨p.entered ++ xs, p.left, p.content ++ xs⟩
    | .leave k => some ⟨p.entered, p.left ++ p.content.take k, p.content.drop k⟩

/-- Nothing is lost, duplicated or reordered on the way through. -/
theorem pipe_law {p : Pipe α} (h : (pipe α).Reachable p) :
    p.left ++ p.content = p.entered := by
  refine h.invariant (P := fun p => p.left ++ p.content = p.entered) ?_ ?_
  · rintro p rfl
    rfl
  · intro p a q _ hp hstep
    cases a with
    | enter xs =>
        obtain rfl := Option.some.inj hstep
        simp [← hp]
    | leave k =>
        obtain rfl := Option.some.inj hstep
        simpa using hp

theorem pipe_prefix {p : Pipe α} (h : (pipe α).Reachable p) :
    p.left <+: p.entered := ⟨p.content, pipe_law h⟩

theorem pipe_drained {p : Pipe α} (h : (pipe α).Reachable p)
    (hempty : p.content = []) : p.left = p.entered := by
  simpa [hempty] using pipe_law h

end MyUnp.Fifo
