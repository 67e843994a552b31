import Mathlib.Algebra.BigOperators.Group.Finset.Basic
import Mathlib.Data.List.Induction

/-!
Guarded transition systems with an executable step function. The
nondeterminism of a program and its environment sits in the labels, so a run is
a list of labels that can be replayed, and a property of one step becomes a
property of every run by the two induction rules below.
-/

namespace MyUnp.TransitionSystem

universe u v w x

theorem guard_eq_some {State : Type u} {p : Prop} [Decidable p] {s t : State} :
    (if p then some s else none) = some t ↔ p ∧ s = t := by
  rw [Option.ite_none_right_eq_some, Option.some_inj]

theorem sum_rank_of_eq {ι : Type u} [Fintype ι] [DecidableEq ι] {f g : ι → Nat} {i : ι}
    (h : ∀ j, j ≠ i → f j = g j) : ∑ j, f j + g i = ∑ j, g j + f i := by
  have hrest : ∑ j ∈ Finset.univ.erase i, f j = ∑ j ∈ Finset.univ.erase i, g j :=
    Finset.sum_congr rfl fun j hj => h j (Finset.ne_of_mem_erase hj)
  rw [← Finset.add_sum_erase _ f (Finset.mem_univ i),
    ← Finset.add_sum_erase _ g (Finset.mem_univ i), hrest]
  omega

/-- `step s l` is the state after `l`, or `none` where `l` cannot happen. -/
structure System (State : Type u) (Label : Type v) where
  init : State → Prop
  step : State → Label → Option State

namespace System

variable {State : Type u} {Label : Type v} (M : System State Label)

def run : State → List Label → Option State
  | s, [] => some s
  | s, l :: ls => (M.step s l).bind fun t => run t ls

def Trace (ls : List Label) (t : State) : Prop :=
  ∃ s, M.init s ∧ M.run s ls = some t

def Reachable (t : State) : Prop :=
  ∃ ls, M.Trace ls t

variable {M}

@[simp] theorem run_nil (s : State) : M.run s [] = some s := rfl

@[simp] theorem run_cons (s : State) (l : Label) (ls : List Label) :
    M.run s (l :: ls) = (M.step s l).bind fun t => M.run t ls := rfl

theorem run_cons_of_step {s t : State} {l : Label} (h : M.step s l = some t)
    (ls : List Label) : M.run s (l :: ls) = M.run t ls := by
  rw [run_cons, h, Option.bind_some]

theorem run_append (s : State) (ls ms : List Label) :
    M.run s (ls ++ ms) = (M.run s ls).bind fun t => M.run t ms := by
  induction ls generalizing s with
  | nil => rfl
  | cons l ls ih =>
      rw [List.cons_append, run_cons, run_cons, Option.bind_assoc]
      congr 1
      funext t
      exact ih t

theorem run_append_eq_some {s u : State} {ls ms : List Label} :
    M.run s (ls ++ ms) = some u ↔
      ∃ t, M.run s ls = some t ∧ M.run t ms = some u := by
  rw [run_append, Option.bind_eq_some_iff]

theorem run_snoc_eq_some {s u : State} {ls : List Label} {l : Label} :
    M.run s (ls ++ [l]) = some u ↔
      ∃ t, M.run s ls = some t ∧ M.step t l = some u := by
  rw [run_append_eq_some]
  constructor
  · rintro ⟨t, hrun, hstep⟩
    refine ⟨t, hrun, ?_⟩
    simpa using hstep
  · rintro ⟨t, hrun, hstep⟩
    exact ⟨t, hrun, by simpa using hstep⟩

/-- A property of the labels so far and the current state that holds at the
start and survives each step holds along every run. -/
theorem Trace.induct {P : List Label → State → Prop}
    (hinit : ∀ s, M.init s → P [] s)
    (hstep : ∀ ls s l t, M.Trace ls s → P ls s → M.step s l = some t →
      P (ls ++ [l]) t)
    {ls : List Label} {t : State} (h : M.Trace ls t) : P ls t := by
  induction ls using List.reverseRecOn generalizing t with
  | nil =>
      obtain ⟨s, hs, hrun⟩ := h
      obtain rfl : s = t := by simpa using hrun
      exact hinit s hs
  | append_singleton ls l ih =>
      obtain ⟨s, hs, hrun⟩ := h
      obtain ⟨r, hr, hlast⟩ := run_snoc_eq_some.mp hrun
      have htrace : M.Trace ls r := ⟨s, hs, hr⟩
      exact hstep ls r l t htrace (ih htrace) hlast

/-- Amortised counting: where each step pays for itself and for what it adds to
the rank out of what it adds to the budget, a run has no more steps that count
than its budget. -/
theorem Trace.countP_le_budget {rank budget : State → Nat} {counts : Label → Bool}
    (hinit : ∀ s, M.init s → rank s ≤ budget s)
    (hstep : ∀ s l t, M.Reachable s → M.step s l = some t →
      rank t + (if counts l then 1 else 0) + budget s ≤ rank s + budget t)
    {ls : List Label} {t : State} (h : M.Trace ls t) :
    ls.countP counts + rank t ≤ budget t := by
  refine h.induct (P := fun ls s => ls.countP counts + rank s ≤ budget s) ?_ ?_
  · intro s hs
    rw [List.countP_nil, Nat.zero_add]
    exact hinit s hs
  · intro ls s l t htrace hs hst
    have hpaid := hstep s l t ⟨ls, htrace⟩ hst
    rw [List.countP_append, List.countP_singleton]
    omega

theorem Trace.countP_le {rank : State → Nat} {counts : Label → Bool} {m : Nat}
    (hinit : ∀ s, M.init s → rank s ≤ m)
    (hstep : ∀ s l t, M.Reachable s → M.step s l = some t →
      rank t + (if counts l then 1 else 0) ≤ rank s)
    {ls : List Label} {t : State} (h : M.Trace ls t) :
    ls.countP counts + rank t ≤ m := by
  refine h.countP_le_budget hinit ?_
  intro s l t hs hst
  exact Nat.add_le_add_right (hstep s l t hs hst) m

theorem Trace.reachable {ls : List Label} {t : State} (h : M.Trace ls t) :
    M.Reachable t := ⟨ls, h⟩

theorem Reachable.of_run {s t : State} {ls : List Label}
    (h : M.Reachable s) (hrun : M.run s ls = some t) : M.Reachable t := by
  obtain ⟨ms, r, hr, hms⟩ := h
  exact ⟨ms ++ ls, r, hr, run_append_eq_some.mpr ⟨s, hms, hrun⟩⟩

theorem Reachable.step {s t : State} {l : Label}
    (h : M.Reachable s) (hstep : M.step s l = some t) : M.Reachable t := by
  have hrun : M.run s [l] = some t := by simpa using hstep
  exact h.of_run hrun

/-- A predicate that holds initially and is preserved by every step from a
reachable state holds in every reachable state. -/
theorem Reachable.invariant {P : State → Prop}
    (hinit : ∀ s, M.init s → P s)
    (hstep : ∀ s l t, M.Reachable s → P s → M.step s l = some t → P t)
    {t : State} (h : M.Reachable t) : P t := by
  obtain ⟨ls, hls⟩ := h
  exact hls.induct (P := fun _ s => P s) hinit
    fun ls s l t htrace hs hst => hstep s l t htrace.reachable hs hst

/-- A predicate that survives the steps with certain labels holds at the end of
a run of such steps if it holds at its start. -/
theorem Reachable.run_invariant {P : State → Prop} {C : Label → Prop}
    (hstep : ∀ s l t, M.Reachable s → C l → P s → M.step s l = some t → P t)
    {s u : State} {ls : List Label} (h : M.Reachable s) (hs : P s)
    (hls : ∀ l ∈ ls, C l) (hrun : M.run s ls = some u) : P u := by
  induction ls generalizing s with
  | nil =>
      obtain rfl : s = u := by simpa using hrun
      exact hs
  | cons l ls ih =>
      obtain ⟨t, hst, hrest⟩ := Option.bind_eq_some_iff.mp hrun
      rw [List.forall_mem_cons] at hls
      exact ih (h.step hst) (hstep s l t h hls.1 hs hst) hls.2 hrest

theorem Reachable.run_countP_le {rank : State → Nat} {counts : Label → Bool}
    (hstep : ∀ s l t, M.Reachable s → M.step s l = some t →
      rank t + (if counts l then 1 else 0) ≤ rank s)
    {s t : State} {ls : List Label} (h : M.Reachable s)
    (hrun : M.run s ls = some t) : ls.countP counts + rank t ≤ rank s := by
  induction ls generalizing s with
  | nil =>
      obtain rfl : s = t := by simpa using hrun
      simp
  | cons l ls ih =>
      obtain ⟨r, hst, hrest⟩ := Option.bind_eq_some_iff.mp hrun
      have hdrop := hstep s l r h hst
      have htail := ih (h.step hst) hrest
      rw [List.countP_cons]
      omega

/-- Where every state that is not done has a step of a certain kind to a state
of lower rank, steps of that kind alone lead to a state that is done. -/
theorem exists_run_done {P Done : State → Prop} {C : Label → Prop}
    {rank : State → Nat}
    (hstep : ∀ s, P s → ¬Done s →
      ∃ l t, C l ∧ M.step s l = some t ∧ P t ∧ rank t < rank s)
    {s : State} (hs : P s) :
    ∃ ls t, (∀ l ∈ ls, C l) ∧ M.run s ls = some t ∧ P t ∧ Done t := by
  induction hrank : rank s using Nat.strongRecOn generalizing s with
  | ind k ih =>
      by_cases hdone : Done s
      · exact ⟨[], s, by simp, rfl, hs, hdone⟩
      · obtain ⟨l, r, hl, hst, hr, hlt⟩ := hstep s hs hdone
        obtain ⟨ls, t, hls, hrun, ht⟩ := ih (rank r) (hrank ▸ hlt) hr rfl
        refine ⟨l :: ls, t, List.forall_mem_cons.mpr ⟨hl, hls⟩, ?_, ht⟩
        rw [run_cons_of_step hst, hrun]

/-- Where every step of a certain kind lowers a rank, steps of that kind alone
lead to a state in which no more of them can be taken. -/
theorem exists_run_stuck {P : State → Prop} {C : Label → Bool} {rank : State → Nat}
    (hstep : ∀ s l t, P s → C l = true → M.step s l = some t →
      P t ∧ rank t < rank s)
    {s : State} (hs : P s) :
    ∃ ls t, (∀ l ∈ ls, C l = true) ∧ M.run s ls = some t ∧ P t ∧
      ∀ l, C l = true → M.step t l = none := by
  have hnext : ∀ s, P s → ¬(∀ l, C l = true → M.step s l = none) →
      ∃ l t, C l = true ∧ M.step s l = some t ∧ P t ∧ rank t < rank s := by
    intro s hs hstuck
    rw [not_forall] at hstuck
    obtain ⟨l, hl⟩ := hstuck
    rw [Classical.not_imp] at hl
    obtain ⟨t, hst⟩ := Option.ne_none_iff_exists'.mp hl.2
    exact ⟨l, t, hl.1, hst, hstep s l t hs hl.1 hst⟩
  exact exists_run_done hnext hs

/-- The same system, taking only those steps at which `C` holds. Its runs are
the runs whose steps all meet the condition. -/
def restrict (M : System State Label) (C : State → Label → Prop)
    [∀ s l, Decidable (C s l)] : System State Label where
  init := M.init
  step s l := if C s l then M.step s l else none

section Restrict

variable {C : State → Label → Prop} [∀ s l, Decidable (C s l)]

theorem restrict_step_eq_some {s t : State} {l : Label} :
    (M.restrict C).step s l = some t ↔ C s l ∧ M.step s l = some t :=
  Option.ite_none_right_eq_some

theorem Reachable.of_restrict {t : State} (h : (M.restrict C).Reachable t) :
    M.Reachable t := by
  refine h.invariant (fun s hs => ⟨[], s, hs, rfl⟩) ?_
  intro s l t _ hs hstep
  exact hs.step (restrict_step_eq_some.mp hstep).2

theorem Reachable.restrict_invariant {P : State → Prop}
    (hinit : ∀ s, M.init s → P s)
    (hstep : ∀ s l t, M.Reachable s → C s l → P s → M.step s l = some t → P t)
    {t : State} (h : (M.restrict C).Reachable t) : P t := by
  refine Reachable.invariant (M := M.restrict C) hinit ?_ h
  intro s l t hreach hs hst
  obtain ⟨hC, hst⟩ := restrict_step_eq_some.mp hst
  exact hstep s l t hreach.of_restrict hC hs hst

end Restrict

end System

/-- A functional refinement: each step of the concrete system is matched by a
finite, possibly empty, run of the abstract one between the images. -/
structure Refinement {State : Type u} {Label : Type v} {State' : Type w}
    {Label' : Type x} (C : System State Label) (A : System State' Label') where
  abs : State → State'
  init : ∀ s, C.init s → A.init (abs s)
  step : ∀ s l t, C.Reachable s → C.step s l = some t →
    ∃ ks, A.run (abs s) ks = some (abs t)

/-- A refinement in which each step is matched by one step of the abstract system
or by none. -/
def Refinement.ofStep {State : Type u} {Label : Type v} {State' : Type w}
    {Label' : Type x} {C : System State Label} {A : System State' Label'}
    (abs : State → State') (init : ∀ s, C.init s → A.init (abs s))
    (step : ∀ s l t, C.Reachable s → C.step s l = some t →
      abs t = abs s ∨ ∃ k, A.step (abs s) k = some (abs t)) : Refinement C A where
  abs := abs
  init := init
  step := by
    intro s l t hs hst
    rcases step s l t hs hst with hsame | ⟨k, hk⟩
    · exact ⟨[], congrArg some hsame.symm⟩
    · exact ⟨[k], System.run_cons_of_step hk []⟩

theorem Refinement.reachable {State : Type u} {Label : Type v}
    {State' : Type w} {Label' : Type x} {C : System State Label}
    {A : System State' Label'} (R : Refinement C A) {s : State}
    (h : C.Reachable s) : A.Reachable (R.abs s) := by
  refine h.invariant (P := fun s => A.Reachable (R.abs s)) ?_ ?_
  · intro s hs
    exact ⟨[], R.abs s, R.init s hs, rfl⟩
  · intro s l t hreach habs hst
    obtain ⟨ks, hks⟩ := R.step s l t hreach hst
    exact habs.of_run hks

end MyUnp.TransitionSystem
