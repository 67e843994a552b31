import Mathlib.Data.List.Basic

namespace MyUnp.AccessSpan

structure Span where
  start : Int
  size : Nat
  deriving DecidableEq

namespace Span

def cell (i : Int) : Span := ⟨i, 1⟩

def front (size : Nat) : Span := ⟨0, size⟩

def Inside (n : Nat) (s : Span) : Prop := s.size = 0 ∨ 0 ≤ s.start ∧ s.start + s.size ≤ n

instance (n : Nat) (s : Span) : Decidable (s.Inside n) :=
  inferInstanceAs (Decidable (_ ∨ _ ∧ _))

theorem cell_inside {n : Nat} {i : Int} : (cell i).Inside n ↔ 0 ≤ i ∧ i < n := by
  constructor
  · rintro (h | ⟨hlow, hhigh⟩)
    · cases h
    · exact ⟨hlow, hhigh⟩
  · rintro ⟨hlow, hhigh⟩
    exact .inr ⟨hlow, hhigh⟩

theorem front_inside {n size : Nat} : (front size).Inside n ↔ size ≤ n := by
  simp only [Inside, front]
  omega

theorem Inside.mono {m n : Nat} {s : Span} (h : s.Inside m) (hmn : m ≤ n) : s.Inside n := by
  rcases h with hzero | ⟨hlow, hhigh⟩
  · exact .inl hzero
  · exact .inr ⟨hlow, by omega⟩

end Span

/-- Every cell that has been touched belongs to an array of `n`. -/
def Inside (n : Nat) (touched : List Span) : Prop := ∀ s ∈ touched, s.Inside n

instance (n : Nat) (touched : List Span) : Decidable (Inside n touched) :=
  inferInstanceAs (Decidable (∀ s ∈ touched, _))

variable {n : Nat} {touched touched' : List Span}

@[simp] theorem inside_nil : Inside n [] := List.forall_mem_nil _

@[simp] theorem inside_cons {s : Span} :
    Inside n (s :: touched) ↔ s.Inside n ∧ Inside n touched :=
  List.forall_mem_cons

@[simp] theorem inside_append :
    Inside n (touched ++ touched') ↔ Inside n touched ∧ Inside n touched' :=
  List.forall_mem_append

end MyUnp.AccessSpan
