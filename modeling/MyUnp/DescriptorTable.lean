import Mathlib.Data.List.Basic

namespace MyUnp.DescriptorTable

universe u

variable {α : Type u}

abbrev Table (α : Type u) := List (Option α)

def object (t : Table α) (fd : Nat) : Option α := (t[fd]?).join

/-- Install an object under the lowest unused descriptor. -/
def alloc (a : α) : Table α → Nat × Table α
  | [] => (0, [some a])
  | none :: t => (0, some a :: t)
  | some b :: t => ((alloc a t).1 + 1, some b :: (alloc a t).2)

def close (t : Table α) (fd : Nat) : Table α := t.set fd none

def update (t : Table α) (fd : Nat) (a : α) : Table α := t.set fd (some a)

@[simp] theorem object_nil (fd : Nat) : object ([] : Table α) fd = none := rfl

@[simp] theorem object_cons_zero (x : Option α) (t : Table α) :
    object (x :: t) 0 = x := by
  cases x <;> rfl

@[simp] theorem object_cons_succ (x : Option α) (t : Table α) (fd : Nat) :
    object (x :: t) (fd + 1) = object t fd := rfl

theorem object_alloc (a : α) (t : Table α) (fd : Nat) :
    object (alloc a t).2 fd =
      if fd = (alloc a t).1 then some a else object t fd := by
  induction t generalizing fd with
  | nil =>
      cases fd with
      | zero => rfl
      | succ fd => simp [alloc]
  | cons x t ih =>
      cases x with
      | none => cases fd <;> simp [alloc]
      | some b =>
          cases fd with
          | zero => simp [alloc]
          | succ fd => simp [alloc, ih]

@[simp] theorem object_alloc_self (a : α) (t : Table α) :
    object (alloc a t).2 (alloc a t).1 = some a := by
  rw [object_alloc, if_pos rfl]

@[simp] theorem object_alloc_fst (a : α) (t : Table α) :
    object t (alloc a t).1 = none := by
  induction t with
  | nil => rfl
  | cons x t ih =>
      cases x with
      | none => rfl
      | some b => simpa [alloc] using ih

theorem object_close (t : Table α) (fd fd' : Nat) :
    object (close t fd) fd' = if fd' = fd then none else object t fd' := by
  unfold object close
  split_ifs with h
  · subst h
    rw [List.getElem?_set_self']
    cases t[fd']? <;> rfl
  · rw [List.getElem?_set_ne (Ne.symm h)]

theorem object_update {t : Table α} {fd : Nat} {b : α} (h : object t fd = some b)
    (a : α) (fd' : Nat) :
    object (update t fd a) fd' = if fd' = fd then some a else object t fd' := by
  unfold object at h
  obtain ⟨x, hx, rfl⟩ : ∃ x, t[fd]? = some x ∧ x = some b := by
    simpa [Option.join_eq_some_iff] using h
  unfold object update
  split_ifs with heq
  · subst heq
    rw [List.getElem?_set_self', hx]
    rfl
  · rw [List.getElem?_set_ne (Ne.symm heq)]

@[simp] theorem object_close_alloc (a : α) (t : Table α) (fd : Nat) :
    object (close (alloc a t).2 (alloc a t).1) fd = object t fd := by
  rw [object_close, object_alloc]
  split_ifs with h
  · rw [h, object_alloc_fst]
  · rfl

section References

variable [DecidableEq α]

def refs (t : Table α) (a : α) : Nat := t.count (some a)

theorem refs_alloc (a b : α) (t : Table α) :
    refs (alloc a t).2 b = refs t b + if a = b then 1 else 0 := by
  unfold refs
  induction t with
  | nil => simp [alloc, List.count_cons]
  | cons x t ih =>
      cases x with
      | none => simp [alloc, List.count_cons]
      | some c =>
          rw [alloc, List.count_cons, ih, List.count_cons]
          omega

theorem refs_close {t : Table α} {fd : Nat} {a : α} (h : object t fd = some a) (b : α) :
    refs (close t fd) b + (if a = b then 1 else 0) = refs t b := by
  unfold refs close
  induction t generalizing fd with
  | nil => cases h
  | cons x t ih =>
      cases fd with
      | zero =>
          rw [object_cons_zero] at h
          subst h
          simp [List.count_cons]
      | succ fd =>
          rw [object_cons_succ] at h
          rw [List.set_cons_succ, List.count_cons, List.count_cons, ← ih h]
          omega

@[simp] theorem refs_nil (a : α) : refs ([] : Table α) a = 0 := rfl

end References

end MyUnp.DescriptorTable
