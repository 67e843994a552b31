import Mathlib.Logic.Function.Basic

namespace MyUnp.SlotTable

universe u v

variable {ι : Type u} {κ : Type v}

/-- The first of the `n` indices from `i` on with `p`, or `i + n`. -/
def firstFrom (p : Nat → Bool) : Nat → Nat → Nat
  | 0, i => i
  | n + 1, i => if p i then i else firstFrom p n (i + 1)

theorem le_firstFrom (p : Nat → Bool) (n i : Nat) : i ≤ firstFrom p n i := by
  induction n generalizing i with
  | zero => exact Nat.le_refl i
  | succ n ih =>
      rw [firstFrom]
      split
      · exact Nat.le_refl i
      · exact Nat.le_of_succ_le (ih (i + 1))

theorem firstFrom_le (p : Nat → Bool) (n i : Nat) : firstFrom p n i ≤ i + n := by
  induction n generalizing i with
  | zero => exact Nat.le_refl i
  | succ n ih =>
      rw [firstFrom]
      split
      · omega
      · have := ih (i + 1)
        omega

theorem not_of_lt_firstFrom {p : Nat → Bool} {n i j : Nat} (hi : i ≤ j)
    (hj : j < firstFrom p n i) : p j = false := by
  induction n generalizing i with
  | zero =>
      rw [firstFrom] at hj
      omega
  | succ n ih =>
      rw [firstFrom] at hj
      split at hj
      · omega
      · rename_i hp
        rcases Nat.eq_or_lt_of_le hi with rfl | hlt
        · simpa using hp
        · exact ih hlt hj

theorem firstFrom_spec {p : Nat → Bool} {n i : Nat}
    (h : firstFrom p n i < i + n) : p (firstFrom p n i) = true := by
  induction n generalizing i with
  | zero =>
      rw [firstFrom] at h
      omega
  | succ n ih =>
      rw [firstFrom] at h ⊢
      split
      · assumption
      · rename_i hp
        rw [if_neg hp] at h
        exact ih (by omega)

/-- The keys in the table are the live ones, each in one slot. -/
structure Tracks (t : ι → Option κ) (live : κ → Prop) : Prop where
  once : ∀ {i j k}, t i = some k → t j = some k → i = j
  live_iff : ∀ k, live k ↔ ∃ i, t i = some k

theorem Tracks.congr {t : ι → Option κ} {live live' : κ → Prop}
    (h : Tracks t live) (hlive : ∀ k, live' k ↔ live k) : Tracks t live' where
  once := h.once
  live_iff k := (hlive k).trans (h.live_iff k)

theorem Tracks.empty : Tracks (fun _ : ι => none) (fun _ : κ => False) where
  once h := nomatch h
  live_iff k := by simp

theorem Tracks.once_update [DecidableEq ι] {t : ι → Option κ} {live : κ → Prop}
    (h : Tracks t live) {i : ι} {v : Option κ} (hnew : ∀ j k, v = some k → t j ≠ some k)
    {a b : ι} {x : κ} (ha : Function.update t i v a = some x)
    (hb : Function.update t i v b = some x) : a = b := by
  by_cases hai : a = i
  · by_cases hbi : b = i
    · exact hai.trans hbi.symm
    · rw [hai, Function.update_self] at ha
      rw [Function.update_of_ne hbi] at hb
      exact absurd hb (hnew b x ha)
  · rw [Function.update_of_ne hai] at ha
    by_cases hbi : b = i
    · rw [hbi, Function.update_self] at hb
      exact absurd ha (hnew a x hb)
    · rw [Function.update_of_ne hbi] at hb
      exact h.once ha hb

theorem Tracks.insert [DecidableEq ι] {t : ι → Option κ} {live : κ → Prop}
    (h : Tracks t live) {i : ι} {k : κ} (hfree : t i = none) (hk : ¬live k) :
    Tracks (Function.update t i (some k)) (fun x => x = k ∨ live x) := by
  have hnot : ∀ j, t j ≠ some k := fun j hj => hk ((h.live_iff k).mpr ⟨j, hj⟩)
  constructor
  · intro a b x
    apply h.once_update
    rintro j _ ⟨⟩
    exact hnot j
  · intro x
    rw [h.live_iff]
    constructor
    · rintro (rfl | ⟨j, hj⟩)
      · exact ⟨i, Function.update_self ..⟩
      · have hji : j ≠ i := by
          rintro rfl
          simp [hfree] at hj
        exact ⟨j, by rw [Function.update_of_ne hji, hj]⟩
    · rintro ⟨j, hj⟩
      by_cases hji : j = i
      · subst hji
        rw [Function.update_self, Option.some_inj] at hj
        exact .inl hj.symm
      · rw [Function.update_of_ne hji] at hj
        exact .inr ⟨j, hj⟩

theorem Tracks.erase [DecidableEq ι] {t : ι → Option κ} {live : κ → Prop}
    (h : Tracks t live) {i : ι} {k : κ} (hk : t i = some k) :
    Tracks (Function.update t i none) (fun x => x ≠ k ∧ live x) := by
  constructor
  · intro a b x
    apply h.once_update
    rintro j _ ⟨⟩
  · intro x
    rw [h.live_iff]
    constructor
    · rintro ⟨hx, j, hj⟩
      have hji : j ≠ i := by
        rintro rfl
        exact hx (Option.some_inj.mp (hj.symm.trans hk))
      exact ⟨j, by rw [Function.update_of_ne hji, hj]⟩
    · rintro ⟨j, hj⟩
      by_cases hji : j = i
      · simp [hji] at hj
      · rw [Function.update_of_ne hji] at hj
        refine ⟨?_, j, hj⟩
        rintro rfl
        exact hji (h.once hj hk)

end MyUnp.SlotTable
