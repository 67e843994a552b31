import Mathlib.Data.List.Basic

namespace MyUnp.FieldAccess

universe u v w

structure Field (struct : Nat) where
  offset : Nat
  size : Nat
  inside : offset + size ≤ struct

/-- A value together with the offsets and sizes of what was read for it. -/
structure Access (β : Type u) where
  value : β
  reads : List (Nat × Nat)

namespace Access

variable {β : Type u} {γ : Type v}

instance : Monad Access.{u} where
  pure b := ⟨b, []⟩
  bind a f := ⟨(f a.value).value, a.reads ++ (f a.value).reads⟩

def Within (n : Nat) (a : Access β) : Prop := ∀ r ∈ a.reads, r.1 + r.2 ≤ n

theorem within_pure (n : Nat) (b : β) : (pure b : Access β).Within n :=
  List.forall_mem_nil _

theorem Within.bind {n : Nat} {δ : Type u} {a : Access δ} {f : δ → Access β}
    (ha : a.Within n) (hf : (f a.value).Within n) : (a >>= f).Within n := by
  intro r hr
  rcases List.mem_append.mp hr with hr | hr
  · exact ha r hr
  · exact hf r hr

def shift (base : Nat) (a : Access β) : Access β :=
  ⟨a.value, a.reads.map fun r => (base + r.1, r.2)⟩

@[simp] theorem shift_value (base : Nat) (a : Access β) : (a.shift base).value = a.value :=
  rfl

theorem bind_value {δ : Type u} (a : Access δ) (f : δ → Access β) :
    (a >>= f).value = (f a.value).value := rfl

theorem Within.shift {n base : Nat} {a : Access β} (h : a.Within n) :
    (a.shift base).Within (base + n) := by
  intro r hr
  obtain ⟨q, hq, rfl⟩ := List.mem_map.mp hr
  have := h q hq
  dsimp only
  omega

theorem Within.mono {m n : Nat} {a : Access β} (h : a.Within m) (hmn : m ≤ n) :
    a.Within n :=
  fun r hr => Nat.le_trans (h r hr) hmn

theorem bind_congr {δ : Type u} {a : Access δ} {f g : δ → Access β}
    (h : f a.value = g a.value) : (a >>= f) = (a >>= g) := by
  change Access.mk (f a.value).value (a.reads ++ (f a.value).reads) =
    Access.mk (g a.value).value (a.reads ++ (g a.value).reads)
  rw [h]

theorem bind_ite {δ : Type u} (a : Access δ) (p : δ → Prop) [DecidablePred p]
    (f g : δ → Access β) :
    (a >>= fun d => if p d then f d else g d) = if p a.value then a >>= f else a >>= g := by
  split_ifs with hp
  · exact bind_congr (if_pos hp)
  · exact bind_congr (if_neg hp)

end Access

variable {α : Type u} {struct n : Nat}

def load (block : List α) (f : Field struct) : Access (List α) :=
  ⟨(block.drop f.offset).take f.size, [(f.offset, f.size)]⟩

theorem load_within (block : List α) (f : Field struct) (h : struct ≤ n) :
    (load block f).Within n := by
  intro r hr
  obtain rfl := List.mem_singleton.mp hr
  exact Nat.le_trans f.inside h

theorem load_congr {block block' : List α} (f : Field struct)
    (heq : block.take n = block'.take n) (h : struct ≤ n) :
    load block f = load block' f := by
  have hinside := Nat.le_trans f.inside h
  have hfield : ∀ b : List α, (b.drop f.offset).take f.size =
      ((b.take n).drop f.offset).take f.size := by
    intro b
    rw [List.drop_take, List.take_take, Nat.min_eq_left (by omega)]
  rw [load, load, hfield block, hfield block', heq]

end MyUnp.FieldAccess
