import Mathlib.Data.List.Basic

namespace MyUnp.MemoryBlock

universe u

variable {α : Type u}

def alloc (n : Nat) (junk : Nat → α) : List α := (List.range n).map junk

/-- `realloc`: the first cells survive, up to the smaller of the two sizes. -/
def resize (block : List α) (n : Nat) (junk : Nat → α) : List α :=
  (List.range n).map fun i => block.getD i (junk i)

def store (block : List α) (offset : Nat) (data : List α) : List α :=
  (block.take offset ++ data ++ block.drop (offset + data.length)).take
    block.length

@[simp] theorem alloc_length (n : Nat) (junk : Nat → α) :
    (alloc n junk).length = n := by
  simp [alloc]

@[simp] theorem resize_length (block : List α) (n : Nat) (junk : Nat → α) :
    (resize block n junk).length = n := by
  simp [resize]

@[simp] theorem store_length (block : List α) (offset : Nat) (data : List α) :
    (store block offset data).length = block.length := by
  simp only [store, List.length_take, List.length_append, List.length_drop]
  omega

theorem take_store {block front data : List α}
    (hfront : block.take front.length = front)
    (hfit : front.length + data.length ≤ block.length) :
    (store block front.length data).take (front.length + data.length) =
      front ++ data := by
  rw [store, hfront, List.take_take, Nat.min_eq_left hfit,
    ← List.length_append, List.take_left']
  rfl

theorem take_store_zero {block data : List α} (h : data.length ≤ block.length) :
    (store block 0 data).take data.length = data := by
  have hnone : block.take ([] : List α).length = [] := List.take_zero
  have hfit : ([] : List α).length + data.length ≤ block.length := by simpa using h
  simpa using take_store hnone hfit

theorem store_eq {block data : List α} {offset : Nat}
    (h : offset + data.length ≤ block.length) :
    store block offset data =
      block.take offset ++ data ++ block.drop (offset + data.length) := by
  rw [store, List.take_of_length_le]
  rw [List.length_append, List.length_append, List.length_take, List.length_drop]
  omega

theorem store_zero {block data : List α} (h : data.length ≤ block.length) :
    store block 0 data = data ++ block.drop data.length := by
  rw [store_eq (by omega), List.take_zero, List.nil_append, Nat.zero_add]

theorem store_getLast? {block data : List α} {offset : Nat} {last : α}
    (h : offset + data.length < block.length) (hlast : block.getLast? = some last) :
    (store block offset (data ++ [last])).getLast? = some last := by
  have hfit : offset + (data ++ [last]).length ≤ block.length := by
    rw [List.length_append, List.length_singleton]
    omega
  rw [store_eq hfit, List.getLast?_append, List.getLast?_drop, hlast]
  split_ifs
  · rw [Option.none_or, List.getLast?_append, List.getLast?_append]
    rfl
  · rfl

end MyUnp.MemoryBlock
