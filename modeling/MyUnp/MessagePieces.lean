import Mathlib.Data.List.Forall2

namespace MyUnp.MessagePieces

universe u v w

variable {α : Type u} {ι : Type v} {cap : Nat}

/-- The pieces in which one message is delivered to a reader with room for
`cap` elements: a message that fits comes whole. -/
structure Delivery (α : Type u) (cap : Nat) where
  pieces : List (List α)
  ne_nil : pieces ≠ []
  bounded : ∀ p ∈ pieces, p.length ≤ cap
  whole : pieces.flatten.length ≤ cap → pieces.length = 1

def Delivery.content (d : Delivery α cap) : List α := d.pieces.flatten

def Delivery.ofFull (front rest : List α) (hfront : front.length = cap)
    (hne : rest ≠ []) (hrest : rest.length ≤ cap) : Delivery α cap where
  pieces := [front, rest]
  ne_nil := by simp
  bounded := by
    intro p hp
    rcases List.mem_pair.mp hp with rfl | rfl
    · exact Nat.le_of_eq hfront
    · exact hrest
  whole := by
    intro hle
    have hpos := List.length_pos_iff.mpr hne
    simp only [List.flatten_cons, List.flatten_nil, List.append_nil,
      List.length_append] at hle
    omega

theorem Delivery.length_pos (d : Delivery α cap) : 0 < d.pieces.length :=
  List.length_pos_iff.mpr d.ne_nil

theorem Delivery.whole_iff (d : Delivery α cap) :
    d.content.length ≤ cap ↔ d.pieces.length = 1 := by
  constructor
  · exact d.whole
  · intro hone
    obtain ⟨p, hp⟩ := List.length_eq_one_iff.mp hone
    have hle := d.bounded p (by simp [hp])
    simpa [content, hp] using hle

theorem Delivery.pieces_of_fits (d : Delivery α cap)
    (h : d.content.length ≤ cap) : d.pieces = [d.content] := by
  obtain ⟨p, hp⟩ := List.length_eq_one_iff.mp (d.whole_iff.mp h)
  simp [content, hp]

section Sequence

variable {κ : Type w} (key : ι → κ) (del : ι → Delivery α cap)

/-- What a reader that takes each piece for a message makes of a sequence of
messages, each with the key of its own message. -/
def perPiece (ms : List ι) : List (κ × List α) :=
  ms.flatMap fun m => (del m).pieces.map (Prod.mk (key m))

theorem perPiece_cons (m : ι) (ms : List ι) :
    perPiece key del (m :: ms) =
      (del m).pieces.map (Prod.mk (key m)) ++ perPiece key del ms :=
  List.flatMap_cons

theorem perPiece_map_snd (ms : List ι) :
    (perPiece key del ms).map Prod.snd = ms.flatMap fun m => (del m).pieces := by
  induction ms with
  | nil => rfl
  | cons m ms ih =>
      rw [perPiece_cons, List.map_append, ih, List.map_map, List.flatMap_cons]
      exact congrArg (· ++ _) (List.map_id _)

theorem length_le_perPiece (ms : List ι) :
    ms.length ≤ (perPiece key del ms).length := by
  induction ms with
  | nil => exact Nat.le_refl 0
  | cons m ms ih =>
      have hpos := (del m).length_pos
      rw [perPiece_cons, List.length_append, List.length_map, List.length_cons]
      omega

theorem perPiece_length_iff (ms : List ι) :
    (perPiece key del ms).length = ms.length ↔
      ∀ m ∈ ms, (del m).content.length ≤ cap := by
  induction ms with
  | nil => simp [perPiece]
  | cons m ms ih =>
      have hle := length_le_perPiece key del ms
      have hpos := (del m).length_pos
      rw [perPiece_cons, List.forall_mem_cons, ← ih, (del m).whole_iff,
        List.length_append, List.length_map, List.length_cons]
      omega

theorem perPiece_of_fits {ms : List ι}
    (h : ∀ m ∈ ms, (del m).content.length ≤ cap) :
    perPiece key del ms = ms.map fun m => (key m, (del m).content) := by
  induction ms with
  | nil => rfl
  | cons m ms ih =>
      rw [List.forall_mem_cons] at h
      rw [perPiece_cons, ih h.2, (del m).pieces_of_fits h.1]
      rfl

theorem perPiece_eq_iff (ms : List ι) :
    perPiece key del ms = ms.map (fun m => (key m, (del m).content)) ↔
      ∀ m ∈ ms, (del m).content.length ≤ cap := by
  constructor
  · intro heq
    apply (perPiece_length_iff key del ms).mp
    rw [heq, List.length_map]
  · exact perPiece_of_fits key del

end Sequence

theorem forall₂_of_map_eq {β : Type w} {R : α → ι → Prop} {f : α → β} {g : ι → β}
    {as : List α} {ms : List ι} (heq : as.map f = ms.map g)
    (h : ∀ a ∈ as, ∀ m ∈ ms, f a = g m → R a m) : List.Forall₂ R as ms := by
  induction as generalizing ms with
  | nil =>
      obtain rfl := List.map_eq_nil_iff.mp heq.symm
      exact .nil
  | cons a as ih =>
      cases ms with
      | nil => cases heq
      | cons m ms =>
          obtain ⟨hhead, htail⟩ := List.cons.inj heq
          constructor
          · exact h a List.mem_cons_self m List.mem_cons_self hhead
          · apply ih htail
            intro b hb n hn
            exact h b (List.mem_cons_of_mem a hb) n (List.mem_cons_of_mem m hn)

section Tags

variable {κ : Type w} (mid last : κ)

def tagLast : List (List α) → List (κ × List α)
  | [] => []
  | [p] => [(last, p)]
  | p :: q :: ps => (mid, p) :: tagLast (q :: ps)

theorem tagLast_map_snd (ps : List (List α)) :
    (tagLast mid last ps).map Prod.snd = ps := by
  induction ps using tagLast.induct with
  | case1 => rfl
  | case2 p => rfl
  | case3 p q ps ih => rw [tagLast, List.map_cons, ih]

theorem tag_of_mem_tagLast {ps : List (List α)} {p : κ × List α}
    (hp : p ∈ tagLast mid last ps) : p.1 = mid ∨ p.1 = last := by
  induction ps using tagLast.induct with
  | case1 => simp [tagLast] at hp
  | case2 q =>
      obtain rfl := List.mem_singleton.mp hp
      exact .inr rfl
  | case3 q r ps ih =>
      rcases List.mem_cons.mp hp with rfl | hp
      · exact .inl rfl
      · exact ih hp

theorem mem_of_mem_tagLast {ps : List (List α)} {p : κ × List α}
    (hp : p ∈ tagLast mid last ps) : p.2 ∈ ps := by
  rw [← tagLast_map_snd mid last ps]
  exact List.mem_map_of_mem hp

end Tags

end MyUnp.MessagePieces
