import Mathlib.Data.List.DropRight

namespace MyUnp.LinePieces

universe u

variable {α : Type u} [DecidableEq α]

def nextPiece (d : α) : Nat → List α → List α × List α
  | 0, s => ([], s)
  | _ + 1, [] => ([], [])
  | k + 1, c :: s =>
      if c = d then ([c], s)
      else (c :: (nextPiece d k s).1, (nextPiece d k s).2)

@[simp] theorem nextPiece_nil (d : α) (k : Nat) : nextPiece d k [] = ([], []) := by
  cases k <;> rfl

theorem nextPiece_cons_ne {d c : α} (hc : c ≠ d) (k : Nat) (s : List α) :
    nextPiece d (k + 1) (c :: s) =
      (c :: (nextPiece d k s).1, (nextPiece d k s).2) := by
  simp [nextPiece, hc]

theorem nextPiece_cons_self (d : α) (k : Nat) (s : List α) :
    nextPiece d (k + 1) (d :: s) = ([d], s) := by
  simp [nextPiece]

theorem nextPiece_append (d : α) (k : Nat) (s : List α) :
    (nextPiece d k s).1 ++ (nextPiece d k s).2 = s := by
  induction k generalizing s with
  | zero => rfl
  | succ k ih =>
      cases s with
      | nil => rfl
      | cons c s =>
          by_cases hc : c = d
          · subst hc
            rw [nextPiece_cons_self]
            rfl
          · rw [nextPiece_cons_ne hc, List.cons_append, ih s]

theorem nextPiece_length_le (d : α) (k : Nat) (s : List α) :
    (nextPiece d k s).1.length ≤ k := by
  induction k generalizing s with
  | zero => exact Nat.le_refl 0
  | succ k ih =>
      cases s with
      | nil => exact Nat.zero_le _
      | cons c s =>
          by_cases hc : c = d
          · subst hc
            rw [nextPiece_cons_self]
            simp
          · rw [nextPiece_cons_ne hc, List.length_cons]
            exact Nat.succ_le_succ (ih s)

theorem nextPiece_ne_nil {d : α} {k : Nat} {s : List α} (hk : 0 < k)
    (hs : s ≠ []) : (nextPiece d k s).1 ≠ [] := by
  obtain ⟨k, rfl⟩ := Nat.exists_eq_succ_of_ne_zero (Nat.ne_of_gt hk)
  cases s with
  | nil => exact absurd rfl hs
  | cons c s =>
      by_cases hc : c = d
      · subst hc
        rw [Nat.succ_eq_add_one, nextPiece_cons_self]
        simp
      · rw [Nat.succ_eq_add_one, nextPiece_cons_ne hc]
        simp

def OneLine (d : α) (p : List α) : Prop :=
  ∀ front back, p = front ++ d :: back → back = []

theorem nextPiece_oneLine (d : α) (k : Nat) (s : List α) :
    OneLine d (nextPiece d k s).1 := by
  induction k generalizing s with
  | zero =>
      intro front back h
      simp [nextPiece] at h
  | succ k ih =>
      cases s with
      | nil =>
          intro front back h
          simp at h
      | cons c s =>
          intro front back h
          by_cases hc : c = d
          · subst hc
            rw [nextPiece_cons_self] at h
            cases front with
            | nil => simpa [eq_comm] using h
            | cons a front => simp at h
          · rw [nextPiece_cons_ne hc] at h
            cases front with
            | nil => simp [hc] at h
            | cons a front =>
                rw [List.cons_append, List.cons.injEq] at h
                exact ih s front back h.2

theorem nextPiece_of_not_mem {d : α} {p : List α} (hp : d ∉ p) (k : Nat)
    (s : List α) :
    nextPiece d (p.length + k) (p ++ s) =
      (p ++ (nextPiece d k s).1, (nextPiece d k s).2) := by
  induction p with
  | nil => simp
  | cons c p ih =>
      simp only [List.mem_cons, not_or] at hp
      rw [List.length_cons, Nat.add_right_comm, List.cons_append,
        nextPiece_cons_ne (Ne.symm hp.1), ih hp.2]
      rfl

theorem nextPiece_line {d : α} {p : List α} (hp : d ∉ p) {k : Nat}
    (hk : p.length < k) (s : List α) :
    nextPiece d k (p ++ d :: s) = (p ++ [d], s) := by
  obtain ⟨m, rfl⟩ := Nat.exists_eq_add_of_lt hk
  rw [show p.length + m + 1 = p.length + (m + 1) by omega,
    nextPiece_of_not_mem hp, nextPiece_cons_self]

/-- A delimiter or the limit has ended the piece, and not the end of the
stream. -/
def Complete (d : α) (k : Nat) (p : List α) : Prop := d ∈ p ∨ p.length = k

instance (d : α) (k : Nat) (p : List α) : Decidable (Complete d k p) :=
  inferInstanceAs (Decidable (_ ∨ _))

omit [DecidableEq α] in
theorem complete_cons_of_ne {d c : α} (hc : c ≠ d) (k : Nat) (p : List α) :
    Complete d (k + 1) (c :: p) ↔ Complete d k p := by
  simp [Complete, Ne.symm hc]

theorem nextPiece_rest_of_not_complete {d : α} {k : Nat} {s : List α}
    (h : ¬Complete d k (nextPiece d k s).1) : (nextPiece d k s).2 = [] := by
  induction k generalizing s with
  | zero => simp [Complete, nextPiece] at h
  | succ k ih =>
      cases s with
      | nil => rfl
      | cons c s =>
          by_cases hc : c = d
          · subst hc
            simp [Complete, nextPiece_cons_self] at h
          · rw [nextPiece_cons_ne hc, complete_cons_of_ne hc] at h
            rw [nextPiece_cons_ne hc]
            exact ih h

theorem nextPiece_append_of_complete {d : α} {k : Nat} {s : List α}
    (h : Complete d k (nextPiece d k s).1) (t : List α) :
    nextPiece d k (s ++ t) = ((nextPiece d k s).1, (nextPiece d k s).2 ++ t) := by
  induction k generalizing s with
  | zero => rfl
  | succ k ih =>
      cases s with
      | nil => simp [Complete] at h
      | cons c s =>
          rw [List.cons_append]
          by_cases hc : c = d
          · subst hc
            rw [nextPiece_cons_self, nextPiece_cons_self]
          · rw [nextPiece_cons_ne hc, complete_cons_of_ne hc] at h
            rw [nextPiece_cons_ne hc, nextPiece_cons_ne hc, ih h]

omit [DecidableEq α] in
theorem OneLine.eq_nil_of_mem {d : α} {p s : List α} (h : OneLine d (p ++ s))
    (hp : d ∈ p) : s = [] := by
  obtain ⟨front, back, rfl⟩ := List.append_of_mem hp
  have hback : back ++ s = [] := h front (back ++ s) (by simp)
  exact (List.append_eq_nil_iff.mp hback).2

omit [DecidableEq α] in
theorem OneLine.of_append {d : α} {p s : List α} (h : OneLine d (p ++ s)) :
    OneLine d s := by
  intro front back hs
  apply h (p ++ front) back
  rw [hs, List.append_assoc]

theorem OneLine.nextPiece_rest {d : α} {s : List α} (hline : OneLine d s) (k : Nat) :
    OneLine d (nextPiece d k s).2 := by
  rw [← nextPiece_append d k s] at hline
  exact hline.of_append

def Ends (d : α) (s t : List α) : Prop := d ∈ s ∨ s = [] ∨ t = []

theorem nextPiece_ends {d : α} {k : Nat} {s t : List α} (hline : OneLine d s)
    (hends : Ends d s t) (hs : s ≠ []) :
    nextPiece d k (s ++ t) = ((nextPiece d k s).1, (nextPiece d k s).2 ++ t) ∧
      OneLine d (nextPiece d k s).2 ∧ Ends d (nextPiece d k s).2 t := by
  have happ := nextPiece_append d k s
  have hrest := hline.nextPiece_rest k
  by_cases hcomplete : Complete d k (nextPiece d k s).1
  · refine ⟨nextPiece_append_of_complete hcomplete t, hrest, ?_⟩
    rcases hends with hmem | hnil | hnil
    · rw [← happ] at hmem hline
      rcases List.mem_append.mp hmem with hp | hr
      · exact .inr (.inl (hline.eq_nil_of_mem hp))
      · exact .inl hr
    · exact absurd hnil hs
    · exact .inr (.inr hnil)
  · have hnone := nextPiece_rest_of_not_complete hcomplete
    have hnot : d ∉ s := by
      rw [← happ, hnone, List.append_nil]
      exact fun hmem => hcomplete (.inl hmem)
    have ht : t = [] := (hends.resolve_left hnot).resolve_left hs
    subst ht
    refine ⟨?_, hrest, .inr (.inr rfl)⟩
    rw [List.append_nil, List.append_nil]

def piecesFuel (d : α) (k : Nat) : Nat → List α → List (List α)
  | 0, _ => []
  | _ + 1, [] => []
  | fuel + 1, c :: s =>
      (nextPiece d k (c :: s)).1 ::
        piecesFuel d k fuel (nextPiece d k (c :: s)).2

/-- The pieces of at most `k` elements a stream is cut into. -/
def pieces (d : α) (k : Nat) (s : List α) : List (List α) :=
  piecesFuel d k s.length s

theorem nextPiece_rest_length {d : α} {k : Nat} {s : List α} (hk : 0 < k)
    (hs : s ≠ []) : (nextPiece d k s).2.length < s.length := by
  have hlen := congrArg List.length (nextPiece_append d k s)
  have hpos := List.length_pos_iff.mpr (nextPiece_ne_nil (d := d) hk hs)
  rw [List.length_append] at hlen
  omega

theorem piecesFuel_eq {d : α} {k : Nat} (hk : 0 < k) {fuel fuel' : Nat}
    {s : List α} (h : s.length ≤ fuel) (h' : s.length ≤ fuel') :
    piecesFuel d k fuel s = piecesFuel d k fuel' s := by
  induction fuel generalizing fuel' s with
  | zero =>
      obtain rfl := List.eq_nil_of_length_eq_zero (Nat.le_zero.mp h)
      cases fuel' <;> rfl
  | succ fuel ih =>
      cases s with
      | nil => cases fuel' <;> rfl
      | cons c s =>
          obtain ⟨fuel', rfl⟩ : ∃ m, fuel' = m + 1 :=
            ⟨fuel' - 1, by simp only [List.length_cons] at h'; omega⟩
          have hlt := nextPiece_rest_length (d := d) hk (List.cons_ne_nil c s)
          have hrest : (nextPiece d k (c :: s)).2.length ≤ fuel := by omega
          have hrest' : (nextPiece d k (c :: s)).2.length ≤ fuel' := by omega
          rw [piecesFuel, piecesFuel, ih hrest hrest']

@[simp] theorem pieces_nil (d : α) (k : Nat) : pieces d k [] = [] := rfl

theorem pieces_eq_cons {d : α} {k : Nat} (hk : 0 < k) {s : List α}
    (hs : s ≠ []) :
    pieces d k s = (nextPiece d k s).1 :: pieces d k (nextPiece d k s).2 := by
  cases s with
  | nil => exact absurd rfl hs
  | cons c s =>
      have hlt := nextPiece_rest_length (d := d) hk (List.cons_ne_nil c s)
      rw [List.length_cons] at hlt
      rw [pieces, List.length_cons, piecesFuel, pieces]
      rw [piecesFuel_eq hk (by omega) (Nat.le_refl _)]

theorem pieces_flatten {d : α} {k : Nat} (hk : 0 < k) (s : List α) :
    (pieces d k s).flatten = s := by
  induction hn : s.length using Nat.strong_induction_on generalizing s with
  | _ n ih =>
      subst hn
      rcases eq_or_ne s [] with rfl | hs
      · rfl
      · rw [pieces_eq_cons hk hs, List.flatten_cons,
          ih _ (nextPiece_rest_length hk hs) _ rfl, nextPiece_append]

theorem pieces_lines {d : α} {k : Nat} (lines : List (List α)) (rest : List α)
    (hlines : ∀ l ∈ lines, d ∉ l ∧ l.length < k)
    (hrest : d ∉ rest ∧ rest.length ≤ k) :
    pieces d k ((lines.map (· ++ [d])).flatten ++ rest) =
      lines.map (· ++ [d]) ++ if rest = [] then [] else [rest] := by
  induction lines with
  | nil =>
      by_cases hnil : rest = []
      · simp [hnil]
      · have hpos := List.length_pos_iff.mpr hnil
        have hpiece := nextPiece_of_not_mem hrest.1 (k - rest.length) []
        rw [Nat.add_sub_cancel' hrest.2] at hpiece
        simp only [List.append_nil, nextPiece_nil] at hpiece
        simp only [List.map_nil, List.flatten_nil, List.nil_append, hnil,
          if_false]
        rw [pieces_eq_cons (by omega) hnil, hpiece, pieces_nil]
  | cons l lines ih =>
      obtain ⟨hd, hlen⟩ := hlines l (by simp)
      have htail := ih fun m hm => hlines m (by simp [hm])
      simp only [List.map_cons, List.flatten_cons, List.cons_append,
        List.append_assoc, List.nil_append]
      rw [pieces_eq_cons (by omega) (by simp), nextPiece_line hd hlen]
      rw [htail]

section Lines

theorem nextPiece_oneLine_cut {d : α} {k : Nat} {s : List α} (hline : OneLine d s) :
    (nextPiece d k s).2 = [] ∨ (nextPiece d k s).1.length = k := by
  have happ := nextPiece_append d k s
  by_cases hcomplete : Complete d k (nextPiece d k s).1
  · rcases hcomplete with hmem | hfull
    · rw [← happ] at hline
      exact .inl (hline.eq_nil_of_mem hmem)
    · exact .inr hfull
  · exact .inl (nextPiece_rest_of_not_complete hcomplete)

theorem pieces_append {d : α} {k : Nat} (hk : 0 < k) {s t : List α} (hline : OneLine d s)
    (hends : Ends d s t) : pieces d k (s ++ t) = pieces d k s ++ pieces d k t := by
  induction hn : s.length using Nat.strong_induction_on generalizing s with
  | _ n ih =>
      subst hn
      rcases eq_or_ne s [] with rfl | hs
      · rfl
      · obtain ⟨hpiece, hrest, hrestEnds⟩ := nextPiece_ends (k := k) hline hends hs
        have hlt := nextPiece_rest_length (d := d) hk hs
        rw [pieces_eq_cons hk (List.append_ne_nil_of_left_ne_nil hs t), hpiece,
          pieces_eq_cons hk hs, List.cons_append, ih _ hlt hrest hrestEnds rfl]

theorem pieces_flatten_lines {d : α} {k : Nat} (hk : 0 < k) {lines : List (List α)}
    (hlines : ∀ l ∈ lines, OneLine d l ∧ d ∈ l) :
    pieces d k lines.flatten = lines.flatMap (pieces d k) := by
  induction lines with
  | nil => rfl
  | cons l lines ih =>
      obtain ⟨⟨hline, hmem⟩, hlines⟩ := List.forall_mem_cons.mp hlines
      rw [List.flatten_cons, List.flatMap_cons, pieces_append hk hline (.inl hmem), ih hlines]

theorem pieces_complete {d : α} {k : Nat} (hk : 0 < k) {s : List α} (hline : OneLine d s)
    (hend : d ∈ s ∨ s = []) : ∀ p ∈ pieces d k s, Complete d k p := by
  induction hn : s.length using Nat.strong_induction_on generalizing s with
  | _ n ih =>
      subst hn
      rcases eq_or_ne s [] with rfl | hs
      · exact List.forall_mem_nil _
      · have hmem := hend.resolve_right hs
        have happ := nextPiece_append d k s
        rw [pieces_eq_cons hk hs, List.forall_mem_cons]
        constructor
        · by_contra hcut
          have hnone := nextPiece_rest_of_not_complete hcut
          rw [hnone, List.append_nil] at happ
          apply hcut
          rw [happ]
          exact .inl hmem
        · apply ih _ (nextPiece_rest_length hk hs) (hline.nextPiece_rest k) ?_ rfl
          rw [← happ] at hmem hline
          rcases List.mem_append.mp hmem with hp | hr
          · exact .inr (hline.eq_nil_of_mem hp)
          · exact .inl hr

theorem pieces_length {d : α} {k : Nat} (hk : 0 < k) {s : List α} (hline : OneLine d s) :
    (pieces d k s).length = (s.length + (k - 1)) / k := by
  induction hn : s.length using Nat.strong_induction_on generalizing s with
  | _ n ih =>
      subst hn
      rcases eq_or_ne s [] with rfl | hs
      · rw [pieces_nil, List.length_nil, Nat.div_eq_of_lt]
        rw [List.length_nil]
        omega
      · have hlt := nextPiece_rest_length (d := d) hk hs
        have hsum := congrArg List.length (nextPiece_append d k s)
        rw [List.length_append] at hsum
        rw [pieces_eq_cons hk hs, List.length_cons,
          ih _ hlt (hline.nextPiece_rest k) rfl]
        rcases nextPiece_oneLine_cut (k := k) hline with hnone | hfull
        · have hle := nextPiece_length_le d k s
          have hpos := List.length_pos_iff.mpr hs
          rw [hnone, List.length_nil] at hsum ⊢
          rw [Nat.zero_add, Nat.div_eq_of_lt (by omega), Nat.zero_add]
          exact (Nat.div_eq_of_lt_le (by omega) (by omega)).symm
        · rw [hfull] at hsum
          rw [← Nat.add_div_right _ hk]
          congr 1
          omega

theorem pieces_of_length_le {d : α} {k : Nat} {s : List α} (hs : s ≠ [])
    (hline : OneLine d s) (hlen : s.length ≤ k) : pieces d k s = [s] := by
  have hpos := List.length_pos_iff.mpr hs
  have hk : 0 < k := by omega
  have happ := nextPiece_append d k s
  have hrest : (nextPiece d k s).2 = [] := by
    rcases nextPiece_oneLine_cut (k := k) hline with hnone | hfull
    · exact hnone
    · have hsum := congrArg List.length happ
      rw [List.length_append, hfull] at hsum
      exact List.length_eq_zero_iff.mp (by omega)
  rw [hrest, List.append_nil] at happ
  rw [pieces_eq_cons hk hs, hrest, happ, pieces_nil]

theorem pieces_lines_count {d : α} {k : Nat} (hk : 0 < k) {lines : List (List α)}
    (hlines : ∀ l ∈ lines, OneLine d l ∧ d ∈ l) :
    lines.length ≤ (lines.flatMap (pieces d k)).length ∧
      ((lines.flatMap (pieces d k)).length = lines.length ↔ ∀ l ∈ lines, l.length ≤ k) := by
  induction lines with
  | nil => exact ⟨Nat.le_refl 0, iff_of_true rfl (List.forall_mem_nil _)⟩
  | cons l lines ih =>
      obtain ⟨⟨hline, hmem⟩, hlines⟩ := List.forall_mem_cons.mp hlines
      obtain ⟨hle, hcount⟩ := ih hlines
      have hne := List.ne_nil_of_mem hmem
      have hpos : 0 < (pieces d k l).length := by
        rw [pieces_eq_cons hk hne]
        exact Nat.succ_pos _
      have hone : (pieces d k l).length = 1 ↔ l.length ≤ k := by
        constructor
        · intro hlen
          rw [pieces_length hk hline] at hlen
          have hlt := Nat.lt_mul_of_div_lt (hlen.trans_lt (by decide : 1 < 2)) hk
          omega
        · intro hlen
          rw [pieces_of_length_le hne hline hlen]
          rfl
      rw [List.flatMap_cons, List.length_append, List.length_cons, List.forall_mem_cons,
        ← hone, ← hcount]
      omega

end Lines

section Lookahead

/-- Behind the piece that is being assembled, with `acc` taken so far, the
buffer holds no delimiter. -/
def OneLineAhead (d : α) (k : Nat) (acc buf : List α) : Prop :=
  d ∉ (nextPiece d (k - acc.length) buf).2

instance (d : α) (k : Nat) (acc buf : List α) :
    Decidable (OneLineAhead d k acc buf) := inferInstanceAs (Decidable (¬_))

theorem oneLineAhead_nil (d : α) (k : Nat) (acc : List α) :
    OneLineAhead d k acc [] := by
  simp [OneLineAhead]

theorem oneLineAhead_of_not_mem {d : α} {buf : List α} (h : d ∉ buf) (k : Nat)
    (acc : List α) : OneLineAhead d k acc buf := by
  intro hmem
  apply h
  rw [← nextPiece_append d (k - acc.length) buf]
  exact List.mem_append_right _ hmem

theorem oneLineAhead_cons {d c : α} {k : Nat} {acc : List α} (hc : c ≠ d)
    (hlen : acc.length < k) (buf : List α) :
    OneLineAhead d k acc (c :: buf) ↔ OneLineAhead d k (acc ++ [c]) buf := by
  obtain ⟨m, rfl⟩ := Nat.exists_eq_add_of_lt hlen
  have hfront : acc.length + m + 1 - acc.length = m + 1 := by omega
  have hback : acc.length + m + 1 - (acc ++ [c]).length = m := by simp
  rw [OneLineAhead, OneLineAhead, hfront, hback, nextPiece_cons_ne hc]

theorem oneLineAhead_last {d c : α} {k : Nat} {acc : List α}
    (hend : c = d ∨ k = acc.length + 1) (hlen : acc.length < k)
    (buf : List α) : OneLineAhead d k acc (c :: buf) ↔ d ∉ buf := by
  obtain ⟨m, rfl⟩ := Nat.exists_eq_add_of_lt hlen
  have hfront : acc.length + m + 1 - acc.length = m + 1 := by omega
  rw [OneLineAhead, hfront]
  by_cases hc : c = d
  · rw [hc, nextPiece_cons_self]
  · obtain rfl : m = 0 := by have := hend.resolve_left hc; omega
    rw [nextPiece_cons_ne hc]
    rfl

end Lookahead

section UnterminatedRest

/-- What follows the last delimiter. -/
def unterminated (d : α) (s : List α) : List α := s.rtakeWhile (· ≠ d)

theorem unterminated_of_not_mem {d : α} {s : List α} (h : d ∉ s) :
    unterminated d s = s := by
  rw [unterminated, List.rtakeWhile_eq_self_iff]
  intro c hc
  have hne : c ≠ d := fun heq => h (heq ▸ hc)
  simpa using hne

theorem unterminated_line (d : α) (p s : List α) :
    unterminated d (p ++ d :: s) = unterminated d s := by
  induction s using List.reverseRecOn with
  | nil => exact List.rtakeWhile_concat_neg _ _ _ (by simp)
  | append_singleton s c ih =>
      have happ : p ++ d :: (s ++ [c]) = (p ++ d :: s) ++ [c] := by simp
      rw [happ, unterminated, unterminated, List.rtakeWhile_concat,
        List.rtakeWhile_concat]
      simp only [unterminated] at ih
      rw [ih]

theorem unterminated_append {d : α} {p s : List α} (h : d ∈ s) :
    unterminated d (p ++ s) = unterminated d s := by
  obtain ⟨front, back, rfl⟩ := List.append_of_mem h
  rw [← List.append_assoc, unterminated_line, unterminated_line]

theorem unterminated_nextPiece {d : α} {k : Nat} {s : List α}
    (h : d ∈ (nextPiece d k s).1) :
    unterminated d s = unterminated d (nextPiece d k s).2 := by
  obtain ⟨front, back, hline⟩ := List.append_of_mem h
  obtain rfl := nextPiece_oneLine d k s front back hline
  have happ : front ++ d :: (nextPiece d k s).2 = s := by
    simpa [hline] using nextPiece_append d k s
  have hskip := unterminated_line d front (nextPiece d k s).2
  rwa [happ] at hskip

theorem unterminated_not_complete {d : α} {k : Nat} {s : List α}
    (h : ¬Complete d k (nextPiece d k s).1) (hs : s ≠ []) :
    ¬k ∣ (unterminated d s).length := by
  have happ := nextPiece_append d k s
  rw [nextPiece_rest_of_not_complete h, List.append_nil] at happ
  have hle := nextPiece_length_le d k s
  have hpos := List.length_pos_iff.mpr hs
  rw [happ] at h hle
  rw [Complete, not_or] at h
  rw [unterminated_of_not_mem h.1]
  intro hdvd
  have := Nat.le_of_dvd hpos hdvd
  omega

/-- All pieces are complete exactly when the unterminated rest can be cut into
pieces of the full length. -/
theorem pieces_complete_iff {d : α} {k : Nat} (hk : 0 < k) (s : List α) :
    (∀ p ∈ pieces d k s, Complete d k p) ↔ k ∣ (unterminated d s).length := by
  induction hn : s.length using Nat.strong_induction_on generalizing s with
  | _ n ih =>
      subst hn
      rcases eq_or_ne s [] with rfl | hs
      · simp [unterminated]
      · have hlt := nextPiece_rest_length (d := d) hk hs
        rw [pieces_eq_cons hk hs, List.forall_mem_cons, ih _ hlt _ rfl]
        by_cases hline : d ∈ (nextPiece d k s).1
        · rw [unterminated_nextPiece hline]
          exact and_iff_right (.inl hline)
        · by_cases hfull : (nextPiece d k s).1.length = k
          · have happ := nextPiece_append d k s
            rw [and_iff_right (.inr hfull)]
            by_cases hrest : d ∈ (nextPiece d k s).2
            · rw [← unterminated_append hrest, happ]
            -- no delimiter at all: the piece is cut off the rest itself
            · have hnot : d ∉ s := by
                rw [← happ, List.mem_append]
                exact not_or.mpr ⟨hline, hrest⟩
              have hsum := congrArg List.length happ
              rw [List.length_append, hfull] at hsum
              rw [unterminated_of_not_mem hrest, unterminated_of_not_mem hnot,
                ← hsum, Nat.dvd_add_right (Nat.dvd_refl k)]
          · have hshort : ¬Complete d k (nextPiece d k s).1 :=
              not_or.mpr ⟨hline, hfull⟩
            constructor
            · rintro ⟨hcomplete, -⟩
              exact absurd hcomplete hshort
            · intro hdvd
              exact absurd hdvd (unterminated_not_complete hshort hs)

end UnterminatedRest

end MyUnp.LinePieces
