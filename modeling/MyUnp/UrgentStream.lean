import MyUnp.UrgentReceiver

namespace MyUnp.UrgentStream

open MyUnp.TransitionSystem
open MyUnp.Unp
open MyUnp.UrgentReceiver

/-- What the sender and the network leave of a connection. -/
structure Grows (c d : Conn) : Prop where
  stream : c.stream <+: d.stream
  urgents : ∀ u ∈ d.urgents, u ∈ c.urgents ∨ c.stream.length ≤ u
  kept : ∀ u ∈ c.urgents, u ∈ d.urgents
  arrived : c.arrived ≤ d.arrived
  read : d.read = c.read
  fin : c.fin = true → d.fin = true
  closed : c.closed = true → d.stream = c.stream

theorem netStep_grows {c d : Conn} {a : NetAct} (h : c.netStep a = some d) :
    Grows c d := by
  have hself : ∀ u ∈ c.urgents, u ∈ c.urgents ∨ c.stream.length ≤ u :=
    fun _ hu => .inl hu
  cases a with
  | send bytes =>
      obtain ⟨hopen, rfl⟩ := guard_eq_some.mp h
      exact ⟨List.prefix_append _ _, hself, fun _ => id, Nat.le_refl _, rfl, id,
        fun hclosed => by simp [hclosed] at hopen⟩
  | sendOob b =>
      obtain ⟨hopen, rfl⟩ := guard_eq_some.mp h
      refine ⟨List.prefix_append _ _, ?_, fun _ => List.mem_append_left _,
        Nat.le_refl _, rfl, id, fun hclosed => by simp [hclosed] at hopen⟩
      intro u hu
      rcases List.mem_append.mp hu with hu | hu
      · exact .inl hu
      · exact .inr (Nat.le_of_eq (List.mem_singleton.mp hu).symm)
  | close =>
      obtain rfl := Option.some.inj h
      exact ⟨List.prefix_rfl, hself, fun _ => id, Nat.le_refl _, rfl, id, fun _ => rfl⟩
  | announce p =>
      obtain ⟨-, rfl⟩ := guard_eq_some.mp h
      exact ⟨List.prefix_rfl, hself, fun _ => id, Nat.le_refl _, rfl, id, fun _ => rfl⟩
  | arrive n =>
      obtain ⟨-, rfl⟩ := guard_eq_some.mp h
      exact ⟨List.prefix_rfl, hself, fun _ => id, Nat.le_add_right _ _, rfl, id,
        fun _ => rfl⟩
  | arriveFin =>
      obtain ⟨-, rfl⟩ := guard_eq_some.mp h
      exact ⟨List.prefix_rfl, hself, fun _ => id, Nat.le_refl _, rfl, fun _ => rfl,
        fun _ => rfl⟩

def announces : NetAct → Bool
  | .announce _ => true
  | _ => false

theorem netStep_mark {c d : Conn} {a : NetAct} (h : c.netStep a = some d) :
    (announces a = false ∧ d.mark = c.mark ∧ d.fetched = c.fetched) ∨
      ∃ p, a = .announce p ∧ d.mark = some p ∧ d.fetched = false := by
  cases a with
  | announce p =>
      obtain ⟨-, rfl⟩ := guard_eq_some.mp h
      exact .inr ⟨p, rfl, rfl, rfl⟩
  | close =>
      obtain rfl := Option.some.inj h
      exact .inl ⟨rfl, rfl, rfl⟩
  | send bytes =>
      obtain ⟨-, rfl⟩ := guard_eq_some.mp h
      exact .inl ⟨rfl, rfl, rfl⟩
  | sendOob b =>
      obtain ⟨-, rfl⟩ := guard_eq_some.mp h
      exact .inl ⟨rfl, rfl, rfl⟩
  | arrive n =>
      obtain ⟨-, rfl⟩ := guard_eq_some.mp h
      exact .inl ⟨rfl, rfl, rfl⟩
  | arriveFin =>
      obtain ⟨-, rfl⟩ := guard_eq_some.mp h
      exact .inl ⟨rfl, rfl, rfl⟩

/-- The urgent bytes are bytes of the stream, in the order in which they were
sent, and the mark is one of them; every urgent byte that has arrived was
announced, or a later one was; behind the end of the stream comes nothing. -/
structure Sound (c : Conn) : Prop where
  sorted : c.urgents.Pairwise (· < ·)
  sent : ∀ u ∈ c.urgents, u < c.stream.length
  mark : ∀ p ∈ c.mark, p ∈ c.urgents
  arrived : c.arrived ≤ c.stream.length
  announced : ∀ u ∈ c.urgents, u < c.arrived → ∃ p ∈ c.mark, u ≤ p
  fin : c.fin = true → c.closed = true ∧ c.arrived = c.stream.length

theorem sound_start : Sound .start := by
  constructor <;> simp [Conn.start]

theorem Sound.net {c d : Conn} {a : NetAct} (h : Sound c)
    (hnet : c.netStep a = some d) : Sound d := by
  cases a with
  | send bytes =>
      obtain ⟨hopen, rfl⟩ := guard_eq_some.mp hnet
      refine ⟨h.sorted, ?_, h.mark, ?_, h.announced, ?_⟩
      · intro u hu
        have hlt := h.sent u hu
        simp only [List.length_append]
        omega
      · have hle := h.arrived
        simp only [List.length_append]
        omega
      · intro hfin
        rw [(h.fin hfin).1] at hopen
        simp at hopen
  | sendOob b =>
      obtain ⟨hopen, rfl⟩ := guard_eq_some.mp hnet
      refine ⟨?_, ?_, ?_, ?_, ?_, ?_⟩
      · rw [List.pairwise_append]
        refine ⟨h.sorted, List.pairwise_singleton _ _, ?_⟩
        intro u hu v hv
        rw [List.mem_singleton.mp hv]
        exact h.sent u hu
      · intro u hu
        simp only [List.length_append, List.length_singleton]
        rcases List.mem_append.mp hu with hu | hu
        · have hlt := h.sent u hu
          omega
        · rw [List.mem_singleton.mp hu]
          omega
      · exact fun p hp => List.mem_append_left _ (h.mark p hp)
      · have hle := h.arrived
        simp only [List.length_append]
        omega
      · intro u hu hlt
        rcases List.mem_append.mp hu with hu | hu
        · exact h.announced u hu hlt
        · have hle := h.arrived
          rw [List.mem_singleton.mp hu] at hlt
          exact absurd hlt (Nat.not_lt.mpr hle)
      · intro hfin
        rw [(h.fin hfin).1] at hopen
        simp at hopen
  | close =>
      obtain rfl := Option.some.inj hnet
      exact ⟨h.sorted, h.sent, h.mark, h.arrived, h.announced,
        fun hfin => ⟨rfl, (h.fin hfin).2⟩⟩
  | announce p =>
      obtain ⟨⟨hp, hlater⟩, rfl⟩ := guard_eq_some.mp hnet
      refine ⟨h.sorted, h.sent, ?_, h.arrived, ?_, h.fin⟩
      · intro q hq
        obtain rfl := Option.some.inj hq
        exact hp
      · intro u hu hlt
        obtain ⟨q, hq, hle⟩ := h.announced u hu hlt
        exact ⟨p, rfl, Nat.le_trans hle (Nat.le_of_lt (hlater q hq))⟩
  | arrive n =>
      obtain ⟨⟨hle, hannounced⟩, rfl⟩ := guard_eq_some.mp hnet
      refine ⟨h.sorted, h.sent, h.mark, hle, hannounced, ?_⟩
      intro hfin
      obtain ⟨hclosed, hall⟩ := h.fin hfin
      refine ⟨hclosed, ?_⟩
      show c.arrived + n = c.stream.length
      omega
  | arriveFin =>
      obtain ⟨⟨hclosed, hall⟩, rfl⟩ := guard_eq_some.mp hnet
      exact ⟨h.sorted, h.sent, h.mark, h.arrived, h.announced,
        fun _ => ⟨hclosed, hall⟩⟩

theorem Sound.process {c : Conn} (h : Sound c) (read : Nat) (fetched : Bool) :
    Sound { c with read := read, fetched := fetched } :=
  ⟨h.sorted, h.sent, h.mark, h.arrived, h.announced, h.fin⟩

theorem limit_le_arrived (c : Conn) : c.limit ≤ c.arrived := by
  rw [Conn.limit]
  split
  · split
    · exact Nat.min_le_right _ _
    · exact Nat.le_refl _
  · exact Nat.le_refl _

theorem limit_le_mark {c : Conn} {p : Nat} (hp : c.mark = some p)
    (hlt : c.read < p) : c.limit ≤ p := by
  simp only [Conn.limit, hp, if_pos hlt]
  exact Nat.min_le_left _ _

theorem take_grows {xs ys : List Byte} (h : xs <+: ys) {k : Nat}
    (hk : k ≤ xs.length) : ys.take k = xs.take k := by
  obtain ⟨zs, rfl⟩ := h
  rw [List.take_append_of_le_length hk]

section Without

variable {α : Type} {skipped : List Nat}

/-- What is left of a list that begins at position `i` without the elements at
some positions. -/
def without (skipped : List Nat) : Nat → List α → List α
  | _, [] => []
  | i, x :: xs =>
      if i ∈ skipped then without skipped (i + 1) xs
      else x :: without skipped (i + 1) xs

theorem without_append (i : Nat) (xs ys : List α) :
    without skipped i (xs ++ ys) =
      without skipped i xs ++ without skipped (i + xs.length) ys := by
  induction xs generalizing i with
  | nil => rfl
  | cons x xs ih =>
      have hlen : i + (x :: xs).length = i + 1 + xs.length := by
        rw [List.length_cons]
        omega
      rw [List.cons_append, without, without, ih, hlen]
      split <;> rfl

theorem without_congr {kept : List Nat} {i : Nat} {xs : List α}
    (h : ∀ j, i ≤ j → j < i + xs.length → (j ∈ skipped ↔ j ∈ kept)) :
    without skipped i xs = without kept i xs := by
  induction xs generalizing i with
  | nil => rfl
  | cons x xs ih =>
      rw [List.length_cons] at h
      have htail := ih (i := i + 1) fun j hle hlt => h j (by omega) (by omega)
      rw [without, without, htail]
      simp only [h i (Nat.le_refl i) (by omega)]

theorem without_eq_self {i : Nat} {xs : List α}
    (h : ∀ j, i ≤ j → j < i + xs.length → j ∉ skipped) :
    without skipped i xs = xs := by
  induction xs generalizing i with
  | nil => rfl
  | cons x xs ih =>
      rw [List.length_cons] at h
      rw [without, if_neg (h i (Nat.le_refl i) (by omega)),
        ih fun j hle hlt => h j (by omega) (by omega)]

theorem without_sublist (i : Nat) (xs : List α) :
    (without skipped i xs).Sublist xs := by
  induction xs generalizing i with
  | nil => exact List.Sublist.refl []
  | cons x xs ih =>
      rw [without]
      split
      · exact (ih (i + 1)).cons x
      · exact (ih (i + 1)).cons_cons x

end Without

/-- A receiver without `SO_OOBINLINE` reads on from the next normal byte. -/
def reads (c : Conn) (n : Nat) : Conn := { c with read := c.next + n }

/-- What it reads: the stream in its order, without some urgent bytes. -/
def Normal (c : Conn) (data : List Byte) : Prop :=
  ∃ skipped, (∀ u ∈ skipped, u ∈ c.urgents ∧ u < c.read) ∧
    data = without skipped 0 (c.stream.take c.read)

/-- What it reads where no urgent byte gets into the normal data. -/
def Clean (c : Conn) (data : List Byte) : Prop :=
  data = without c.urgents 0 (c.stream.take c.read)

theorem Normal.net {c d : Conn} {a : NetAct} {data : List Byte} (h : Normal c data)
    (hread : c.read ≤ c.stream.length) (hnet : c.netStep a = some d) :
    Normal d data := by
  have hgrows := netStep_grows hnet
  obtain ⟨skipped, hskipped, hdata⟩ := h
  refine ⟨skipped, ?_, ?_⟩
  · intro u hu
    rw [hgrows.read]
    exact ⟨hgrows.kept u (hskipped u hu).1, (hskipped u hu).2⟩
  · rw [hgrows.read, take_grows hgrows.stream hread]
    exact hdata

theorem Clean.net {c d : Conn} {a : NetAct} {data : List Byte} (h : Clean c data)
    (hread : c.read ≤ c.stream.length) (hnet : c.netStep a = some d) :
    Clean d data := by
  have hgrows := netStep_grows hnet
  rw [Clean, hgrows.read, take_grows hgrows.stream hread, h]
  apply without_congr
  intro u _ hlt
  rw [List.length_take] at hlt
  constructor
  · exact hgrows.kept u
  · intro hu
    exact (hgrows.urgents u hu).resolve_right (by omega)

theorem take_reads (c : Conn) (n : Nat) :
    c.stream.take (c.next + n) = c.stream.take c.read ++
      ((c.stream.drop c.read).take (c.next - c.read) ++
        (c.stream.drop c.next).take n) := by
  have hnext : c.next = c.read + (c.next - c.read) := by
    rw [Conn.next]
    split <;> omega
  rw [List.take_add, hnext, List.take_add, List.append_assoc, ← hnext]

theorem next_cases (c : Conn) :
    c.next = c.read ∨ c.next = c.read + 1 ∧ c.mark = some c.read := by
  rw [Conn.next]
  split
  · rename_i h
    exact .inr ⟨rfl, h⟩
  · exact .inl rfl

theorem Normal.reads {c : Conn} {data : List Byte} (h : Normal c data)
    (hsound : Sound c) (hread : c.read ≤ c.arrived) (n : Nat) :
    Normal (reads c n) (data ++ (c.stream.drop c.next).take n) := by
  obtain ⟨skipped, hskipped, hdata⟩ := h
  have hlen : (c.stream.take c.read).length = c.read := by
    rw [List.length_take, Nat.min_eq_left (Nat.le_trans hread hsound.arrived)]
  have hfresh : ∀ j, c.read ≤ j → j ∉ skipped := by
    intro j hj hmem
    exact absurd (hskipped j hmem).2 (Nat.not_lt.mpr hj)
  rcases next_cases c with hnext | ⟨hnext, hmark⟩
  · refine ⟨skipped, ?_, ?_⟩
    · intro u hu
      obtain ⟨hurgent, hlt⟩ := hskipped u hu
      refine ⟨hurgent, ?_⟩
      show u < c.next + n
      omega
    · show _ = without skipped 0 (c.stream.take (c.next + n))
      rw [take_reads, hnext, Nat.sub_self, List.take_zero, List.nil_append,
        without_append, Nat.zero_add, hlen, ← hdata,
        without_eq_self fun j hle _ => hfresh j hle]
  · refine ⟨c.read :: skipped, ?_, ?_⟩
    · intro u hu
      show u ∈ c.urgents ∧ u < c.next + n
      rcases List.mem_cons.mp hu with rfl | hu
      · exact ⟨hsound.mark _ hmark, by omega⟩
      · obtain ⟨hurgent, hlt⟩ := hskipped u hu
        exact ⟨hurgent, by omega⟩
    · have hsent := hsound.sent _ (hsound.mark _ hmark)
      have hbefore : without (c.read :: skipped) 0 (c.stream.take c.read) = data := by
        rw [hdata]
        apply without_congr
        intro j _ hlt
        rw [hlen] at hlt
        rw [List.mem_cons]
        exact or_iff_right (by omega)
      have hbyte : without (c.read :: skipped) c.read ((c.stream.drop c.read).take 1) =
          [] := by
        rw [List.drop_eq_getElem_cons hsent, List.take_succ_cons, List.take_zero,
          without, if_pos List.mem_cons_self, without]
      have hafter : without (c.read :: skipped) (c.read + 1)
          ((c.stream.drop (c.read + 1)).take n) = (c.stream.drop (c.read + 1)).take n := by
        apply without_eq_self
        intro j hle _ hmem
        rcases List.mem_cons.mp hmem with rfl | hmem
        · omega
        · exact hfresh j (by omega) hmem
      have hone : ((c.stream.drop c.read).take 1).length = 1 := by
        rw [List.length_take, List.length_drop]
        omega
      show _ = without (c.read :: skipped) 0 (c.stream.take (c.next + n))
      rw [take_reads, hnext, Nat.add_sub_cancel_left, without_append, Nat.zero_add,
        hlen, hbefore, without_append, hbyte, hone, hafter, List.nil_append]

/-- Each urgent byte is announced when all before it have been passed. -/
def Spaced (c : Conn) : Prop :=
  ∀ p ∈ c.mark, ∀ u ∈ c.urgents, u < p → u < c.read

theorem Spaced.net {c d : Conn} {a : NetAct} (h : Spaced c) (hsound : Sound c)
    (hannounce : ∀ p, a = .announce p → ∀ u ∈ c.urgents, u < p → u < c.read)
    (hnet : c.netStep a = some d) : Spaced d := by
  have hgrows := netStep_grows hnet
  rcases netStep_mark hnet with ⟨-, hmark, -⟩ | ⟨p, rfl, -, -⟩
  · intro p hp u hu hlt
    rw [hmark] at hp
    have hsent := hsound.sent p (hsound.mark p hp)
    have hold := (hgrows.urgents u hu).resolve_right (by omega)
    rw [hgrows.read]
    exact h p hp u hold hlt
  · obtain ⟨-, rfl⟩ := guard_eq_some.mp hnet
    intro q hq u hu hlt
    obtain rfl := Option.some.inj hq
    exact hannounce p rfl u hu hlt

theorem Spaced.reads {c : Conn} (h : Spaced c) (n : Nat) : Spaced (reads c n) := by
  intro p hp u hu hlt
  have hpassed := h p hp u hu hlt
  show u < c.next + n
  rcases next_cases c with hnext | ⟨hnext, -⟩ <;> omega

theorem Spaced.reads_normal {c : Conn} {n u : Nat} (h : Spaced c) (hsound : Sound c)
    (havail : n ≤ c.available) (hu : u ∈ c.urgents) (hle : c.next ≤ u) :
    c.next + n ≤ u := by
  by_contra hlt
  have hlimit := limit_le_arrived c
  rw [Conn.available] at havail
  obtain ⟨p, hp, hup⟩ := hsound.announced u hu (by omega)
  have hread : ¬u < c.read := by
    rcases next_cases c with hnext | ⟨hnext, -⟩ <;> omega
  have heq : u = p := by
    by_contra hne
    exact hread (h p hp u hu (by omega))
  subst heq
  by_cases hahead : c.read < u
  · have hstop := limit_le_mark hp hahead
    omega
  · have hat : u = c.read := by omega
    have hnext : c.next = c.read + 1 := by
      rw [Conn.next, if_pos]
      rw [← hat]
      exact hp
    omega

theorem Clean.reads {c : Conn} {data : List Byte} {n : Nat} (h : Clean c data)
    (hspaced : Spaced c) (hsound : Sound c) (hread : c.read ≤ c.arrived)
    (havail : n ≤ c.available) :
    Clean (reads c n) (data ++ (c.stream.drop c.next).take n) := by
  have hlen : (c.stream.take c.read).length = c.read := by
    rw [List.length_take, Nat.min_eq_left (Nat.le_trans hread hsound.arrived)]
  have hchunk : without c.urgents c.next ((c.stream.drop c.next).take n) =
      (c.stream.drop c.next).take n := by
    apply without_eq_self
    intro j hle hlt hmem
    have hstop := hspaced.reads_normal hsound havail hmem hle
    rw [List.length_take] at hlt
    omega
  show _ = without c.urgents 0 (c.stream.take (c.next + n))
  rw [take_reads, without_append, Nat.zero_add, hlen, ← h, without_append]
  congr 1
  rcases next_cases c with hnext | ⟨hnext, hmark⟩
  · rw [hnext] at hchunk ⊢
    rw [Nat.sub_self, List.take_zero, without, List.nil_append, List.length_nil,
      Nat.add_zero, hchunk]
  · have hurgent := hsound.mark _ hmark
    have hsent := hsound.sent _ hurgent
    rw [hnext] at hchunk ⊢
    rw [Nat.add_sub_cancel_left, List.drop_eq_getElem_cons hsent, List.take_succ_cons,
      List.take_zero, without, if_pos hurgent, without, List.nil_append,
      List.length_singleton, hchunk]

theorem length_le_next {c : Conn} (hsound : Sound c) (havail : c.available = 0)
    (hfin : c.fin = true) : c.stream.length ≤ c.next := by
  have hall := (hsound.fin hfin).2
  rw [Conn.available, Conn.limit] at havail
  rcases hmark : c.mark with _ | p
  · simp only [hmark] at havail
    omega
  · simp only [hmark] at havail
    split at havail
    · rcases next_cases c with hnext | ⟨hnext, hat⟩
      · omega
      · rw [hmark, Option.some_inj] at hat
        omega
    · omega

def Fetches (c : Conn) (oob : List Byte) : Prop :=
  ∃ ps : List Nat, ps.Pairwise (· < ·) ∧
    (∀ p ∈ ps, p ∈ c.urgents ∧ ∃ q ∈ c.mark, p ≤ q ∧ (c.fetched = false → p < q)) ∧
    oob = ps.map fun p => c.stream.getD p 0

theorem Fetches.net {c d : Conn} {a : NetAct} {oob : List Byte} (h : Fetches c oob)
    (hsound : Sound c) (hnet : c.netStep a = some d) : Fetches d oob := by
  have hgrows := netStep_grows hnet
  obtain ⟨ps, hsorted, hps, hoob⟩ := h
  refine ⟨ps, hsorted, ?_, ?_⟩
  · intro p hp
    obtain ⟨hu, q, hq, hle, hlt⟩ := hps p hp
    refine ⟨hgrows.kept p hu, ?_⟩
    obtain ⟨-, ⟨hmark, hfetched⟩ | ⟨r, hmark, -, hlater⟩⟩ := Conn.netStep_cases hnet
    · rw [hmark, hfetched]
      exact ⟨q, hq, hle, hlt⟩
    · have hqr := hlater q hq
      exact ⟨r, hmark, by omega, fun _ => by omega⟩
  · rw [hoob]
    apply List.map_congr_left
    intro p hp
    have hsent := hsound.sent p (hps p hp).1
    obtain ⟨more, hmore⟩ := hgrows.stream
    rw [← hmore, List.getD_eq_getElem?_getD, List.getD_eq_getElem?_getD,
      List.getElem?_append_left hsent]

theorem Fetches.fetch {c : Conn} {oob : List Byte} {p : Nat} (h : Fetches c oob)
    (hsound : Sound c) (hmark : c.mark = some p) (hfetched : c.fetched = false) :
    Fetches { c with fetched := true } (oob ++ [c.stream.getD p 0]) := by
  obtain ⟨ps, hsorted, hps, hoob⟩ := h
  refine ⟨ps ++ [p], ?_, ?_, ?_⟩
  · rw [List.pairwise_append]
    refine ⟨hsorted, List.pairwise_singleton _ _, ?_⟩
    intro r hr q hq
    obtain ⟨-, m, hm, -, hlt⟩ := hps r hr
    rw [hmark] at hm
    obtain rfl := Option.some.inj hm
    rw [List.mem_singleton.mp hq]
    exact hlt hfetched
  · intro r hr
    rcases List.mem_append.mp hr with hr | hr
    · obtain ⟨hu, q, hq, hle, -⟩ := hps r hr
      exact ⟨hu, q, hq, hle, nofun⟩
    · rw [List.mem_singleton.mp hr]
      exact ⟨hsound.mark p hmark, p, hmark, Nat.le_refl p, nofun⟩
  · rw [hoob, List.map_append]
    rfl

theorem closed_netStep {c d : Conn} {a : NetAct} (h : c.netStep a = some d)
    (hclosed : c.closed = true) : d.closed = true := by
  cases a with
  | close =>
      obtain rfl := Option.some.inj h
      rfl
  | send bytes =>
      obtain ⟨hopen, -⟩ := guard_eq_some.mp h
      simp [hclosed] at hopen
  | sendOob b =>
      obtain ⟨hopen, -⟩ := guard_eq_some.mp h
      simp [hclosed] at hopen
  | announce p =>
      obtain ⟨-, rfl⟩ := guard_eq_some.mp h
      exact hclosed
  | arrive n =>
      obtain ⟨-, rfl⟩ := guard_eq_some.mp h
      exact hclosed
  | arriveFin =>
      obtain ⟨-, rfl⟩ := guard_eq_some.mp h
      exact hclosed

end MyUnp.UrgentStream
