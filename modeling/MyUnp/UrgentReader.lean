import MyUnp.UrgentStream

namespace MyUnp.UrgentReader

open MyUnp.TransitionSystem
open MyUnp.Unp
open MyUnp.UrgentReceiver
open MyUnp.UrgentStream

/-- The connection, the normal and the urgent bytes read of it, whether `Read`
has returned 0, and whether the process has exited. -/
structure Reader where
  conn : Conn
  data : List Byte
  oob : List Byte
  eof : Bool
  exited : Bool

def Reader.start : Reader := ⟨.start, [], [], false, false⟩

inductive ReaderAct where
  | net (a : NetAct)
  | fetch
  | read (n : Nat)
  | eof
  | quit

def Reader.step (s : Reader) : ReaderAct → Option Reader
  | .net a => (s.conn.netStep a).map fun c => { s with conn := c }
  | .fetch =>
      match s.conn.mark with
      | none => none
      | some p =>
          if s.exited = false ∧ s.conn.fetched = false ∧ p < s.conn.arrived then
            some { s with
              conn := { s.conn with fetched := true }
              oob := s.oob ++ [s.conn.stream.getD p 0] }
          else none
  | .read n =>
      if s.exited = false ∧ 0 < n ∧ n ≤ s.conn.available then
        some { s with
          conn := reads s.conn n
          data := s.data ++ (s.conn.stream.drop s.conn.next).take n }
      else none
  | .eof =>
      if s.exited = false ∧ s.conn.available = 0 ∧ s.conn.fin = true then
        some { s with eof := true, exited := true }
      else none
  | .quit => some { s with exited := true }

def reader : System Reader ReaderAct where
  init s := s = .start
  step := Reader.step

theorem fetch_eq_some {s t : Reader} (h : reader.step s .fetch = some t) :
    ∃ p, s.conn.mark = some p ∧ (s.exited = false ∧ s.conn.fetched = false ∧
      p < s.conn.arrived) ∧
      { s with
        conn := { s.conn with fetched := true }
        oob := s.oob ++ [s.conn.stream.getD p 0] } = t := by
  change s.step .fetch = some t at h
  rw [Reader.step] at h
  split at h
  · simp at h
  · rename_i p hmark
    exact ⟨p, hmark, guard_eq_some.mp h⟩

/-- What a receiver has read: the stream in its order without some of the urgent
bytes, all of it at end of file, and urgent bytes in their order. -/
structure Law (s : Reader) : Prop where
  sound : Sound s.conn
  read_le : s.conn.read ≤ s.conn.arrived
  normal : Normal s.conn s.data
  fetches : Fetches s.conn s.oob
  ended : s.eof = true → s.exited = true ∧ s.conn.closed = true ∧
    ∃ skipped, (∀ u ∈ skipped, u ∈ s.conn.urgents) ∧
      s.data = without skipped 0 s.conn.stream

theorem Law.read_length {s : Reader} (h : Law s) :
    s.conn.read ≤ s.conn.stream.length :=
  Nat.le_trans h.read_le h.sound.arrived

theorem Law.running {s : Reader} (h : Law s) (hexited : s.exited = false) :
    s.eof ≠ true := by
  intro heof
  rw [(h.ended heof).1] at hexited
  simp at hexited

theorem law_start : Law .start :=
  ⟨sound_start, Nat.le_refl _, ⟨[], by simp, rfl⟩, ⟨[], by simp, by simp, rfl⟩, nofun⟩

theorem Law.net {s : Reader} {c : Conn} {a : NetAct} (h : Law s)
    (hnet : s.conn.netStep a = some c) : Law { s with conn := c } := by
  have hgrows := netStep_grows hnet
  refine ⟨h.sound.net hnet, ?_, h.normal.net h.read_length hnet,
    h.fetches.net h.sound hnet, ?_⟩
  · show c.read ≤ c.arrived
    rw [hgrows.read]
    exact Nat.le_trans h.read_le hgrows.arrived
  · intro heof
    obtain ⟨hexited, hclosed, skipped, hskipped, hdata⟩ := h.ended heof
    refine ⟨hexited, closed_netStep hnet hclosed, skipped,
      fun u hu => hgrows.kept u (hskipped u hu), ?_⟩
    show s.data = without skipped 0 c.stream
    rw [hgrows.closed hclosed]
    exact hdata

theorem Law.step {s t : Reader} {a : ReaderAct} (h : Law s)
    (hstep : reader.step s a = some t) : Law t := by
  cases a with
  | net a =>
      obtain ⟨c, hnet, rfl⟩ := Option.map_eq_some_iff.mp hstep
      exact h.net hnet
  | fetch =>
      obtain ⟨p, hmark, ⟨hexited, hfetched, -⟩, rfl⟩ := fetch_eq_some hstep
      exact ⟨h.sound.process _ _, h.read_le, h.normal,
        h.fetches.fetch h.sound hmark hfetched,
        fun heof => absurd heof (h.running hexited)⟩
  | read n =>
      obtain ⟨⟨hexited, hpos, havail⟩, rfl⟩ := guard_eq_some.mp hstep
      have hlimit := limit_le_arrived s.conn
      rw [Conn.available] at havail
      refine ⟨h.sound.process _ _, ?_, h.normal.reads h.sound h.read_le n, h.fetches,
        fun heof => absurd heof (h.running hexited)⟩
      show s.conn.next + n ≤ s.conn.arrived
      omega
  | eof =>
      obtain ⟨⟨-, havail, hfin⟩, rfl⟩ := guard_eq_some.mp hstep
      obtain ⟨skipped, hskipped, hdata⟩ := h.normal.reads h.sound h.read_le 0
      have hall := length_le_next h.sound havail hfin
      change _ = without skipped 0 (s.conn.stream.take s.conn.next) at hdata
      rw [List.take_of_length_le hall, List.take_zero, List.append_nil] at hdata
      exact ⟨h.sound, h.read_le, h.normal, h.fetches, fun _ =>
        ⟨rfl, (h.sound.fin hfin).1, skipped, fun u hu => (hskipped u hu).1, hdata⟩⟩
  | quit =>
      obtain rfl := Option.some.inj hstep
      exact ⟨h.sound, h.read_le, h.normal, h.fetches,
        fun heof => ⟨rfl, (h.ended heof).2⟩⟩

theorem Law.zero_not_mem {s : Reader} (h : Law s) (hnul : 0 ∉ s.conn.stream) :
    0 ∉ s.data ∧ 0 ∉ s.oob := by
  constructor
  · obtain ⟨skipped, -, hdata⟩ := h.normal
    rw [hdata]
    intro hmem
    exact hnul (List.mem_of_mem_take ((without_sublist 0 _).subset hmem))
  · obtain ⟨ps, -, hps, hoob⟩ := h.fetches
    rw [hoob, List.mem_map]
    rintro ⟨p, hp, hzero⟩
    have hsent := h.sound.sent p (hps p hp).1
    rw [List.getD_eq_getElem?_getD, List.getElem?_eq_getElem hsent, Option.getD_some] at hzero
    exact hnul (hzero ▸ List.getElem_mem hsent)

theorem reader_law {s : Reader} (hs : reader.Reachable s) : Law s := by
  refine hs.invariant (P := Law) ?_ ?_
  · rintro s rfl
    exact law_start
  · intro s a t _ h hstep
    exact h.step hstep

/-- `a` announces no urgent byte before those in front of it have been passed. -/
def OneAtATime (c : Conn) : NetAct → Prop
  | .announce p => ∀ u ∈ c.urgents, u < p → u < c.read
  | _ => True

instance (c : Conn) (a : NetAct) : Decidable (OneAtATime c a) := by
  unfold OneAtATime
  split <;> infer_instance

def Spacing (s : Reader) : ReaderAct → Prop
  | .net a => OneAtATime s.conn a
  | _ => True

instance (s : Reader) (a : ReaderAct) : Decidable (Spacing s a) := by
  unfold Spacing
  split <;> infer_instance

/-- What it has read where the urgent bytes are announced one at a time: as normal
data all of the stream but them. -/
structure CleanLaw (s : Reader) : Prop where
  spaced : Spaced s.conn
  clean : Clean s.conn s.data
  ended : s.eof = true → s.data = without s.conn.urgents 0 s.conn.stream

theorem cleanLaw_start : CleanLaw .start := by
  refine ⟨?_, rfl, nofun⟩
  intro p hp
  simp [Reader.start, Conn.start] at hp

theorem CleanLaw.net {s : Reader} {c : Conn} {a : NetAct} (h : CleanLaw s)
    (hlaw : Law s) (hone : OneAtATime s.conn a) (hnet : s.conn.netStep a = some c) :
    CleanLaw { s with conn := c } := by
  have hgrows := netStep_grows hnet
  refine ⟨?_, h.clean.net hlaw.read_length hnet, ?_⟩
  · refine h.spaced.net hlaw.sound ?_ hnet
    rintro p rfl
    exact hone
  · intro heof
    show s.data = without c.urgents 0 c.stream
    rw [h.ended heof, hgrows.closed (hlaw.ended heof).2.1]
    apply without_congr
    intro u _ hlt
    constructor
    · exact hgrows.kept u
    · intro hu
      exact (hgrows.urgents u hu).resolve_right (by omega)

theorem CleanLaw.step {s t : Reader} {a : ReaderAct} (h : CleanLaw s) (hlaw : Law s)
    (hspacing : Spacing s a) (hstep : reader.step s a = some t) : CleanLaw t := by
  cases a with
  | net a =>
      obtain ⟨c, hnet, rfl⟩ := Option.map_eq_some_iff.mp hstep
      exact h.net hlaw hspacing hnet
  | fetch =>
      obtain ⟨p, -, ⟨hexited, -, -⟩, rfl⟩ := fetch_eq_some hstep
      exact ⟨h.spaced, h.clean, fun heof => absurd heof (hlaw.running hexited)⟩
  | read n =>
      obtain ⟨⟨hexited, -, havail⟩, rfl⟩ := guard_eq_some.mp hstep
      exact ⟨h.spaced.reads n, h.clean.reads h.spaced hlaw.sound hlaw.read_le havail,
        fun heof => absurd heof (hlaw.running hexited)⟩
  | eof =>
      obtain ⟨⟨-, havail, hfin⟩, rfl⟩ := guard_eq_some.mp hstep
      have hclean := h.clean.reads h.spaced hlaw.sound hlaw.read_le (Nat.zero_le _)
      have hall := length_le_next hlaw.sound havail hfin
      change _ = without s.conn.urgents 0 (s.conn.stream.take s.conn.next) at hclean
      rw [List.take_of_length_le hall, List.take_zero, List.append_nil] at hclean
      exact ⟨h.spaced, h.clean, fun _ => hclean⟩
  | quit =>
      obtain rfl := Option.some.inj hstep
      exact ⟨h.spaced, h.clean, h.ended⟩

theorem reader_cleanLaw {s : Reader} (hs : (reader.restrict Spacing).Reachable s) :
    CleanLaw s := by
  refine System.Reachable.restrict_invariant (P := CleanLaw) ?_ ?_ hs
  · rintro s rfl
    exact cleanLaw_start
  · intro s a t hreach hspacing h hstep
    exact h.step (reader_law hreach) hspacing hstep

section Receives

universe u v

variable {State : Type u} {Act : Type v} {M : System State Act}
  {netOf : Act → Option NetAct}

structure Receives (M : System State Act) (netOf : Act → Option NetAct) where
  abs : State → Reader
  init : ∀ s, M.init s → abs s = .start
  step : ∀ s a t, M.step s a = some t → abs t = abs s ∨
    ∃ k, (∀ n, k = .net n → netOf a = some n) ∧ reader.step (abs s) k = some (abs t)

def Receives.refines (R : Receives M netOf) : Refinement M reader :=
  .ofStep R.abs R.init fun s a t _ hstep =>
    (R.step s a t hstep).imp_right fun ⟨k, _, hk⟩ => ⟨k, hk⟩

def Receives.Apart (R : Receives M netOf) (s : State) (a : Act) : Prop :=
  ∀ n ∈ netOf a, OneAtATime (R.abs s).conn n

instance (R : Receives M netOf) (s : State) (a : Act) : Decidable (R.Apart s a) :=
  inferInstanceAs (Decidable (∀ _ ∈ _, _))

def Receives.refinesApart (R : Receives M netOf) :
    Refinement (M.restrict R.Apart) (reader.restrict Spacing) :=
  .ofStep R.abs R.init fun s a t _ hstep => by
    obtain ⟨hapart, hstep⟩ := System.restrict_step_eq_some.mp hstep
    rcases R.step s a t hstep with hsame | ⟨k, hnet, hk⟩
    · exact .inl hsame
    · refine .inr ⟨k, System.restrict_step_eq_some.mpr ⟨?_, hk⟩⟩
      cases k with
      | net n => exact hapart n (hnet n rfl)
      | fetch => trivial
      | read n => trivial
      | eof => trivial
      | quit => trivial

theorem Receives.law (R : Receives M netOf) {s : State} (hs : M.Reachable s) :
    Law (R.abs s) :=
  reader_law (R.refines.reachable hs)

theorem Receives.cleanLaw (R : Receives M netOf) {s : State}
    (hs : (M.restrict R.Apart).Reachable s) : CleanLaw (R.abs s) :=
  reader_cleanLaw (R.refinesApart.reachable hs)

end Receives

end MyUnp.UrgentReader
