import Mathlib.Data.List.GetD
import MyUnp.InetPton

namespace MyUnp.InetAton

open MyUnp.Atol MyUnp.Decimal MyUnp.InetNtop MyUnp.InetPton MyUnp.Unp

def fieldValue (field : List Byte) : Nat := value field % ULONG

structure IsDotted (fields : List (List Byte)) : Prop where
  count : fields.length ≤ 4
  digits : ∀ f ∈ fields, ∀ c ∈ f, isDigit c = true
  byte : ∀ f ∈ fields, fieldValue f ≤ 255

def fieldByte (fields : List (List Byte)) (i : Nat) : Byte :=
  UInt8.ofNat (fieldValue (fields.getD i []))

def address (fields : List (List Byte)) : InAddr :=
  ⟨fieldByte fields 0, fieldByte fields 1, fieldByte fields 2, fieldByte fields 3⟩

def push (addr acc : Nat) : Nat := (addr <<< 8 ||| acc) % ULONG

theorem endNumber_eq_some {acc addr r : Nat} :
    endNumber acc addr = some r ↔ acc ≤ 255 ∧ r = push addr acc := by
  rw [endNumber]
  split
  · rename_i hlarge
    exact iff_of_false (by simp) fun h => absurd h.1 (Nat.not_le.mpr hlarge)
  · rename_i hsmall
    rw [Option.some_inj, push, eq_comm]
    exact (and_iff_right (Nat.not_lt.mp hsmall)).symm

theorem foldl_addDigit_zero (field : List Byte) :
    field.foldl addDigit 0 = fieldValue field := by
  have hfold := foldl_addDigit field 0
  rwa [Nat.zero_mod] at hfold

theorem mem_splitOn {α : Type} [DecidableEq α] {d c : α} {s f : List α}
    (hf : f ∈ s.splitOn d) (hc : c ∈ f) : c ∈ s ∧ c ≠ d := by
  induction s generalizing f with
  | nil =>
      rw [List.splitOn_nil, List.mem_singleton] at hf
      rw [hf] at hc
      cases hc
  | cons x s ih =>
      rw [List.splitOn_cons_eq_if_modifyHead] at hf
      split at hf
      · rcases List.mem_cons.mp hf with rfl | hf
        · cases hc
        · obtain ⟨hmem, hne⟩ := ih hf hc
          exact ⟨List.mem_cons_of_mem x hmem, hne⟩
      · rename_i hx
        obtain ⟨g, gs, hsplit⟩ := List.exists_cons_of_ne_nil (List.splitOn_ne_nil d s)
        rw [hsplit] at hf ih
        rcases List.mem_cons.mp hf with rfl | hf
        · rcases List.mem_cons.mp hc with rfl | hc
          · exact ⟨List.mem_cons_self, by simpa using hx⟩
          · obtain ⟨hmem, hne⟩ := ih List.mem_cons_self hc
            exact ⟨List.mem_cons_of_mem x hmem, hne⟩
        · obtain ⟨hmem, hne⟩ := ih (List.mem_cons_of_mem g hf) hc
          exact ⟨List.mem_cons_of_mem x hmem, hne⟩

theorem inet_atonLoop_chars {s : List Byte} {dots acc addr : Nat} {r : Nat × Nat}
    (h : inet_atonLoop s dots acc addr = some r) :
    ∀ c ∈ s, isDigit c = true ∨ c = dot := by
  induction s generalizing dots acc addr with
  | nil => exact List.forall_mem_nil _
  | cons cc cp ih =>
      rw [inet_atonLoop] at h
      split_ifs at h with hdigit hdot hdots
      · exact List.forall_mem_cons.mpr ⟨.inl hdigit, ih h⟩
      · split at h
        · cases h
        · exact List.forall_mem_cons.mpr ⟨.inr hdot, ih h⟩

theorem inet_atonLoop_fields {f : List Byte} {fs : List (List Byte)}
    (hf : ∀ c ∈ f, isDigit c = true) (hfs : ∀ g ∈ fs, ∀ c ∈ g, isDigit c = true)
    (dots acc addr : Nat) (r : Nat × Nat) :
    inet_atonLoop ([dot].intercalate (f :: fs)) dots acc addr = some r ↔
      (fs = [] ∨ dots + fs.length ≤ 3) ∧ f.foldl addDigit acc ≤ 255 ∧
        (∀ g ∈ fs, fieldValue g ≤ 255) ∧
        r = (dots + fs.length,
          (fs.map fieldValue).foldl push (push addr (f.foldl addDigit acc))) := by
  induction fs generalizing f dots acc addr with
  | nil =>
      rw [List.intercalate_singleton, ← List.append_nil f, inet_atonLoop_digits hf,
        inet_atonLoop, List.append_nil]
      cases hend : endNumber (f.foldl addDigit acc) addr with
      | none =>
          refine iff_of_false (by simp) ?_
          rintro ⟨-, hle, -⟩
          rw [endNumber_eq_some.mpr ⟨hle, rfl⟩] at hend
          cases hend
      | some v =>
          obtain ⟨hle, rfl⟩ := endNumber_eq_some.mp hend
          simp [hle, eq_comm]
  | cons g gs ih =>
      obtain ⟨hg, hgs⟩ := List.forall_mem_cons.mp hfs
      have hdot : isDigit dot = false := by decide
      rw [List.intercalate_cons_cons, List.append_assoc, inet_atonLoop_digits hf,
        List.singleton_append, inet_atonLoop, if_neg (by simp [hdot]), if_pos rfl,
        List.forall_mem_cons, List.length_cons]
      split_ifs with hdots
      · refine iff_of_false (by simp) ?_
        rintro ⟨hmany | hmany, -⟩
        · cases hmany
        · omega
      · cases hend : endNumber (f.foldl addDigit acc) addr with
        | none =>
            refine iff_of_false (by simp) ?_
            rintro ⟨-, hle, -⟩
            rw [endNumber_eq_some.mpr ⟨hle, rfl⟩] at hend
            cases hend
        | some v =>
            obtain ⟨hle, rfl⟩ := endNumber_eq_some.mp hend
            have hcount : (gs = [] ∨ dots + 1 + gs.length ≤ 3) ↔
                (False ∨ dots + (gs.length + 1) ≤ 3) := by
              cases gs with
              | nil => simp; omega
              | cons h hs => simp; omega
            have hsum : dots + 1 + gs.length = dots + (gs.length + 1) := by omega
            rw [ih hg hgs, foldl_addDigit_zero, hcount, hsum, List.map_cons,
              List.foldl_cons]
            simp only [hle, true_and, and_assoc]

section Value

theorem push_eq {addr acc : Nat} (haddr : addr < 16777216) (hacc : acc ≤ 255) :
    push addr acc = addr * 256 + acc := by
  have hb : (UInt8.ofNat acc).toNat = acc := by
    rw [UInt8.toNat_ofNat', Nat.mod_eq_of_lt (by omega)]
  have hend := endNumber_byte (UInt8.ofNat acc) haddr
  rw [hb] at hend
  exact (endNumber_eq_some.mp hend).2.symm

theorem foldl_push_lt {xs : List Nat} (addr k : Nat) (hxs : ∀ x ∈ xs, x ≤ 255)
    (haddr : addr < 256 ^ k) (hk : k + xs.length ≤ 4) :
    xs.foldl push addr < 256 ^ (k + xs.length) := by
  induction xs generalizing addr k with
  | nil => exact haddr
  | cons x xs ih =>
      obtain ⟨hx, hxs⟩ := List.forall_mem_cons.mp hxs
      rw [List.length_cons] at hk ⊢
      have hle : 256 ^ k ≤ 256 ^ 3 := Nat.pow_le_pow_right (by decide) (by omega)
      have hnext : addr * 256 + x < 256 ^ (k + 1) := by
        rw [Nat.pow_succ]
        omega
      have hfold := ih (addr * 256 + x) (k + 1) hxs hnext (by omega)
      rwa [List.foldl_cons, push_eq (by omega) hx, Nat.add_comm xs.length 1, ← Nat.add_assoc]

theorem foldl_push_zeros {addr k : Nat} (haddr : addr * 256 ^ k < 256 ^ 4) :
    (List.replicate k 0).foldl push addr = addr * 256 ^ k := by
  induction k generalizing addr with
  | zero => rw [List.replicate_zero, List.foldl_nil, Nat.pow_zero, Nat.mul_one]
  | succ k ih =>
      have hmul : addr * 256 ^ (k + 1) = addr * 256 * 256 ^ k := by
        rw [Nat.pow_succ, Nat.mul_comm (256 ^ k), Nat.mul_assoc]
      rw [hmul] at haddr ⊢
      have hone := Nat.le_mul_of_pos_right (addr * 256) (Nat.pow_pos (n := k) (a := 256)
        (by decide))
      rw [List.replicate_succ, List.foldl_cons, push_eq (by omega) (Nat.zero_le 255),
        Nat.add_zero, ih haddr]

theorem shift_eq {addr k : Nat} (hk : k ≤ 3) (haddr : addr < 256 ^ (4 - k)) :
    (addr <<< (8 * k)) % ULONG = (List.replicate k 0).foldl push addr := by
  have hsmall : addr * 256 ^ k < 256 ^ 4 := by
    have hmul := Nat.mul_lt_mul_of_pos_right haddr
      (Nat.pow_pos (n := k) (a := 256) (by decide))
    rwa [← Nat.pow_add, Nat.sub_add_cancel (by omega)] at hmul
  have hmod : addr * 256 ^ k < ULONG := by
    rw [ULONG]
    omega
  rw [foldl_push_zeros hsmall, Nat.shiftLeft_eq, Nat.pow_mul]
  exact Nat.mod_eq_of_lt hmod

theorem htonl_four {xs : List Nat} (hlen : xs.length = 4) (hxs : ∀ x ∈ xs, x ≤ 255) :
    htonl (xs.foldl push 0) =
      ⟨UInt8.ofNat (xs.getD 0 0), UInt8.ofNat (xs.getD 1 0), UInt8.ofNat (xs.getD 2 0),
        UInt8.ofNat (xs.getD 3 0)⟩ := by
  match xs with
  | [x0, x1, x2, x3] =>
      have h0 := hxs x0 (by simp)
      have h1 := hxs x1 (by simp)
      have h2 := hxs x2 (by simp)
      have h3 := hxs x3 (by simp)
      have hval : ∀ {x : Nat}, x ≤ 255 → (UInt8.ofNat x).toNat = x := by
        intro x hx
        rw [UInt8.toNat_ofNat', Nat.mod_eq_of_lt (by omega)]
      have hbytes := htonl_bytes
        ⟨UInt8.ofNat x0, UInt8.ofNat x1, UInt8.ofNat x2, UInt8.ofNat x3⟩
      simp only [hval h0, hval h1, hval h2, hval h3] at hbytes
      rw [List.foldl_cons, List.foldl_cons, List.foldl_cons, List.foldl_cons, List.foldl_nil,
        push_eq (by decide) h0, push_eq (by omega) h1, push_eq (by omega) h2,
        push_eq (by omega) h3, Nat.zero_mul, Nat.zero_add, hbytes]
      rfl

theorem htonl_fields {fields : List (List Byte)} (h : IsDotted fields) (dots : Nat)
    (hdots : dots + 1 = fields.length) :
    htonl (if dots < 3 then
        (((fields.map fieldValue).foldl push 0) <<< (8 * (3 - dots))) % ULONG
      else (fields.map fieldValue).foldl push 0) = address fields := by
  obtain ⟨hcount, -, hbyte⟩ := h
  have hvalues : ∀ x ∈ fields.map fieldValue, x ≤ 255 := by
    intro x hx
    obtain ⟨f, hf, rfl⟩ := List.mem_map.mp hx
    exact hbyte f hf
  have hlt := foldl_push_lt 0 0 hvalues (by decide) (by simpa using hcount)
  rw [List.length_map, Nat.zero_add] at hlt
  have hpad : (if dots < 3 then
        (((fields.map fieldValue).foldl push 0) <<< (8 * (3 - dots))) % ULONG
      else (fields.map fieldValue).foldl push 0) =
      (fields.map fieldValue ++ List.replicate (3 - dots) 0).foldl push 0 := by
    rw [List.foldl_append]
    split_ifs with hfew
    · refine shift_eq (by omega) ?_
      have hexp : 4 - (3 - dots) = fields.length := by omega
      rwa [hexp]
    · have hnone : 3 - dots = 0 := by omega
      rw [hnone]
      rfl
  have hall : ∀ x ∈ fields.map fieldValue ++ List.replicate (3 - dots) 0, x ≤ 255 := by
    intro x hx
    rcases List.mem_append.mp hx with hx | hx
    · exact hvalues x hx
    · rw [List.eq_of_mem_replicate hx]
      exact Nat.zero_le 255
  have hget : ∀ i, (fields.map fieldValue ++ List.replicate (3 - dots) 0).getD i 0 =
      fieldValue (fields.getD i []) := by
    intro i
    have hzero : fieldValue [] = 0 := rfl
    by_cases hi : i < fields.length
    · rw [List.getD_append _ _ _ _ (by simpa using hi), ← hzero, List.getD_map]
    · rw [List.getD_append_right _ _ _ _ (by simpa using hi), List.getD_eq_default fields _
        (by omega), hzero]
      simp [List.getD_eq_getElem?_getD, List.getElem?_replicate]
      split <;> rfl
  rw [hpad, htonl_four (by simp; omega) hall, hget, hget, hget, hget]
  rfl

end Value

/-- The strings that `inet_aton` accepts and what it makes of them. Every other
string is rejected. -/
theorem inet_aton_eq_some_iff (cp : List Byte) (a : InAddr) :
    inet_aton cp = some a ↔ ∃ fields, fields ≠ [] ∧ IsDotted fields ∧
      cString cp = [dot].intercalate fields ∧ a = address fields := by
  constructor
  · intro haton
    rw [inet_aton] at haton
    split at haton
    · cases haton
    · rename_i dots addr hloop
      have hchars := inet_atonLoop_chars hloop
      have hsplit : [dot].intercalate ((cString cp).splitOn dot) = cString cp :=
        List.intercalate_splitOn dot
      have hdigits : ∀ f ∈ (cString cp).splitOn dot, ∀ c ∈ f, isDigit c = true := by
        intro f hf c hc
        obtain ⟨hmem, hne⟩ := mem_splitOn hf hc
        exact (hchars c hmem).resolve_right hne
      obtain ⟨f, fs, hfields⟩ := List.exists_cons_of_ne_nil
        (List.splitOn_ne_nil dot (cString cp))
      rw [hfields] at hsplit hdigits
      obtain ⟨hf, hfs⟩ := List.forall_mem_cons.mp hdigits
      rw [← hsplit, inet_atonLoop_fields hf hfs, foldl_addDigit_zero] at hloop
      obtain ⟨hcount, hle, hbytes, hr⟩ := hloop
      obtain ⟨rfl, rfl⟩ := Prod.mk.inj hr
      have hdotted : IsDotted (f :: fs) := by
        refine ⟨?_, hdigits, List.forall_mem_cons.mpr ⟨hle, hbytes⟩⟩
        rw [List.length_cons]
        rcases hcount with rfl | hcount
        · exact Nat.succ_le_succ (Nat.zero_le 3)
        · omega
      refine ⟨f :: fs, List.cons_ne_nil f fs, hdotted, hsplit.symm, ?_⟩
      rw [← htonl_fields hdotted (0 + fs.length) (by rw [List.length_cons]; omega)]
      exact (Option.some_inj.mp haton).symm
  · rintro ⟨fields, hne, hdotted, htext, rfl⟩
    obtain ⟨f, fs, rfl⟩ := List.exists_cons_of_ne_nil hne
    obtain ⟨hcount, hdigits, hbytes⟩ := id hdotted
    obtain ⟨hf, hfs⟩ := List.forall_mem_cons.mp hdigits
    obtain ⟨hle, hbytes⟩ := List.forall_mem_cons.mp hbytes
    rw [List.length_cons] at hcount
    have hloop := (inet_atonLoop_fields hf hfs 0 0 0 _).mpr
      ⟨.inr (by omega), by rwa [foldl_addDigit_zero], hbytes, rfl⟩
    rw [inet_aton, htext, hloop, foldl_addDigit_zero]
    exact congrArg some
      (htonl_fields hdotted (0 + fs.length) (by rw [List.length_cons]; omega))

/-- `"127.1"`: the fields that are there are the first ones. -/
example : inet_aton [49, 50, 55, 46, 49, 0] = some ⟨127, 1, 0, 0⟩ := by decide

/-- `"18446744073709551617"`: 2^64 + 1 -/
example : inet_aton [49, 56, 52, 52, 54, 55, 52, 52, 48, 55, 51, 55, 48, 57, 53, 53, 49, 54,
    49, 55, 0] = some ⟨1, 0, 0, 0⟩ := by decide

end MyUnp.InetAton
