import MyUnp.SctpStrCli

namespace MyUnp.SctpStrCliReply

open MyUnp.AccessSpan MyUnp.MemoryBlock MyUnp.Printf MyUnp.SctpStrCli
open MyUnp.Unp hiding MAXLINE

/-- Just the reply is printed, up to a NUL in it, and no element of `recvline` touched
that does not belong to it. -/
def Shows (reply : List Byte) (p : Printed) : Prop :=
  p.text = cString reply ∧ Inside reply.length p.touched

variable (recvline : RecvLine) (beyond data : List Byte)

def replyOf (data : List Byte) : List Byte := data.take MAXLINE

theorem replyOf_length_le : (replyOf data).length ≤ MAXLINE := List.length_take_le _ _

theorem received_cells :
    (received recvline data).1 = replyOf data ++ recvline.1.drop (replyOf data).length := by
  apply store_zero
  rw [recvline.2]
  exact replyOf_length_le data

theorem chapter9_shows_iff :
    Shows (replyOf data)
        (printReply .chapter9 beyond (received recvline data) (replyOf data).length) ↔
      ∀ b ∈ replyOf data, b = blank := by
  generalize replyOf data = reply
  have hprinted : printReply .chapter9 beyond (received recvline data) reply.length =
      ⟨List.replicate reply.length blank, [.front 0]⟩ := by
    rw [printReply, formatS_zero]
  have hinside : Inside reply.length [Span.front 0] :=
    inside_cons.mpr ⟨.inl rfl, inside_nil⟩
  rw [hprinted, Shows, and_iff_left hinside]
  constructor
  · intro htext
    have hlen : (cString reply).length = reply.length := by
      rw [← htext, List.length_replicate]
    rw [List.IsPrefix.eq_of_length (cString_prefix_self reply) hlen] at htext
    exact (List.eq_replicate_iff.mp htext.symm).2
  · intro hblank
    have hzero : (0 : Byte) ∉ reply := by
      intro hmem
      exact absurd (hblank 0 hmem) (by decide)
    rw [cString_eq_self hzero]
    exact (List.eq_replicate_iff.mpr ⟨rfl, hblank⟩).symm

theorem putNul_received {front : List Byte} {last : Byte}
    (hreply : replyOf data = front ++ [last]) :
    ∃ rest, (putNul (received recvline data) ((replyOf data).length - 1)).1 =
      front ++ 0 :: rest := by
  have hlen : (replyOf data).length = front.length + 1 := by
    rw [hreply, List.length_append, List.length_singleton]
  have hindex : ((replyOf data).length - 1 : Int) = front.length := by omega
  refine ⟨recvline.1.drop (replyOf data).length, ?_⟩
  rw [hindex, putNul, if_neg (by omega)]
  change (received recvline data).1.set (front.length : Int).toNat 0 = _
  rw [received_cells, hreply, Int.toNat_natCast, List.append_assoc,
    List.set_append_right _ _ (Nat.le_refl _), Nat.sub_self]
  rfl

theorem client_shows_iff :
    Shows (replyOf data)
        (printReply .client beyond (received recvline data) (replyOf data).length) ↔
      ∃ front, replyOf data = front ++ [newline] ∧ 0 ∉ front := by
  rcases List.eq_nil_or_concat' (replyOf data) with hnil | ⟨front, last, hreply⟩
  · rw [hnil]
    refine iff_of_false ?_ ?_
    -- an empty reply has its NUL in front of the array
    · rintro ⟨_, hinside⟩
      have hcell := Span.cell_inside.mp (inside_cons.mp hinside).1
      exact absurd hcell.1 (by decide)
    · rintro ⟨front, heq, _⟩
      exact absurd heq.symm (List.append_ne_nil_of_right_ne_nil _ (List.cons_ne_nil _ _))
  · have hlen : (replyOf data).length = front.length + 1 := by
      rw [hreply, List.length_append, List.length_singleton]
    obtain ⟨rest, hcells⟩ := putNul_received recvline data hreply
    have hstr : cString ((putNul (received recvline data)
        ((replyOf data).length - 1)).1 ++ beyond) = cString front := by
      rw [hcells, List.append_assoc, List.cons_append, cString_append_nul]
    have hread := formatS_read_le 0 ((putNul (received recvline data)
      ((replyOf data).length - 1)).1 ++ beyond)
    rw [hstr] at hread
    have hinside : Inside (replyOf data).length
        (printReply .client beyond (received recvline data) (replyOf data).length).touched := by
      have hle := (cString_prefix_self front).length_le
      refine inside_cons.mpr ⟨Span.cell_inside.mpr ⟨by omega, by omega⟩,
        inside_cons.mpr ⟨Span.front_inside.mpr ?_, inside_nil⟩⟩
      omega
    rw [Shows, and_iff_left hinside, printReply]
    dsimp only
    rw [formatS_none_text, hstr, hreply]
    constructor
    · intro htext
      by_cases hzero : 0 ∈ front
      · rw [cString_append_of_mem hzero] at htext
        exact absurd (List.append_right_eq_self.mp htext) (List.cons_ne_nil _ _)
      · rw [cString_append_of_not_mem hzero, cString_eq_self hzero] at htext
        have hlast : [newline] = cString [last] := List.append_cancel_left htext
        have hpre := cString_prefix_self [last]
        rw [← hlast] at hpre
        obtain rfl := List.singleton_inj.mp (hpre.eq_of_length rfl)
        exact ⟨front, rfl, hzero⟩
    · rintro ⟨front', heq, hzero⟩
      obtain ⟨rfl, _⟩ := List.append_inj' heq rfl
      rw [heq, cString_append_of_not_mem hzero, cString_eq_self hzero]
      rfl

theorem getLocalAndPeerAddr_not_shows :
    ¬ Shows (replyOf data)
      (printReply .getLocalAndPeerAddr beyond (received recvline data)
        (replyOf data).length) := by
  rintro ⟨htext, _⟩
  have hlen := congrArg List.length htext
  have hle := (cString_prefix_self (replyOf data)).length_le
  rw [printReply] at hlen
  dsimp only at hlen
  rw [List.length_append, formatS_length, List.length_singleton] at hlen
  omega

/-- Whatever `recvline` and the memory behind it hold: the client of Chapter 9 shows
only replies of blanks, that of `Client` only replies whose last byte is a newline and
that have no NUL before it, and that of `GetLocalAndPeerAddr` none. -/
theorem reply_shown_iff (recvline : RecvLine) (beyond data : List Byte) :
    (Shows (replyOf data)
        (printReply .chapter9 beyond (received recvline data) (replyOf data).length) ↔
      ∀ b ∈ replyOf data, b = blank) ∧
    (Shows (replyOf data)
        (printReply .client beyond (received recvline data) (replyOf data).length) ↔
      ∃ front, replyOf data = front ++ [newline] ∧ 0 ∉ front) ∧
    ¬ Shows (replyOf data)
      (printReply .getLocalAndPeerAddr beyond (received recvline data)
        (replyOf data).length) :=
  ⟨chapter9_shows_iff recvline beyond data, client_shows_iff recvline beyond data,
    getLocalAndPeerAddr_not_shows recvline beyond data⟩

/-- The reply `"[0]a\n"` comes out as five blanks. -/
theorem reply_printed_as_blanks :
    ¬ ∀ version recvline beyond data,
      Shows (replyOf data)
        (printReply version beyond (received recvline data) (replyOf data).length) := by
  intro hall
  have hblank := (chapter9_shows_iff ⟨List.replicate MAXLINE 0, List.length_replicate⟩ []
    [91, 48, 93, 97, 10]).mp (hall _ _ _ _)
  exact absurd (hblank 91 (by decide)) (by decide)

end MyUnp.SctpStrCliReply
