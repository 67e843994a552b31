import MyUnp.TransitionSystem

namespace MyUnp.ChildProcesses

open MyUnp.TransitionSystem

universe u

/-- `live` are the children that have not terminated, running or stopped;
`zombies` have terminated and were not waited for. -/
structure Children (Pid : Type u) where
  live : List Pid
  zombies : List Pid
  pending : Bool
  deriving DecidableEq

namespace Children

variable {Pid : Type u} [DecidableEq Pid] {c d : Children Pid} {p : Pid}

def empty : Children Pid := ⟨[], [], false⟩

def fork (c : Children Pid) (p : Pid) : Option (Children Pid) :=
  if p ∉ c.live ∧ p ∉ c.zombies then some { c with live := c.live ++ [p] }
  else none

def exit (c : Children Pid) (p : Pid) : Option (Children Pid) :=
  if p ∈ c.live then some ⟨c.live.erase p, c.zombies ++ [p], true⟩ else none

def stop (c : Children Pid) (p : Pid) : Option (Children Pid) :=
  if p ∈ c.live then some { c with pending := true } else none

def deliver (c : Children Pid) : Option (Children Pid) :=
  if c.pending = true then some { c with pending := false } else none

def collected (c : Children Pid) (p : Pid) : Children Pid :=
  { c with zombies := c.zombies.erase p }

def reap (c : Children Pid) (p : Pid) : Option (Children Pid) :=
  if p ∈ c.zombies then some (c.collected p) else none

theorem fork_eq_some (h : c.fork p = some d) :
    d.zombies = c.zombies ∧ d.pending = c.pending := by
  obtain ⟨-, rfl⟩ := guard_eq_some.mp h
  exact ⟨rfl, rfl⟩

theorem fork_live (h : c.fork p = some d) : p ∉ c.live ∧ d.live = c.live ++ [p] := by
  obtain ⟨⟨hlive, -⟩, rfl⟩ := guard_eq_some.mp h
  exact ⟨hlive, rfl⟩

theorem fork_of_fresh (hlive : p ∉ c.live) (hzombies : p ∉ c.zombies) :
    ∃ d, c.fork p = some d := ⟨_, if_pos ⟨hlive, hzombies⟩⟩

theorem exit_of_not_mem (h : p ∉ c.live) : c.exit p = none := if_neg h

theorem exit_of_mem (h : p ∈ c.live) : ∃ d, c.exit p = some d := ⟨_, if_pos h⟩

theorem exit_live (h : c.exit p = some d) (hlive : c.live.Nodup) :
    d.live.Nodup ∧ ∀ q, q ∈ d.live ↔ q ≠ p ∧ q ∈ c.live := by
  obtain ⟨-, rfl⟩ := guard_eq_some.mp h
  exact ⟨hlive.erase p, fun q => hlive.mem_erase_iff⟩

theorem exit_eq_some (h : c.exit p = some d) :
    d.zombies = c.zombies ++ [p] ∧ d.pending = true := by
  obtain ⟨-, rfl⟩ := guard_eq_some.mp h
  exact ⟨rfl, rfl⟩

theorem stop_eq_some (h : c.stop p = some d) :
    d.live = c.live ∧ d.zombies = c.zombies ∧ d.pending = true := by
  obtain ⟨-, rfl⟩ := guard_eq_some.mp h
  exact ⟨rfl, rfl, rfl⟩

omit [DecidableEq Pid] in
theorem deliver_eq_some (h : c.deliver = some d) :
    d.live = c.live ∧ d.zombies = c.zombies ∧ d.pending = false := by
  obtain ⟨-, rfl⟩ := guard_eq_some.mp h
  exact ⟨rfl, rfl, rfl⟩

theorem length_collected (h : p ∈ c.zombies) :
    (c.collected p).zombies.length + 1 = c.zombies.length := by
  have hpos := List.length_pos_of_mem h
  change (c.zombies.erase p).length + 1 = c.zombies.length
  rw [List.length_erase_of_mem h]
  omega

theorem reap_eq_some (h : c.reap p = some d) :
    d.pending = c.pending ∧ d.zombies.length + 1 = c.zombies.length := by
  obtain ⟨hmem, rfl⟩ := guard_eq_some.mp h
  exact ⟨rfl, length_collected hmem⟩

theorem reap_live (h : c.reap p = some d) : d.live = c.live := by
  obtain ⟨-, rfl⟩ := guard_eq_some.mp h
  rfl

theorem reap_of_mem (h : p ∈ c.zombies) : c.reap p = some (c.collected p) :=
  if_pos h

end Children

end MyUnp.ChildProcesses
