import Mathlib

/-! Counting arrivals by interval.

A ledger is what a per-source counter with periodic resets is meant to hold: the arrivals since
the last closing, those of the interval before it, and how often an interval was closed. Each
arrival remembers whether the counter found room for it. -/

namespace Fide

structure Arrival (α : Type) where
  source : α
  stored : Bool
  deriving DecidableEq, Repr

structure Ledger (α : Type) where
  current : List (Arrival α)
  previous : List (Arrival α)
  closings : Nat

namespace Ledger

variable {α : Type}

def empty : Ledger α := ⟨[], [], 0⟩

def arrive (ledger : Ledger α) (arrival : Arrival α) : Ledger α :=
  { ledger with current := arrival :: ledger.current }

def close (ledger : Ledger α) : Ledger α := ⟨[], ledger.current, ledger.closings + 1⟩

/-- The arrivals for which no room was left. -/
def refused (interval : List (Arrival α)) : Nat := interval.countP (fun a => !a.stored)

variable [DecidableEq α]

def sent (interval : List (Arrival α)) (s : α) : Nat := interval.countP (fun a => a.source = s)

/-- The arrivals of a source that found room. -/
def stored (interval : List (Arrival α)) (s : α) : Nat :=
  interval.countP (fun a => a.source = s ∧ a.stored)

@[simp] theorem stored_nil (s : α) : stored [] s = 0 := rfl

theorem stored_cons (a : Arrival α) (interval : List (Arrival α)) (s : α) :
    stored (a :: interval) s = stored interval s + if a.source = s ∧ a.stored then 1 else 0 := by
  simp [stored, List.countP_cons]

omit [DecidableEq α] in
theorem refused_cons (a : Arrival α) (interval : List (Arrival α)) :
    refused (a :: interval) = refused interval + if a.stored then 0 else 1 := by
  cases a with
  | mk source stored => cases stored <;> simp [refused]

/-- With room for every arrival the stored arrivals of a source are all it sent. -/
theorem stored_eq_sent (interval : List (Arrival α)) (room : refused interval = 0) (s : α) :
    stored interval s = sent interval s := by
  have all : ∀ a ∈ interval, a.stored = true := by
    intro a member
    have kept := List.countP_eq_zero.mp room a member
    simpa using kept
  unfold stored sent
  apply List.countP_congr
  intro a member
  simp [all a member]

end Ledger

end Fide
