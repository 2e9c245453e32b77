import Mathlib

/-! Sequential programs over shared state.

A program performs atomic operations one after another and goes on according to their answers.
It runs alone, or with disturbances of the shared state between any two of its operations; which
disturbances may happen can depend on the operation it is about to perform. -/

namespace Fide

/-- Finished with a result, or about to perform an operation. -/
inductive Program (Op : Type) (Answer : Op → Type) (α : Type)
  | done (result : α)
  | perform (op : Op) (next : Answer op → Program Op Answer α)

namespace Program

variable {Op : Type} {Answer : Op → Type} {α β σ : Type}

def bind : Program Op Answer α → (α → Program Op Answer β) → Program Op Answer β
  | done result, rest => rest result
  | perform op next, rest => perform op fun answer => (next answer).bind rest

/-- The operation a program is about to perform. -/
def pending : Program Op Answer α → Option Op
  | done _ => none
  | perform op _ => some op

def result : Program Op Answer α → Option α
  | done result => some result
  | perform _ _ => none

/-- The result and the final state when nothing happens between the operations. -/
def run (exec : (op : Op) → σ → Answer op × σ) : Program Op Answer α → σ → α × σ
  | done result, s => (result, s)
  | perform op next, s => (next (exec op s).1).run exec (exec op s).2

theorem run_bind (exec : (op : Op) → σ → Answer op × σ) (p : Program Op Answer α)
    (rest : α → Program Op Answer β) (s : σ) :
    (p.bind rest).run exec s = (rest (p.run exec s).1).run exec (p.run exec s).2 := by
  induction p generalizing s with
  | done result => rfl
  | perform op next ih => exact ih (exec op s).1 (exec op s).2

/-- Every result the program can come to has the property. -/
def Returns (post : α → Prop) : Program Op Answer α → Prop
  | done result => post result
  | perform _ next => ∀ answer, (next answer).Returns post

theorem returns_bind {post : β → Prop} (p : Program Op Answer α)
    {rest : α → Program Op Answer β} (second : ∀ result, (rest result).Returns post) :
    (p.bind rest).Returns post := by
  induction p with
  | done result => exact second result
  | perform op next ih => exact ih

/-! ### Programs that keep to a rule -/

section Obeys

/-- The operations performed so far with their answers, the last one first. -/
abbrev History (Op : Type) (Answer : Op → Type) : Type := List ((op : Op) × Answer op)

variable (permitted : History Op Answer → Op → Bool)

/-- Whatever the answers, every operation is permitted after those before it. -/
def Obeys : History Op Answer → Program Op Answer α → Prop
  | _, done _ => True
  | past, perform op next =>
      permitted past op = true ∧ ∀ answer, (next answer).Obeys (⟨op, answer⟩ :: past)

variable {permitted}

theorem obeys_bind {p : Program Op Answer α} {rest : α → Program Op Answer β}
    {past : History Op Answer} (first : p.Obeys permitted past)
    (second : ∀ result past, (rest result).Obeys permitted past) :
    (p.bind rest).Obeys permitted past := by
  induction p generalizing past with
  | done result => exact second result past
  | perform op next ih => exact ⟨first.1, fun answer => ih answer (first.2 answer)⟩

end Obeys

/-! ### Programs under disturbance -/

section Ensures

variable (act : (op : Op) → σ → Answer op → σ → Prop) (disturb : Option Op → σ → σ → Prop)

/-- Whatever disturbs the program on its way, it can only finish with the postcondition. -/
def Ensures (post : α → σ → Prop) : Program Op Answer α → σ → Prop
  | done result, s => post result s
  | perform op next, s => ∀ s', Relation.ReflTransGen (disturb (some op)) s s' →
      ∀ answer s'', act op s' answer s'' → (next answer).Ensures post s''

variable {act disturb}

theorem Ensures.disturbed {post : α → σ → Prop}
    (stable : ∀ result s s', post result s → disturb none s s' → post result s')
    {p : Program Op Answer α} {s s' : σ} (ensures : p.Ensures act disturb post s)
    (disturbance : disturb p.pending s s') : p.Ensures act disturb post s' := by
  cases p with
  | done result => exact stable result s s' ensures disturbance
  | perform op next => exact fun _ later => ensures _ (.head disturbance later)

theorem Ensures.acts {post : α → σ → Prop} {op : Op} {next : Answer op → Program Op Answer α}
    {s s' : σ} {answer : Answer op} (ensures : (perform op next).Ensures act disturb post s)
    (action : act op s answer s') : (next answer).Ensures act disturb post s' :=
  ensures s .refl answer s' action

theorem Ensures.mono {post post' : α → σ → Prop} {p : Program Op Answer α} {s : σ}
    (ensures : p.Ensures act disturb post s)
    (weaker : ∀ result s, post result s → post' result s) : p.Ensures act disturb post' s := by
  induction p generalizing s with
  | done result => exact weaker result s ensures
  | perform op next ih =>
      intro s' star answer s'' action
      exact ih answer (ensures s' star answer s'' action)

theorem ensures_always {post : α → σ → Prop} (always : ∀ result s, post result s)
    (p : Program Op Answer α) (s : σ) : p.Ensures act disturb post s := by
  induction p generalizing s with
  | done result => exact always result s
  | perform op next ih => exact fun _ _ answer s'' _ => ih answer s''

/-- A run with nothing in between is one of the ways to finish. -/
theorem Ensures.run {post : α → σ → Prop} {exec : (op : Op) → σ → Answer op × σ}
    (acts : ∀ op s, act op s (exec op s).1 (exec op s).2) {p : Program Op Answer α} {s : σ}
    (ensures : p.Ensures act disturb post s) : post (p.run exec s).1 (p.run exec s).2 := by
  induction p generalizing s with
  | done result => exact ensures
  | perform op next ih => exact ih (exec op s).1 (ensures.acts (acts op s))

/-- The rule for one operation: an invariant that disturbances keep until it is performed. -/
theorem ensures_perform {post : α → σ → Prop} {op : Op} {next : Answer op → Program Op Answer α}
    {s : σ} (inv : σ → Prop) (holds : inv s)
    (stable : ∀ s s', inv s → disturb (some op) s s' → inv s')
    (step : ∀ s answer s', inv s → act op s answer s' →
      (next answer).Ensures act disturb post s') :
    (perform op next).Ensures act disturb post s := by
  intro s' star
  have kept : inv s' := by
    induction star with
    | refl => exact holds
    | tail _ last ih => exact stable _ _ ih last
  intro answer s'' action
  exact step s' answer s'' kept action

/-- The rule for sequences. -/
theorem ensures_bind {post : β → σ → Prop} {p : Program Op Answer α}
    {rest : α → Program Op Answer β} {s : σ}
    (ensures : p.Ensures act disturb (fun result s => (rest result).Ensures act disturb post s) s) :
    (p.bind rest).Ensures act disturb post s := by
  induction p generalizing s with
  | done result => exact ensures
  | perform op next ih =>
      intro s' star answer s'' action
      exact ih answer (ensures s' star answer s'' action)

end Ensures

end Program

end Fide
