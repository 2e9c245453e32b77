import Fide.Program

/-! Programs that run at the same time over one shared state.

A pool steps by any one of its programs performing the operation it has come to. Operations that
must not fall between two operations of another program are ruled out by a clash relation; what
each program relies on between its operations is then proved for it alone. -/

namespace Fide

namespace Program

variable {Op : Type} {Answer : Op → Type} {α β σ K : Type}

/-- One program for each key, in order, threading a result. -/
def forEach (body : β → K → Program Op Answer β) : List K → β → Program Op Answer β
  | [], result => done result
  | key :: rest, result => (body result key).bind fun result => forEach body rest result

theorem run_forEach (exec : (op : Op) → σ → Answer op × σ) (body : β → K → Program Op Answer β)
    (keys : List K) (result : β) (s : σ) :
    (forEach body keys result).run exec s =
      keys.foldl (fun acc key => (body acc.1 key).run exec acc.2) (result, s) := by
  induction keys generalizing result s with
  | nil => rfl
  | cons key rest ih =>
      rw [forEach, run_bind, ih]
      rfl

/-! ### How often operations are performed -/

section Performs

variable (act : (op : Op) → σ → Answer op → σ → Prop) (weight : Op → Nat)

/-- On every path the answers allow, the weights of the operations add up to the given number. -/
def Performs : Program Op Answer α → Nat → Prop
  | done _, n => n = 0
  | perform op next, n => ∃ rest, n = weight op + rest ∧
      ∀ s answer s', act op s answer s' → (next answer).Performs rest

variable {act weight}

theorem performs_done (result : α) :
    (done result : Program Op Answer α).Performs act weight 0 := rfl

theorem performs_perform {op : Op} {next : Answer op → Program Op Answer α} {w n : Nat}
    (weighs : weight op = w)
    (rest : ∀ s answer s', act op s answer s' → (next answer).Performs act weight n) :
    (perform op next).Performs act weight (w + n) :=
  ⟨n, by rw [weighs], rest⟩

theorem performs_weightless {op : Op} {next : Answer op → Program Op Answer α} {n : Nat}
    (weightless : weight op = 0)
    (rest : ∀ s answer s', act op s answer s' → (next answer).Performs act weight n) :
    (perform op next).Performs act weight n :=
  ⟨n, by rw [weightless, Nat.zero_add], rest⟩

theorem performs_bind {p : Program Op Answer α} {rest : α → Program Op Answer β} {m n : Nat}
    (first : p.Performs act weight m) (second : ∀ result, (rest result).Performs act weight n) :
    (p.bind rest).Performs act weight (m + n) := by
  induction p generalizing m with
  | done result =>
      have none : m = 0 := first
      rw [none, Nat.zero_add]
      exact second result
  | perform op next ih =>
      obtain ⟨left, sum, later⟩ := first
      refine ⟨left + n, by rw [sum, Nat.add_assoc], ?_⟩
      intro s answer s' action
      exact ih answer (later s answer s' action)

theorem performs_forEach {body : β → K → Program Op Answer β}
    (weightless : ∀ result key, (body result key).Performs act weight 0) (keys : List K)
    (result : β) : (forEach body keys result).Performs act weight 0 := by
  induction keys generalizing result with
  | nil => rfl
  | cons key rest ih => exact performs_bind (weightless result key) ih

end Performs

/-! ### Operations that are never performed -/

section Avoids

variable (bad : Op → Bool)

def Avoids : Program Op Answer α → Prop
  | done _ => True
  | perform op next => bad op = false ∧ ∀ answer, (next answer).Avoids

variable {bad}

theorem avoids_bind {p : Program Op Answer α} {rest : α → Program Op Answer β}
    (first : p.Avoids bad) (second : ∀ result, (rest result).Avoids bad) :
    (p.bind rest).Avoids bad := by
  induction p with
  | done result => exact second result
  | perform op next ih => exact ⟨first.1, fun answer => ih answer (first.2 answer)⟩

/-- What a program never performs is no concern of a rule. -/
theorem Avoids.obeys {permitted : History Op Answer → Op → Bool} {p : Program Op Answer α}
    (avoids : p.Avoids bad) (others : ∀ past op, bad op = false → permitted past op = true)
    (past : History Op Answer) : p.Obeys permitted past := by
  induction p generalizing past with
  | done result => trivial
  | perform op next ih =>
      exact ⟨others past op avoids.1, fun answer => ih answer (avoids.2 answer) _⟩

theorem Avoids.pending {p : Program Op Answer α} (avoids : p.Avoids bad) {op : Op}
    (pending : p.pending = some op) : bad op = false := by
  cases p with
  | done result => cases pending
  | perform first next =>
      cases pending
      exact avoids.1

theorem Avoids.mono {bad' : Op → Bool} {p : Program Op Answer α} (avoids : p.Avoids bad)
    (fewer : ∀ op, bad op = false → bad' op = false) : p.Avoids bad' := by
  induction p with
  | done result => trivial
  | perform op next ih => exact ⟨fewer op avoids.1, fun answer => ih answer (avoids.2 answer)⟩

theorem avoids_forEach {body : β → K → Program Op Answer β}
    (each : ∀ result key, (body result key).Avoids bad) (keys : List K) (result : β) :
    (forEach body keys result).Avoids bad := by
  induction keys generalizing result with
  | nil => trivial
  | cons key rest ih => exact avoids_bind (each result key) ih

end Avoids

/-! ### What a program relies on -/

section Meets

variable (act : (op : Op) → σ → Answer op → σ → Prop) (pre : Op → σ → Prop)
  (clash : Op → Op → Bool)

/-- Another program performs an operation that does not clash with the pending one. -/
def Between (pending : Op) (s s' : σ) : Prop :=
  ∃ op answer, clash pending op = false ∧ pre op s ∧ act op s answer s'

/-- Whatever comes between its operations, each one finds its precondition. -/
def Meets : Program Op Answer α → σ → Prop
  | done _, _ => True
  | perform op next, s => ∀ s', Relation.ReflTransGen (Between act pre clash op) s s' →
      pre op s' ∧ ∀ answer s'', act op s' answer s'' → (next answer).Meets s''

variable {act pre clash}

theorem meets_done (result : α) (s : σ) :
    (done result : Program Op Answer α).Meets act pre clash s := trivial

theorem Meets.ready {op : Op} {next : Answer op → Program Op Answer α} {s : σ}
    (meets : (perform op next).Meets act pre clash s) : pre op s :=
  (meets s .refl).1

theorem Meets.acts {op : Op} {next : Answer op → Program Op Answer α} {s s' : σ}
    {answer : Answer op} (meets : (perform op next).Meets act pre clash s)
    (action : act op s answer s') : (next answer).Meets act pre clash s' :=
  (meets s .refl).2 answer s' action

theorem Meets.between {p : Program Op Answer α} {s s' : σ} {op : Op} {answer : Answer op}
    (meets : p.Meets act pre clash s) (free : ∀ q, p.pending = some q → clash q op = false)
    (ready : pre op s) (action : act op s answer s') : p.Meets act pre clash s' := by
  cases p with
  | done result => trivial
  | perform q next =>
      exact fun later star => meets later (.head ⟨op, answer, free q rfl, ready, action⟩ star)

/-- The rule for one operation: an assertion that holds until it is performed and gives its
precondition. -/
theorem meets_perform {op : Op} {next : Answer op → Program Op Answer α} {s : σ}
    (inv : σ → Prop) (holds : inv s)
    (stable : ∀ s s', inv s → Between act pre clash op s s' → inv s')
    (ready : ∀ s, inv s → pre op s)
    (step : ∀ s answer s', inv s → act op s answer s' → (next answer).Meets act pre clash s') :
    (perform op next).Meets act pre clash s := by
  intro s' star
  have kept : inv s' := by
    induction star with
    | refl => exact holds
    | tail _ last ih => exact stable _ _ ih last
  exact ⟨ready s' kept, fun answer s'' action => step s' answer s'' kept action⟩

/-- An operation that needs nothing, before a program that relies on nothing. -/
theorem meets_free {op : Op} {next : Answer op → Program Op Answer α} (ready : ∀ s, pre op s)
    (rest : ∀ answer s, (next answer).Meets act pre clash s) (s : σ) :
    (perform op next).Meets act pre clash s :=
  fun s' _ => ⟨ready s', fun answer s'' _ => rest answer s''⟩

theorem meets_bind {p : Program Op Answer α} {rest : α → Program Op Answer β} {s : σ}
    (first : p.Meets act pre clash s)
    (second : ∀ result s, (rest result).Meets act pre clash s) :
    (p.bind rest).Meets act pre clash s := by
  induction p generalizing s with
  | done result => exact second result s
  | perform op next ih =>
      intro s' star
      exact ⟨(first s' star).1, fun answer s'' action => ih answer ((first s' star).2 _ _ action)⟩

theorem meets_forEach {body : β → K → Program Op Answer β}
    (each : ∀ result key s, (body result key).Meets act pre clash s) (keys : List K)
    (result : β) (s : σ) : (forEach body keys result).Meets act pre clash s := by
  induction keys generalizing result s with
  | nil => trivial
  | cons key rest ih => exact meets_bind (each result key s) ih

end Meets

end Program

/-! ### Pools -/

structure Pool (ι Op : Type) (Answer : Op → Type) (α σ : Type) where
  shared : σ
  thread : ι → Program Op Answer α

namespace Pool

open Program

variable {ι Op : Type} {Answer : Op → Type} {α σ : Type} [DecidableEq ι]
  (act : (op : Op) → σ → Answer op → σ → Prop) (pre : Op → σ → Prop) (clash : Op → Op → Bool)

/-- Any program performs its operation, unless that clashes with one another program has come
to. -/
inductive Step : Pool ι Op Answer α σ → Pool ι Op Answer α σ → Prop
  | perform (pool : Pool ι Op Answer α σ) (i : ι) (op : Op)
      (next : Answer op → Program Op Answer α) (answer : Answer op) (s : σ)
      (pending : pool.thread i = .perform op next) (action : act op pool.shared answer s)
      (quiet : ∀ j, j ≠ i → ∀ q, (pool.thread j).pending = some q → clash q op = false) :
      Step pool ⟨s, Function.update pool.thread i (next answer)⟩

def Reaches : Pool ι Op Answer α σ → Pool ι Op Answer α σ → Prop :=
  Relation.ReflTransGen (Step act clash)

def Finished (pool : Pool ι Op Answer α σ) : Prop := ∀ i, (pool.thread i).pending = none

def AllMeet (pool : Pool ι Op Answer α σ) : Prop :=
  ∀ i, (pool.thread i).Meets act pre clash pool.shared

variable {act pre clash}

theorem AllMeet.step {pool pool' : Pool ι Op Answer α σ} (meet : pool.AllMeet act pre clash)
    (step : Step act clash pool pool') : pool'.AllMeet act pre clash := by
  cases step with
  | perform i op next answer s pending action quiet =>
      have own := meet i
      rw [pending] at own
      intro j
      by_cases same : j = i
      · subst same
        simpa using own.acts action
      · simpa [same] using (meet j).between (quiet j same) own.ready action

/-- What every operation keeps when its precondition holds, holds in every pool reached. -/
theorem reaches_invariant (inv : σ → Prop)
    (kept : ∀ op s answer s', inv s → pre op s → act op s answer s' → inv s')
    {pool pool' : Pool ι Op Answer α σ} (meet : pool.AllMeet act pre clash)
    (initial : inv pool.shared) (reaches : pool.Reaches act clash pool') : inv pool'.shared := by
  have both : pool'.AllMeet act pre clash ∧ inv pool'.shared := by
    induction reaches with
    | refl => exact ⟨meet, initial⟩
    | tail _ step ih =>
        refine ⟨ih.1.step step, ?_⟩
        cases step with
        | perform i op next answer s pending action quiet =>
            have own := ih.1 i
            rw [pending] at own
            exact kept op _ answer s ih.2 own.ready action
  exact both.2

section Weights

variable [Fintype ι] {weight : Op → Nat}

/-- What has been performed and what is still to come add up to what the programs perform in
all. -/
theorem reaches_weight (count : σ → Nat)
    (counts : ∀ op s answer s', act op s answer s' → count s' = count s + weight op)
    {pool pool' : Pool ι Op Answer α σ} (expected : ι → Nat)
    (performs : ∀ i, (pool.thread i).Performs act weight (expected i))
    (reaches : pool.Reaches act clash pool') :
    ∃ left : ι → Nat, (∀ i, (pool'.thread i).Performs act weight (left i)) ∧
      count pool'.shared + ∑ i, left i = count pool.shared + ∑ i, expected i := by
  induction reaches with
  | refl => exact ⟨expected, performs, rfl⟩
  | tail _ step ih =>
      obtain ⟨left, each, sum⟩ := ih
      cases step with
      | perform i op next answer s pending action quiet =>
          have own := each i
          rw [pending] at own
          obtain ⟨rest, split, later⟩ := own
          refine ⟨Function.update left i rest, ?_, ?_⟩
          · intro j
            by_cases same : j = i
            · subst same
              simpa using later _ answer s action
            · simpa [same] using each j
          · have others : ∑ j, left j = left i + ∑ j ∈ Finset.univ.erase i, left j :=
              (Finset.add_sum_erase _ left (Finset.mem_univ i)).symm
            have updated : ∑ j, Function.update left i rest j =
                rest + ∑ j ∈ Finset.univ.erase i, left j := by
              rw [Finset.sum_update_of_mem (Finset.mem_univ i), Finset.sdiff_singleton_eq_erase]
            have performed := counts op _ answer s action
            change count s + _ = _
            omega

/-- Once every program has finished, all of its operations have been performed. -/
theorem finished_weight (count : σ → Nat)
    (counts : ∀ op s answer s', act op s answer s' → count s' = count s + weight op)
    {pool pool' : Pool ι Op Answer α σ} (expected : ι → Nat)
    (performs : ∀ i, (pool.thread i).Performs act weight (expected i))
    (reaches : pool.Reaches act clash pool') (finished : pool'.Finished) :
    count pool'.shared = count pool.shared + ∑ i, expected i := by
  obtain ⟨left, each, sum⟩ := reaches_weight count counts expected performs reaches
  have none : ∀ i, left i = 0 := by
    intro i
    have own := each i
    have stopped := finished i
    cases thread : pool'.thread i with
    | done result =>
        rw [thread] at own
        exact own
    | perform op next =>
        rw [thread] at stopped
        cases stopped
  simpa [none] using sum

end Weights

/-! ### Schedules -/

section Schedules

variable (exec : (op : Op) → σ → Answer op × σ) (clash)

/-- The given program performs its operation, if it has one left. -/
def turn (pool : Pool ι Op Answer α σ) (i : ι) : Pool ι Op Answer α σ :=
  match pool.thread i with
  | .done _ => pool
  | .perform op next =>
      ⟨(exec op pool.shared).2, Function.update pool.thread i (next (exec op pool.shared).1)⟩

def schedule (pool : Pool ι Op Answer α σ) (order : List ι) : Pool ι Op Answer α σ :=
  order.foldl (turn exec) pool

/-- Whether no operation of the schedule clashes with a pending one. -/
def quiet [Fintype ι] (pool : Pool ι Op Answer α σ) : List ι → Bool
  | [] => true
  | i :: rest =>
      decide (∀ j, j ≠ i → ((pool.thread j).pending.all fun q =>
        (pool.thread i).pending.all fun op => !clash q op) = true) &&
      quiet (pool.turn exec i) rest

variable {exec clash}

theorem schedule_reaches [Fintype ι] (acts : ∀ op s, act op s (exec op s).1 (exec op s).2)
    (pool : Pool ι Op Answer α σ) (order : List ι) (clear : pool.quiet clash exec order = true) :
    pool.Reaches act clash (pool.schedule exec order) := by
  induction order generalizing pool with
  | nil => exact .refl
  | cons i rest ih =>
      rw [quiet, Bool.and_eq_true, decide_eq_true_iff] at clear
      have later := ih (pool.turn exec i) clear.2
      cases thread : pool.thread i with
      | done result =>
          have stays : pool.turn exec i = pool := by rw [turn, thread]
          rw [stays] at later
          change pool.Reaches act clash ((pool.turn exec i).schedule exec rest)
          rw [stays]
          exact later
      | perform op next =>
          refine .head ?_ later
          have moves : pool.turn exec i = ⟨(exec op pool.shared).2,
              Function.update pool.thread i (next (exec op pool.shared).1)⟩ := by rw [turn, thread]
          rw [moves]
          refine .perform pool i op next _ _ thread (acts op pool.shared) ?_
          intro j other q pending
          have free := clear.1 j other
          rw [pending, thread] at free
          simpa [Program.pending] using free

/-! One program after another. -/

variable (exec) in
/-- Every program in turn, for as many operations as it is given. -/
def serially (pool : Pool ι Op Answer α σ) (turns : List (ι × Nat)) : Pool ι Op Answer α σ :=
  pool.schedule exec (turns.flatMap fun turn => List.replicate turn.2 turn.1)

theorem serially_cons (pool : Pool ι Op Answer α σ) (turn : ι × Nat) (rest : List (ι × Nat)) :
    pool.serially exec (turn :: rest) =
      (pool.schedule exec (List.replicate turn.2 turn.1)).serially exec rest := by
  rw [serially, List.flatMap_cons, schedule, List.foldl_append]
  rfl

theorem schedule_of_notMem (pool : Pool ι Op Answer α σ) (order : List ι) (j : ι)
    (outside : j ∉ order) : (pool.schedule exec order).thread j = pool.thread j := by
  induction order generalizing pool with
  | nil => rfl
  | cons i rest ih =>
      rw [List.mem_cons, not_or] at outside
      refine (ih (pool.turn exec i) outside.2).trans ?_
      rw [turn]
      cases pool.thread i with
      | done result => rfl
      | perform op next => exact Function.update_of_ne outside.1 _ _

/-- A program that has come to its end has run from its start to its end. -/
theorem schedule_replicate (pool : Pool ι Op Answer α σ) (i : ι) (n : Nat)
    (stopped : ((pool.schedule exec (List.replicate n i)).thread i).pending = none) :
    (pool.schedule exec (List.replicate n i)).shared = ((pool.thread i).run exec pool.shared).2 ∧
      (pool.schedule exec (List.replicate n i)).thread i =
        .done ((pool.thread i).run exec pool.shared).1 := by
  induction n generalizing pool with
  | zero =>
      cases thread : pool.thread i with
      | done result => exact ⟨rfl, thread⟩
      | perform op next =>
          change (pool.thread i).pending = none at stopped
          rw [thread] at stopped
          cases stopped
  | succ n ih =>
      have later := ih (pool.turn exec i) stopped
      change ((pool.turn exec i).schedule exec _).shared = _ ∧
        ((pool.turn exec i).schedule exec _).thread i = _
      cases thread : pool.thread i with
      | done result =>
          have stays : pool.turn exec i = pool := by rw [turn, thread]
          rw [stays, thread] at later
          rw [stays]
          exact later
      | perform op next =>
          have moves : pool.turn exec i = ⟨(exec op pool.shared).2,
              Function.update pool.thread i (next (exec op pool.shared).1)⟩ := by rw [turn, thread]
          have own : (pool.turn exec i).thread i = next (exec op pool.shared).1 := by
            rw [moves]
            exact Function.update_self _ _ _
          have shared : (pool.turn exec i).shared = (exec op pool.shared).2 := by rw [moves]
          rw [own, shared] at later
          exact later

/-- Enough operations bring every program to its end. -/
theorem exists_replicate (pool : Pool ι Op Answer α σ) (i : ι) :
    ∃ n, ((pool.schedule exec (List.replicate n i)).thread i).pending = none := by
  generalize thread : pool.thread i = p
  induction p generalizing pool with
  | done result =>
      refine ⟨0, ?_⟩
      change (pool.thread i).pending = none
      rw [thread]
      rfl
  | perform op next ih =>
      have moves : pool.turn exec i = ⟨(exec op pool.shared).2,
          Function.update pool.thread i (next (exec op pool.shared).1)⟩ := by rw [turn, thread]
      obtain ⟨n, stopped⟩ := ih (exec op pool.shared).1 (pool.turn exec i) (by
        rw [moves]
        exact Function.update_self _ _ _)
      exact ⟨n + 1, stopped⟩

end Schedules

end Pool

end Fide
