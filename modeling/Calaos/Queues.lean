/-!
# Queues that remember

A queue is the list of everything ever put into it, and how much of that has been taken out again. What waits
in it, and what has been taken, are the two parts of the list, so nothing is lost, added or reordered by
construction. `put` needs room, `add` does not: the latter is the receiver's side of a broadcast, whose slots are
written over when it falls behind. Where several write into one queue, each entry has a tag, and `tagged` is what
one of them wrote.
-/

/-- A queue with its whole history. -/
structure Queue (α : Type) where
  log : List α
  out : Nat
  le : out ≤ log.length

namespace Queue

variable {α : Type} {q q' : Queue α} {a : α}

/-- Nothing was ever put in. -/
def empty : Queue α := ⟨[], 0, Nat.le_refl 0⟩

/-- What has been taken out. -/
def taken (q : Queue α) : List α := q.log.take q.out

/-- What has not. -/
def waiting (q : Queue α) : List α := q.log.drop q.out

def add (q : Queue α) (a : α) : Queue α := ⟨q.log ++ [a], q.out, Nat.le_trans q.le (by simp)⟩

/-- There is room as long as fewer than `capacity` wait. -/
def put (capacity : Nat) (q : Queue α) (a : α) : Option (Queue α) :=
  if q.waiting.length < capacity then some (q.add a) else none

/-- The first that waits. -/
def take (q : Queue α) : Option (α × Queue α) :=
  if h : q.out < q.log.length then some (q.log[q.out], ⟨q.log, q.out + 1, h⟩) else none

@[simp] theorem taken_empty : (empty : Queue α).taken = [] := rfl

@[simp] theorem waiting_empty : (empty : Queue α).waiting = [] := rfl

theorem taken_append_waiting (q : Queue α) : q.taken ++ q.waiting = q.log := List.take_append_drop _ _

@[simp] theorem log_add (q : Queue α) (a : α) : (q.add a).log = q.log ++ [a] := rfl

@[simp] theorem taken_add (q : Queue α) (a : α) : (q.add a).taken = q.taken := List.take_append_of_le_length q.le

@[simp] theorem waiting_add (q : Queue α) (a : α) : (q.add a).waiting = q.waiting ++ [a] :=
  List.drop_append_of_le_length q.le

theorem put_eq_some {capacity : Nat} :
    q.put capacity a = some q' ↔ q.waiting.length < capacity ∧ q' = q.add a := by
  unfold put
  split <;> simp [*, eq_comm]

/-- What it means to take. -/
structure Takes (q : Queue α) (a : α) (q' : Queue α) : Prop where
  log : q'.log = q.log
  taken : q'.taken = q.taken ++ [a]
  waiting : q.waiting = a :: q'.waiting

theorem takes_of_take (h : q.take = some (a, q')) : q.Takes a q' := by
  unfold take at h
  split at h
  · rename_i hlt
    cases h
    exact ⟨rfl, List.take_succ_eq_append_getElem hlt, List.drop_eq_getElem_cons hlt⟩
  · cases h

theorem take_eq_none : q.take = none ↔ q.waiting = [] := by
  unfold take waiting
  rw [List.drop_eq_nil_iff]
  split
  · simp only [reduceCtorEq, false_iff]
    omega
  · simp only [true_iff]
    omega

/-- Only an empty queue has nothing to take. -/
theorem take_isSome (h : q.waiting ≠ []) : ∃ a q', q.take = some (a, q') := by
  cases ht : q.take with
  | none => exact absurd (take_eq_none.1 ht) h
  | some next => exact ⟨next.1, next.2, rfl⟩

theorem mem_log_of_taken (h : a ∈ q.taken) : a ∈ q.log := List.mem_of_mem_take h

/-! ## Several writers -/

section
variable {τ : Type} [DecidableEq τ]

/-- The entries with this tag, in order. -/
def tagged (tag : τ) (log : List (τ × α)) : List α := (log.filter fun e => decide (e.1 = tag)).map (·.2)

@[simp] theorem tagged_nil (tag : τ) : tagged tag ([] : List (τ × α)) = [] := rfl

theorem tagged_append (tag : τ) (log log' : List (τ × α)) : tagged tag (log ++ log') = tagged tag log ++ tagged tag log' := by
  simp [tagged]

theorem tagged_snoc (tag : τ) (log : List (τ × α)) (e : τ × α) :
    tagged tag (log ++ [e]) = tagged tag log ++ if e.1 = tag then [e.2] else [] := by
  rw [tagged_append]
  by_cases h : e.1 = tag <;> simp [tagged, h]

theorem mem_tagged {tag : τ} {log : List (τ × α)} : a ∈ tagged tag log ↔ (tag, a) ∈ log := by
  simp only [tagged, List.mem_map, List.mem_filter, decide_eq_true_eq]
  constructor
  · rintro ⟨⟨t, b⟩, ⟨hm, rfl⟩, rfl⟩
    exact hm
  · intro hm
    exact ⟨(tag, a), ⟨hm, rfl⟩, rfl⟩

/-- Where only one of them writes entries of a kind, these are all his. -/
theorem filter_tagged {tag : τ} {log : List (τ × α)} {p : α → Bool} (h : ∀ t a, (t, a) ∈ log → p a = true → t = tag) :
    (log.map (·.2)).filter p = (tagged tag log).filter p := by
  rw [tagged, List.filter_map, List.filter_map, List.filter_filter]
  refine congrArg _ (List.filter_congr fun e he => ?_)
  by_cases hp : p e.2 = true
  · simp [hp, h e.1 e.2 he hp]
  · simp [hp]

end

end Queue
