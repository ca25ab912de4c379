import Calaos.Runs
import Mathlib.Algebra.BigOperators.Group.Finset.Basic
import Mathlib.Tactic.Linarith
/-!
# Machines that come to rest

Some of the labels of a machine are its own: it takes these steps by itself, the others are the world's. If each of
its own steps leaves less work than there was, it comes to rest whatever the order of the steps is
(`own_run_length`), and there is always a way to get there (`exists_still`).

Work is often a sum over parts; `sum_range_change` and `sum_map_set` follow it when one part changes.
-/
namespace Runs

variable {σ ℓ : Type} (step : σ → ℓ → Option σ) (own : ℓ → Prop)

/-- The machine can do nothing by itself. -/
def Still (s : σ) : Prop := ∀ l, own l → step s l = none

section
variable {step own} {I : σ → Prop} {work : σ → Nat}

/-- As many steps as there is work, at most. -/
theorem own_run_length (hdec : ∀ s l s', I s → own l → step s l = some s' → I s' ∧ work s' < work s) :
    ∀ {ls : List ℓ} {s s' : σ}, I s → (∀ l ∈ ls, own l) → run step s ls = some s' →
      I s' ∧ work s' + ls.length ≤ work s
  | [], _, _, hi, _, h => by
    cases h
    exact ⟨hi, Nat.le_refl _⟩
  | l :: ls, s, s', hi, hown, h => by
    obtain ⟨t, ht, hr⟩ := (run_cons step).1 h
    obtain ⟨hit, hlt⟩ := hdec s l t hi (hown l List.mem_cons_self) ht
    obtain ⟨hi', hle⟩ := own_run_length hdec hit (fun l' hl' => hown l' (List.mem_cons_of_mem _ hl')) hr
    rw [List.length_cons]
    exact ⟨hi', by omega⟩

/-- One way to come to rest. -/
theorem exists_still (hdec : ∀ s l s', I s → own l → step s l = some s' → I s' ∧ work s' < work s) (s : σ)
    (hi : I s) : ∃ ls s', (∀ l ∈ ls, own l) ∧ run step s ls = some s' ∧ Still step own s' := by
  by_cases hstill : Still step own s
  · exact ⟨[], s, by simp, rfl, hstill⟩
  · unfold Still at hstill
    push Not at hstill
    obtain ⟨l, hl, hne⟩ := hstill
    obtain ⟨t, ht⟩ := Option.ne_none_iff_exists'.1 hne
    have hlt := hdec s l t hi hl ht
    obtain ⟨ls, s', hown, hr, hs'⟩ := exists_still hdec t hlt.1
    exact ⟨l :: ls, s', List.forall_mem_cons.2 ⟨hl, hown⟩, (run_cons step).2 ⟨t, ht, hr⟩, hs'⟩
termination_by work s
decreasing_by exact hlt.2

end

/-- A sum in which one part changes. -/
theorem sum_range_change {k n : Nat} {f g : Nat → Nat} (hn : n < k) (hoff : ∀ m, m ≠ n → g m = f m) :
    (∑ m ∈ Finset.range k, g m) + f n = (∑ m ∈ Finset.range k, f m) + g n := by
  have hmem : n ∈ Finset.range k := Finset.mem_range.2 hn
  have hrest : ∑ m ∈ (Finset.range k).erase n, g m = ∑ m ∈ (Finset.range k).erase n, f m :=
    Finset.sum_congr rfl fun m hm => hoff m (Finset.ne_of_mem_erase hm)
  have hf := Finset.add_sum_erase (Finset.range k) f hmem
  have hg := Finset.add_sum_erase (Finset.range k) g hmem
  omega

/-- The same for a list. -/
theorem sum_map_set {α : Type} (f : α → Nat) : ∀ {as : List α} {i : Nat} {a : α} (b : α), as[i]? = some a →
    ((as.set i b).map f).sum + f a = (as.map f).sum + f b
  | [], _, _, _, h => by cases h
  | a' :: as, 0, a, b, h => by
    cases h
    simp only [List.set_cons_zero, List.map_cons, List.sum_cons]
    omega
  | a' :: as, i + 1, a, b, h => by
    have h' : as[i]? = some a := h
    have ih := sum_map_set f b h'
    simp only [List.set_cons_succ, List.map_cons, List.sum_cons]
    omega

end Runs
