import Mathlib.Data.List.Basic
/-!
# Filtering a list while the filter changes

`Kept p ts xs ys`: the elements of `xs` are looked at once each, in order, at moments of the history
`ts`, also in order, and `ys` are those the filter `p` accepts at the moment they are looked at.
-/
namespace TimedFilter

variable {τ α : Type} {p : τ → α → Bool} {t : τ} {ts : List τ} {xs ys : List α}

/-- The elements of `xs` accepted when looked at one after the other along `ts`. -/
inductive Kept (p : τ → α → Bool) : List τ → List α → List α → Prop
  | nil (ts : List τ) : Kept p ts [] []
  | wait {t : τ} {ts : List τ} {xs ys : List α} (h : Kept p ts xs ys) : Kept p (t :: ts) xs ys
  | keep {t : τ} {ts : List τ} {x : α} {xs ys : List α} (hx : p t x = true) (h : Kept p (t :: ts) xs ys) :
      Kept p (t :: ts) (x :: xs) (x :: ys)
  | drop {t : τ} {ts : List τ} {x : α} {xs ys : List α} (hx : p t x = false) (h : Kept p (t :: ts) xs ys) :
      Kept p (t :: ts) (x :: xs) ys

/-- Several elements refused at one moment. -/
theorem Kept.drops {zs : List α} (h : Kept p (t :: ts) xs ys) (hz : ∀ z ∈ zs, p t z = false) :
    Kept p (t :: ts) (zs ++ xs) ys := by
  induction zs with
  | nil => exact h
  | cons z zs ih => exact .drop (hz z (by simp)) (ih fun x hx => hz x (by simp [hx]))

theorem Kept.refuse {zs : List α} (hz : ∀ z ∈ zs, p t z = false) : Kept p (t :: ts) zs [] := by
  simpa using (Kept.nil (t :: ts)).drops hz

/-- Nothing is kept twice and nothing is reordered. -/
theorem Kept.sublist (h : Kept p ts xs ys) : ys.Sublist xs := by
  induction h with
  | nil => exact .slnil
  | wait _ ih => exact ih
  | keep _ _ ih => exact ih.cons_cons _
  | drop _ _ ih => exact ih.cons _

/-- Elements that are never accepted may as well be left out. -/
theorem Kept.filter {alive : α → Bool} (h : Kept p ts xs ys)
    (ha : ∀ t ∈ ts, ∀ x, p t x = true → alive x = true) : Kept p ts (xs.filter alive) ys := by
  induction h with
  | nil ts => exact .nil ts
  | wait _ ih => exact .wait (ih fun t ht => ha t (by simp [ht]))
  | @keep t ts x xs ys hx _ ih =>
    rw [List.filter_cons_of_pos (ha t (by simp) x hx)]
    exact .keep hx (ih ha)
  | @drop t ts x xs ys hx _ ih =>
    by_cases hax : alive x = true
    · rw [List.filter_cons_of_pos hax]
      exact .drop hx (ih ha)
    · rw [List.filter_cons_of_neg hax]
      exact ih ha

/-- And they may be put back, as long as there is a moment to refuse them. -/
theorem Kept.of_filter {alive : α → Bool} {zs : List α} (h : Kept p ts zs ys) :
    ∀ {xs : List α}, xs.filter alive = zs → ts ≠ [] →
      (∀ t ∈ ts, ∀ x, p t x = true → alive x = true) → Kept p ts xs ys := by
  have dead : ∀ {t : τ} {ts : List τ} {x : α}, (∀ t' ∈ t :: ts, ∀ x, p t' x = true → alive x = true) →
      ¬ alive x = true → p t x = false := fun {t ts x} ha hx => by
    by_contra h
    exact hx (ha t (by simp) x (by simpa using h))
  induction h with
  | nil ts =>
    intro xs hxs hts ha
    cases ts with
    | nil => exact absurd rfl hts
    | cons t ts =>
      exact .refuse fun x hx => dead ha (List.filter_eq_nil_iff.1 hxs x hx)
  | @wait t ts zs ys h ih =>
    intro xs hxs _ ha
    cases ts with
    | cons t' ts => exact .wait (ih hxs (by simp) fun u hu => ha u (by simp [hu]))
    | nil =>
      cases h
      exact .refuse fun x hx => dead ha (List.filter_eq_nil_iff.1 hxs x hx)
  | keep hx _ ih =>
    intro xs hxs hts ha
    obtain ⟨l₁, l₂, rfl, hdead, _, hl₂⟩ := List.filter_eq_cons_iff.1 hxs
    exact (Kept.keep hx (ih hl₂ hts ha)).drops fun z hz => dead ha (hdead z hz)
  | drop hx _ ih =>
    intro xs hxs hts ha
    obtain ⟨l₁, l₂, rfl, hdead, _, hl₂⟩ := List.filter_eq_cons_iff.1 hxs
    exact (Kept.drop hx (ih hl₂ hts ha)).drops fun z hz => dead ha (hdead z hz)

/-- Elements that are accepted at every moment are all kept. -/
theorem Kept.countP {q : α → Bool} (h : Kept p ts xs ys) (hq : ∀ t ∈ ts, ∀ x, q x = true → p t x = true) :
    ys.countP q = xs.countP q := by
  induction h with
  | nil => rfl
  | wait _ ih => exact ih fun t ht => hq t (by simp [ht])
  | keep _ _ ih => rw [List.countP_cons, List.countP_cons, ih hq]
  | @drop t ts x xs ys hx _ ih =>
    have hqx : q x = false := by
      cases hqx : q x with
      | false => rfl
      | true => rw [hq t (by simp) x hqx] at hx; cases hx
    rw [List.countP_cons, hqx, ih hq]
    simp

end TimedFilter
