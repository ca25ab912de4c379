/-!
# Pre- and postconditions for programs with state and errors

`EStateM ε σ` keeps the state an error leaves behind, which is what an effectful program that stops
half way needs. `wp m Q E s` says that `m`, run from `s`, either returns with `Q` or fails with `E`.
The rules follow the program: `wp_bind` for `;`, `wp_mono` to weaken, `wp_and` to join two
specifications of one program. `Keeps` is for what a program never breaks, however it ends, and `Holds` says with
which errors it does.
-/
namespace Eff

variable {ε σ α β : Type}

/-- Run from `s`, the program returns in `Q` or fails in `E`. -/
def wp (m : EStateM ε σ α) (Q : α → σ → Prop) (E : ε → σ → Prop) (s : σ) : Prop :=
  match m s with
  | .ok a s' => Q a s'
  | .error e s' => E e s'

variable {Q Q' : α → σ → Prop} {E E' : ε → σ → Prop} {s : σ} {m : EStateM ε σ α}

@[simp] theorem wp_pure (a : α) : wp (pure a : EStateM ε σ α) Q E s ↔ Q a s := Iff.rfl

@[simp] theorem wp_bind (f : α → EStateM ε σ β) {Q : β → σ → Prop} :
    wp (m >>= f) Q E s ↔ wp m (fun a s' => wp (f a) Q E s') E s := by
  simp only [wp, bind, EStateM.bind]
  cases m s <;> rfl

@[simp] theorem wp_get {Q : σ → σ → Prop} : wp (get : EStateM ε σ σ) Q E s ↔ Q s s := Iff.rfl

@[simp] theorem wp_modify (f : σ → σ) {Q : PUnit → σ → Prop} :
    wp (modify f : EStateM ε σ PUnit) Q E s ↔ Q ⟨⟩ (f s) := Iff.rfl

@[simp] theorem wp_throw (e : ε) : wp (throw e : EStateM ε σ α) Q E s ↔ E e s := Iff.rfl

/-- A program that starts by reading the state goes on with it. -/
theorem get_bind_apply (f : σ → EStateM ε σ β) (s : σ) : ((get : EStateM ε σ σ) >>= f) s = f s s := rfl

theorem modify_bind_apply (f : σ → σ) (g : PUnit → EStateM ε σ β) (s : σ) :
    ((modify f : EStateM ε σ PUnit) >>= g) s = g ⟨⟩ (f s) := rfl

theorem wp_mono (h : wp m Q E s) (hQ : ∀ a s', Q a s' → Q' a s') (hE : ∀ e s', E e s' → E' e s') :
    wp m Q' E' s := by
  unfold wp at *
  split <;> rename_i heq <;> rw [heq] at h
  · exact hQ _ _ h
  · exact hE _ _ h

theorem wp_and (h : wp m Q E s) (h' : wp m Q' E' s) :
    wp m (fun a s' => Q a s' ∧ Q' a s') (fun e s' => E e s' ∧ E' e s') s := by
  unfold wp at *
  cases hm : m s <;> simp_all

/-- From the specification to a successful execution. -/
theorem wp_ok {a : α} {s' : σ} (h : wp m Q E s) (hm : m s = .ok a s') : Q a s' := by
  simpa [wp, hm] using h

theorem wp_error {e : ε} {s' : σ} (h : wp m Q E s) (hm : m s = .error e s') : E e s' := by
  simpa [wp, hm] using h

/-! ## Programs on a part of the state -/

variable {τ : Type}

/-- Run a program that knows only the part `π` of the state. -/
def zoom (π : σ → τ) (put : σ → τ → σ) (m : EStateM ε τ α) : EStateM ε σ α := fun s =>
  match m (π s) with
  | .ok a t => .ok a (put s t)
  | .error e t => .error e (put s t)

@[simp] theorem wp_zoom (π : σ → τ) (put : σ → τ → σ) (m : EStateM ε τ α) :
    wp (zoom π put m) Q E s ↔ wp m (fun a t => Q a (put s t)) (fun e t => E e (put s t)) (π s) := by
  simp only [wp, zoom]
  cases m (π s) <;> rfl

/-! ## What a program keeps -/

/-- `I` holds after the program if it held before, whether it returns or fails. -/
def Keeps (I : σ → Prop) (m : EStateM ε σ α) : Prop := ∀ s, I s → wp m (fun _ s' => I s') (fun _ s' => I s') s

/-- The program keeps `I`, and an error satisfies `F`. -/
def Holds (I : σ → Prop) (F : ε → Prop) (m : EStateM ε σ α) : Prop :=
  ∀ s, I s → wp m (fun _ s' => I s') (fun e s' => I s' ∧ F e) s

section
variable {I : σ → Prop} {F : ε → Prop} {J : τ → Prop}

theorem Keeps.bind {f : α → EStateM ε σ β} (hm : Keeps I m) (hf : ∀ a, Keeps I (f a)) : Keeps I (m >>= f) := by
  intro s hs
  rw [wp_bind]
  exact wp_mono (hm s hs) (fun a s' h => hf a s' h) fun _ _ h => h

/-- Any end of the program is a state in which the invariant holds. -/
theorem Keeps.ok {a : α} {s' : σ} (hm : Keeps I m) (hs : I s) (h : m s = .ok a s') : I s' := wp_ok (hm s hs) h

theorem Keeps.error {e : ε} {s' : σ} (hm : Keeps I m) (hs : I s) (h : m s = .error e s') : I s' :=
  wp_error (hm s hs) h

theorem Holds.keeps (hm : Holds I F m) : Keeps I m := fun s hs => wp_mono (hm s hs) (fun _ _ h => h) fun _ _ h => h.1

theorem Holds.error {e : ε} {s' : σ} (hm : Holds I F m) (hs : I s) (h : m s = .error e s') : F e :=
  (wp_error (hm s hs) h).2

/-- Of any program nothing is too little to say. -/
theorem Holds.trivial (m : EStateM ε σ α) : Holds (fun _ => True) (fun _ => True) m := by
  intro s _
  unfold wp
  cases m s <;> simp

theorem Holds.pure (a : α) : Holds I F (Pure.pure a : EStateM ε σ α) := fun _ h => h

theorem Holds.throw {e : ε} (he : F e) : Holds I F (MonadExcept.throw e : EStateM ε σ α) := fun _ h => ⟨h, he⟩

theorem Holds.modify {f : σ → σ} (hf : ∀ s, I s → I (f s)) : Holds I F (modify f : EStateM ε σ PUnit) := hf

theorem Holds.bind {f : α → EStateM ε σ β} (hm : Holds I F m) (hf : ∀ a, Holds I F (f a)) : Holds I F (m >>= f) := by
  intro s hs
  rw [wp_bind]
  exact wp_mono (hm s hs) (fun a s' h => hf a s' h) fun _ _ h => h

/-- The rest may rely on what the program returns. -/
theorem Holds.bind_post {P : α → Prop} {f : α → EStateM ε σ β} (hm : Holds I F m)
    (hp : ∀ s, wp m (fun a _ => P a) (fun _ _ => True) s) (hf : ∀ a, P a → Holds I F (f a)) : Holds I F (m >>= f) := by
  intro s hs
  rw [wp_bind]
  exact wp_mono (wp_and (hm s hs) (hp s)) (fun a s' h => hf a h.2 s' h.1) fun _ _ h => h.1

/-- What is read satisfies the invariant. -/
theorem Holds.get_bind {f : σ → EStateM ε σ β} (hf : ∀ s, I s → Holds I F (f s)) : Holds I F (get >>= f) := by
  intro s hs
  rw [wp_bind, wp_get]
  exact hf s hs s hs

theorem Holds.zoom {π : σ → τ} {put : σ → τ → σ} {m : EStateM ε τ α} (hm : Holds J F m) (hπ : ∀ s, I s → J (π s))
    (hput : ∀ s t, I s → J t → I (put s t)) : Holds I F (zoom π put m) := by
  intro s hs
  rw [wp_zoom]
  exact wp_mono (hm (π s) (hπ s hs)) (fun _ t h => hput s t hs h) fun _ t h => ⟨hput s t hs h.1, h.2⟩

end

end Eff
