import Mathlib.Logic.Basic

/-! Total correctness of programs with a state and an error: `Returns f s Q` says that `f`, started in
`s`, ends without an error in a result and a state that satisfy `Q`; `Ensures` leaves the error
open, `Safe` says which errors there can be. -/

namespace Xv6.Total

variable {σ ε α β : Type}

def Returns (f : StateT σ (Except ε) α) (s : σ) (Q : α → σ → Prop) : Prop :=
  ∃ a t, f s = .ok (a, t) ∧ Q a t

variable {f : StateT σ (Except ε) α} {s : σ} {Q Q' : α → σ → Prop}

lemma bind_of_eq (h : f s = .ok (a, t)) : (f >>= g) s = g a t := by
  change (f s >>= fun p => g p.1 p.2) = _
  rw [h]
  rfl

lemma Returns.mono (h : Returns f s Q) (weaker : ∀ a t, Q a t → Q' a t) : Returns f s Q' := by
  obtain ⟨a, t, eq, post⟩ := h
  exact ⟨a, t, eq, weaker a t post⟩

lemma Returns.recorded (h : Returns f s Q) : Returns f s fun a t => f s = .ok (a, t) ∧ Q a t := by
  obtain ⟨a, t, eq, post⟩ := h
  exact ⟨a, t, eq, eq, post⟩

lemma Returns.both (h : Returns f s Q) (h' : Returns f s Q') : Returns f s fun a t => Q a t ∧ Q' a t := by
  obtain ⟨a, t, ran, post⟩ := h
  obtain ⟨a', t', ran', post'⟩ := h'
  rw [ran] at ran'
  cases ran'
  exact ⟨a, t, ran, post, post'⟩

lemma Returns.bind (first : Returns f s Q) (rest : ∀ a t, Q a t → Returns (g a) t R) : Returns (f >>= g) s R := by
  obtain ⟨a, t, eq, post⟩ := first
  obtain ⟨b, u, eq', post'⟩ := rest a t post
  refine ⟨b, u, ?_, post'⟩
  change (f s >>= fun p => g p.1 p.2) = _
  rw [eq]
  exact eq'

lemma returns_bind_eq (h : f s = .ok (a, t)) (rest : Returns (g a) t R) : Returns (f >>= g) s R := by
  obtain ⟨b, u, eq, post⟩ := rest
  exact ⟨b, u, (bind_of_eq h).trans eq, post⟩

lemma returns_pure (h : Q a s) : Returns (pure a : StateT σ (Except ε) α) s Q := ⟨a, s, rfl, h⟩

variable {t : σ}

lemma returns_pure_bind (h : Returns (g a) s R) : Returns ((pure a : StateT σ (Except ε) α) >>= g) s R := h

lemma returns_get_bind {g : σ → StateT σ (Except ε) β} (h : Returns (g s) s R) :
    Returns ((get : StateT σ (Except ε) σ) >>= g) s R :=
  h

lemma returns_set_bind (h : Returns (k ()) t R) : Returns ((set t : StateT σ (Except ε) PUnit) >>= k) s R := h

lemma returns_modify_bind (h : Returns (k ()) (m s) R) : Returns ((modify m : StateT σ (Except ε) PUnit) >>= k) s R :=
  h

lemma returns_modify {Q : Unit → σ → Prop} (h : Q () (m s)) : Returns (modify m : StateT σ (Except ε) PUnit) s Q :=
  ⟨(), m s, rfl, h⟩

/-- If `f` ends without an error, its result and state satisfy `Q`. -/
def Ensures (f : StateT σ (Except ε) α) (s : σ) (Q : α → σ → Prop) : Prop :=
  ∀ a t, f s = .ok (a, t) → Q a t

lemma Returns.ensures (h : Returns f s Q) : Ensures f s Q := by
  obtain ⟨a, t, eq, post⟩ := h
  intro a' t' eq'
  rw [eq] at eq'
  cases eq'
  exact post

lemma Ensures.bind (first : Ensures f s Q) (rest : ∀ a t, Q a t → Ensures (g a) t R) : Ensures (f >>= g) s R := by
  intro b u eq
  change (f s >>= fun p => g p.1 p.2) = _ at eq
  cases ran : f s with
  | error e =>
    rw [ran] at eq
    cases eq
  | ok p =>
    rw [ran] at eq
    exact rest p.1 p.2 (first p.1 p.2 ran) b u eq

lemma ensures_get {g : σ → StateT σ (Except ε) β} (h : Ensures (g s) s R) :
    Ensures ((get : StateT σ (Except ε) σ) >>= g) s R :=
  h

lemma ensures_throw : Ensures (throw e : StateT σ (Except ε) α) s Q := fun _ _ eq => nomatch eq

section

/-- `f` ends in a result and a state that satisfy `Q`, or in an error that `E` allows. -/
def Safe (E : ε → Prop) (f : StateT σ (Except ε) α) (s : σ) (Q : α → σ → Prop) : Prop :=
  match f s with
  | .ok (a, t) => Q a t
  | .error e => E e

lemma Safe.ensures (h : Safe E f s Q) : Ensures f s Q := by
  intro a t eq
  rw [Safe, eq] at h
  exact h

lemma Ensures.safe (h : Ensures f s Q) : Safe (fun _ => True) f s Q := by
  unfold Safe
  split
  · exact h _ _ ‹_›
  · trivial

lemma Safe.returns (h : Safe (fun _ => False) f s Q) : Returns f s Q := by
  unfold Safe at h
  split at h
  · exact ⟨_, _, ‹_›, h⟩
  · exact h.elim

lemma Safe.allow (h : Safe E f s Q) (more : ∀ e, E e → E' e) : Safe E' f s Q := by
  unfold Safe at h ⊢
  split at h
  · exact h
  · exact more _ h

lemma Safe.mono (h : Safe E f s Q) (weaker : ∀ a t, Q a t → Q' a t) : Safe E f s Q' := by
  unfold Safe at h ⊢
  split
  · rename_i a t eq
    rw [eq] at h
    exact weaker a t h
  · rename_i e eq
    rw [eq] at h
    exact h

lemma Safe.bind (first : Safe E f s Q) (rest : ∀ a t, Q a t → Safe E (g a) t R) : Safe E (f >>= g) s R := by
  unfold Safe at first
  change match (f s >>= fun p => g p.1 p.2) with
    | .ok (b, t) => R b t
    | .error e => E e
  split at first
  · rename_i a t eq
    rw [eq]
    exact rest a t first
  · rename_i e eq
    rw [eq]
    exact first

lemma safe_of_eq (h : f s = .ok (a, t)) (post : Q a t) : Safe E f s Q := by
  rw [Safe, h]
  exact post

lemma safe_bind_eq (h : f s = .ok (a, t)) (rest : Safe E (g a) t R) : Safe E (f >>= g) s R :=
  Safe.bind (Q := fun a' t' => a' = a ∧ t' = t) (safe_of_eq h ⟨rfl, rfl⟩) (by rintro _ _ ⟨rfl, rfl⟩; exact rest)

lemma safe_pure (h : Q a s) : Safe E (pure a : StateT σ (Except ε) α) s Q := h

lemma safe_throw (h : E e) : Safe E (throw e : StateT σ (Except ε) α) s Q := h

section
lemma safe_pure_bind (h : Safe E (g a) s R) : Safe E ((pure a : StateT σ (Except ε) α) >>= g) s R := h

lemma safe_throw_bind (h : E e) : Safe E ((throw e : StateT σ (Except ε) α) >>= g) s R := h

lemma safe_get {g : σ → StateT σ (Except ε) β} (h : Safe E (g s) s R) :
    Safe E ((get : StateT σ (Except ε) σ) >>= g) s R :=
  h

lemma safe_set {Q : Unit → σ → Prop} (h : Q () t) : Safe E (set t : StateT σ (Except ε) PUnit) s Q := h

lemma safe_modify {Q : Unit → σ → Prop} (h : Q () (m s)) : Safe E (modify m : StateT σ (Except ε) PUnit) s Q := h

lemma safe_mod (h : Safe E (k ()) (m s) R) : Safe E ((modify m : StateT σ (Except ε) PUnit) >>= k) s R := h

end

end

end Xv6.Total
