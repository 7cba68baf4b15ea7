import Mathlib.Data.List.Induction
import Mathlib.Order.Basic

/-! Finite runs of a labelled step relation, their labels oldest first. `Meets` restricts the relation
to steps that satisfy a condition on the label and the state before; an invariant of it holds
along every run whose steps all meet the condition. -/

namespace Xv6.Runs

variable {σ α : Type*}

inductive Run (step : σ → α → σ → Prop) : σ → List α → σ → Prop
  | nil (s : σ) : Run step s [] s
  | cons {s t u : σ} {a : α} {as : List α} :
      step s a t → Run step t as u → Run step s (a :: as) u

def Meets (step : σ → α → σ → Prop) (cond : σ → α → Prop) : σ → α → σ → Prop :=
  fun s a t => step s a t ∧ cond s a

variable {step : σ → α → σ → Prop} {cond : σ → α → Prop} {s t u : σ} {a : α} {as bs : List α}

lemma Run.single (h : step s a t) : Run step s [a] t := .cons h (.nil t)

lemma Run.append (first : Run step s as t) (rest : Run step t bs u) : Run step s (as ++ bs) u := by
  induction first with
  | nil => exact rest
  | cons h _ ih => exact .cons h (ih rest)

lemma Run.snoc (first : Run step s as t) (last : step t a u) : Run step s (as ++ [a]) u :=
  first.append (.single last)

lemma Run.split (h : Run step s (as ++ bs) u) : ∃ t, Run step s as t ∧ Run step t bs u := by
  induction as generalizing s with
  | nil => exact ⟨s, .nil s, h⟩
  | cons a as ih =>
    cases h with
    | cons first rest =>
      obtain ⟨t, left, right⟩ := ih rest
      exact ⟨t, .cons first left, right⟩

lemma Run.invariant (I : σ → Prop) (kept : ∀ s a t, I s → step s a t → I t)
    (h : Run step s as t) (start : I s) : I t := by
  induction h with
  | nil => exact start
  | cons first _ ih => exact ih (kept _ _ _ start first)

lemma Run.history (I : List α → σ → Prop)
    (kept : ∀ as s' a t, Run step s as s' → I as s' → step s' a t → I (as ++ [a]) t)
    (h : Run step s as t) (start : I [] s) : I as t := by
  induction as using List.reverseRecOn generalizing t with
  | nil =>
    cases h
    exact start
  | append_singleton as a ih =>
    obtain ⟨u, first, last⟩ := h.split
    cases last with
    | cons last done =>
      cases done
      exact kept as u a t first (ih first) last

lemma Run.mono (sub : ∀ s a t, step s a t → step' s a t) (h : Run step s as t) : Run step' s as t := by
  induction h with
  | nil s => exact .nil s
  | cons first _ ih => exact .cons (sub _ _ _ first) ih

lemma Run.forget (h : Run (Meets step cond) s as t) : Run step s as t := h.mono fun _ _ _ => And.left

lemma Run.meets (h : Run step s as t) (allowed : ∀ a ∈ as, ∀ s, cond s a) : Run (Meets step cond) s as t := by
  induction h with
  | nil s => exact .nil s
  | cons first _ ih =>
    exact .cons ⟨first, allowed _ (by simp) _⟩ (ih fun a ha => allowed a (by simp [ha]))

variable {γ : Type*} {note : σ → γ → α → γ}

/-- The steps of a machine beside which a record is kept that no step reads. -/
def Recorded (step : σ → α → σ → Prop) (note : σ → γ → α → γ) : σ × γ → α → σ × γ → Prop :=
  fun s a t => step s.1 a t.1 ∧ t.2 = note s.1 s.2 a

lemma Run.record (h : Run (Recorded step note) start as (s, g)) (a)
    (last : step s a t) : Run (Recorded step note) start (as ++ [a]) (t, note s g a) :=
  h.snoc ⟨last, rfl⟩

lemma Run.recorded (h : Run step s as t) (g) : ∃ g', Run (Recorded step note) (s, g) as (t, g') := by
  induction h generalizing g with
  | nil s => exact ⟨g, .nil _⟩
  | @cons s _ _ a _ first _ ih =>
    obtain ⟨g', rest⟩ := ih (note s g a)
    exact ⟨g', .cons ⟨first, rfl⟩ rest⟩

section
variable (next : σ → α → Option σ)

/-- Take the steps of a deterministic machine one after the other. -/
def exec (s : σ) : List α → Option σ
  | [] => some s
  | a :: as => (next s a).bind fun t => exec t as

lemma run_of_exec (h : exec next s as = some t) : Run (fun s a t => next s a = some t) s as t := by
  induction as generalizing s with
  | nil => exact Option.some.inj h ▸ .nil s
  | cons a as ih =>
    obtain ⟨u, first, rest⟩ := Option.bind_eq_some_iff.mp h
    exact .cons first (ih rest)

end

end Xv6.Runs
