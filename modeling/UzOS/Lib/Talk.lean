import Mathlib

/-! A procedure that gives up control in the middle: it leaves a state, says
something, and goes on from whatever state it finds when it is resumed. -/
namespace UzOS

inductive Talk (σ μ : Type) where
  | done (s : σ)
  | say (s : σ) (m : μ) (next : σ → Talk σ μ)

namespace Talk

variable {σ μ ι : Type}

/-- `f` goes on from the state in which the talk ends. -/
def andThen : Talk σ μ → (σ → Talk σ μ) → Talk σ μ
  | done s, f => f s
  | say s m next, f => say s m fun s => (next s).andThen f

/-- The talk run: `env i m s` is what the others make of `s` when `m` is said
and they choose `i`; they take their choices from a list, then `idle`. -/
def run (env : ι → μ → σ → σ) (idle : ι) : Talk σ μ → List ι → σ
  | done s, _ => s
  | say s m next, choices => run env idle (next (env (choices.headD idle) m s)) choices.tail

/-- Does every choice that the run takes meet `ok` where it is taken? -/
def every (env : ι → μ → σ → σ) (ok : σ → ι → Bool) (idle : ι) : Talk σ μ → List ι → Bool
  | done _, _ => true
  | say s m next, choices =>
    ok s (choices.headD idle) &&
      every env ok idle (next (env (choices.headD idle) m s)) choices.tail

/-- The state left and all that is said when nobody interferes. -/
def alone : Talk σ μ → σ × List μ
  | done s => (s, [])
  | say s m next => ((next s).alone.1, m :: (next s).alone.2)

/-- Whenever control is given up `mid` holds, whatever it is resumed from that
`env` allows, and in the end `post` holds. -/
def Safe (env : σ → σ → Prop) (mid post : σ → Prop) : Talk σ μ → Prop
  | done s => post s
  | say s _ next => mid s ∧ ∀ s', env s s' → Safe env mid post (next s')

variable {env : σ → σ → Prop} {mid mid' post post' : σ → Prop} {t : Talk σ μ}

variable (h : Safe env mid post t)
include h

theorem Safe.imp (mids : ∀ s, mid s → mid' s)
    (posts : ∀ s, post s → post' s) : Safe env mid' post' t := by
  induction t with
  | done s => exact posts s h
  | say s m next ih => exact ⟨mids s h.1, fun s' e => ih s' (h.2 s' e)⟩

theorem Safe.andThen {f : σ → Talk σ μ}
    (rest : ∀ s, post s → Safe env mid post' (f s)) : Safe env mid post' (t.andThen f) := by
  induction t with
  | done s => exact rest s h
  | say s m next ih => exact ⟨h.1, fun s' e => ih s' (h.2 s' e)⟩

/-- Others that keep to `env` where `mid` holds, with each of their choices,
cannot spoil the end. -/
theorem Safe.run {act : ι → μ → σ → σ} {idle : ι}
    (calm : ∀ m s, mid s → env s (act idle m s)) (choices : List ι)
    (keeps : ∀ i ∈ choices, ∀ m s, mid s → env s (act i m s)) :
    post (t.run act idle choices) := by
  induction t generalizing choices with
  | done s => exact h
  | say s m next ih =>
    cases choices with
    | nil => exact ih _ (h.2 _ (calm m s h.1)) [] keeps
    | cons i rest =>
      refine ih _ (h.2 _ (keeps i List.mem_cons_self m s h.1)) rest fun j member => ?_
      exact keeps j (List.mem_cons_of_mem _ member)

/-- Others that keep to `env` with the choices that meet `ok`. -/
theorem Safe.run_every {act : ι → μ → σ → σ} {ok : σ → ι → Bool} {idle : ι} (choices : List ι)
    (all : t.every act ok idle choices)
    (keeps : ∀ i m s, mid s → ok s i → env s (act i m s)) :
    post (t.run act idle choices) := by
  induction t generalizing choices with
  | done s => exact h
  | say s m next ih =>
    obtain ⟨first, rest⟩ := Bool.and_eq_true_iff.mp all
    exact ih _ (h.2 _ (keeps _ m s h.1 first)) _ rest

/-- Nobody interfering is one way to keep to `env`. -/
theorem Safe.alone (calm : ∀ s, env s s) : post t.alone.1 := by
  induction t with
  | done s => exact h
  | say s m next ih => exact ih s (h.2 s (calm s))

end Talk

end UzOS
