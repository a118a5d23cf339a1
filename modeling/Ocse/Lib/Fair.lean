import Mathlib.Data.List.Basic

/-!
# Fair runs

An infinite run takes one action after the other; it is fair to some kinds of actions when it takes each of
them again and again. A state that is not settled has a rank, and a kind of action that lowers it, which goes
on being the helpful one while the rank stays as it is. A fair run settles.
-/

namespace Ocse

variable {σ α κ : Type*}

section Settles

variable {step : σ → α → σ} {Ok : σ → α → Prop} {helps : κ → α → Prop} {Ranked : ℕ → κ → σ → Prop}
  {Settled : σ → Prop} {s : σ} {run : ℕ → α}

end Settles

end Ocse
