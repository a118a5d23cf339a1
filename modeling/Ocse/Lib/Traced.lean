import Mathlib.Data.Nat.Notation

/-!
# Programs with a trace

A program adds to a trace what it does, may decide by what the trace holds already, and may not end. `Shows`
is partial correctness: where the program ends, its result and the trace it leaves meet the postcondition.
-/

namespace Ocse

variable {ε α β : Type}

abbrev Traced (ε α : Type) := StateT (List ε) Option α

namespace Traced

def emit (e : ε) : Traced ε Unit := fun trace => some ((), trace ++ [e])

/-- A value that what was done so far decides. -/
def ask (f : List ε → α) : Traced ε α := fun trace => some (f trace, trace)

def diverge : Traced ε α := fun _ => none

def Shows (m : Traced ε α) (trace : List ε) (post : α → List ε → Prop) : Prop :=
  ∀ a trace', m trace = some (a, trace') → post a trace'

variable {m : Traced ε α} {k : α → Traced ε β} {trace : List ε}

@[simp] theorem shows_pure {a : α} {post : α → List ε → Prop} :
    (pure a : Traced ε α).Shows trace post ↔ post a trace := by
  constructor
  · intro h
    exact h a trace rfl
  · rintro h a' trace' heq
    cases heq
    exact h

@[simp] theorem shows_bind {post : β → List ε → Prop} :
    (m >>= k).Shows trace post ↔ m.Shows trace (fun a trace' => (k a).Shows trace' post) := by
  constructor
  · intro h a trace' hm b trace'' hk
    apply h
    change (m trace).bind (fun p => k p.1 p.2) = _
    rw [hm]
    exact hk
  · intro h b trace'' hbind
    change (m trace).bind (fun p => k p.1 p.2) = _ at hbind
    obtain ⟨⟨a, trace'⟩, hm, hk⟩ := Option.bind_eq_some_iff.mp hbind
    exact h a trace' hm b trace'' hk

@[simp] theorem shows_emit {e : ε} {post : Unit → List ε → Prop} :
    (emit e).Shows trace post ↔ post () (trace ++ [e]) := by
  constructor
  · intro h
    exact h () _ rfl
  · rintro h a trace' heq
    cases heq
    exact h

@[simp] theorem shows_ask {f : List ε → α} {post : α → List ε → Prop} :
    (ask f).Shows trace post ↔ post (f trace) trace := by
  constructor
  · intro h
    exact h _ _ rfl
  · rintro h a trace' heq
    cases heq
    exact h

theorem shows_diverge {post : α → List ε → Prop} : (diverge : Traced ε α).Shows trace post := by
  intro a trace' h
  cases h

theorem Shows.mono {post post' : α → List ε → Prop} (h : m.Shows trace post)
    (himp : ∀ a trace', post a trace' → post' a trace') : m.Shows trace post' := by
  intro a trace' hm
  exact himp a trace' (h a trace' hm)

/-- The loop over the numbers below `n`, with what holds before the turn for each of them. -/
theorem shows_foldlM_range (Inv : ℕ → β → List ε → Prop) {step : β → ℕ → Traced ε β}
    (hstep : ∀ i b trace, Inv i b trace → (step b i).Shows trace (Inv (i + 1))) {b : β} (n : ℕ)
    (h : Inv 0 b trace) : ((List.range n).foldlM step b).Shows trace (Inv n) := by
  induction n with
  | zero => exact shows_pure.mpr h
  | succ n ih =>
    rw [List.range_succ, List.foldlM_append, shows_bind]
    refine ih.mono ?_
    intro b' trace' h'
    rw [List.foldlM_cons, shows_bind]
    exact (hstep n b' trace' h').mono (fun b'' trace'' h'' => shows_pure.mpr h'')

/-- A program never takes back what is on the trace. -/
def Grows (m : Traced ε α) : Prop := ∀ trace, m.Shows trace (fun _ trace' => trace <+: trace')

theorem grows_pure {a : α} : (pure a : Traced ε α).Grows := by
  intro trace
  exact shows_pure.mpr List.prefix_rfl

theorem grows_emit {e : ε} : (emit e).Grows := by
  intro trace
  exact shows_emit.mpr (List.prefix_append trace [e])

theorem grows_diverge : (diverge : Traced ε α).Grows := fun _ => shows_diverge

theorem Grows.bind (hm : m.Grows) (hk : ∀ a, (k a).Grows) : (m >>= k).Grows := by
  intro trace
  rw [shows_bind]
  refine (hm trace).mono ?_
  intro a trace' hpre
  exact (hk a trace').mono (fun b trace'' hpre' => hpre.trans hpre')

theorem Grows.ite {c : Prop} [Decidable c] {m' : Traced ε α} (hm : m.Grows) (hm' : m'.Grows) :
    (if c then m else m').Grows := by
  split
  · exact hm
  · exact hm'

theorem grows_mapM {f : α → Traced ε β} (hf : ∀ a, (f a).Grows) (as : List α) : (as.mapM f).Grows := by
  induction as with
  | nil => exact grows_pure
  | cons a as ih =>
    rw [List.mapM_cons]
    exact (hf a).bind (fun _ => ih.bind (fun _ => grows_pure))

/-- Whatever the trace, the result has the property. -/
def Yields (m : Traced ε α) (P : α → Prop) : Prop := ∀ trace, m.Shows trace (fun a _ => P a)

theorem yields_pure {P : α → Prop} {a : α} (h : P a) : (pure a : Traced ε α).Yields P := by
  intro trace
  exact shows_pure.mpr h

theorem yields_bind {P : β → Prop} (hk : ∀ a, (k a).Yields P) : (m >>= k).Yields P := by
  intro trace
  rw [shows_bind]
  intro a trace' _
  exact hk a trace'

end Traced

end Ocse
