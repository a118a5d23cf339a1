import Mathlib.Data.List.Basic

/-!
# Histories made of sessions

The history of one key: sessions that are opened with a value, gather notes and are closed. `Life` says
what may happen to the thing that lives through a session, and `Tracked.step` is the rule by which an
invariant of that thing and its notes becomes a property of every session that was ever closed.
-/

namespace Ocse

variable {α β μ : Type*}

inductive Entry (α μ : Type*)
  | opened (a : α)
  | note (m : μ)
  | closed

/-- A history of closed sessions that all meet `Done`, with the session that is still open, if any. -/
inductive Sessions (Done : α → List μ → Prop) : List (Entry α μ) → Option (α × List μ) → Prop
  | nil : Sessions Done [] none
  | opened {h : List (Entry α μ)} (a : α) (hs : Sessions Done h none) :
      Sessions Done (h ++ [.opened a]) (some (a, []))
  | note {h : List (Entry α μ)} {a : α} {ms : List μ} (m : μ) (hs : Sessions Done h (some (a, ms))) :
      Sessions Done (h ++ [.note m]) (some (a, ms ++ [m]))
  | closed {h : List (Entry α μ)} {a : α} {ms : List μ} (hs : Sessions Done h (some (a, ms)))
      (hdone : Done a ms) : Sessions Done (h ++ [.closed]) none

theorem Sessions.notes {Done : α → List μ → Prop} {h : List (Entry α μ)} {a : α} {ns : List μ}
    (hs : Sessions Done h (some (a, ns))) (ms : List μ) :
    Sessions Done (h ++ ms.map .note) (some (a, ns ++ ms)) := by
  induction ms generalizing h ns with
  | nil => simpa using hs
  | cons m ms ih => simpa using ih (hs.note m)

/-- How the thing behind a session starts, moves while it leaves notes, and ends. -/
structure Life (α β μ : Type*) where
  start : α → β → Prop
  move : β → List μ → β → Prop
  last : β → List μ → Prop

inductive Life.Step (L : Life α β μ) : Option β → List (Entry α μ) → Option β → Prop
  | absent : L.Step none [] none
  | opened {a : α} {b : β} (h : L.start a b) : L.Step none [.opened a] (some b)
  | moved {b b' : β} {ms : List μ} (h : L.move b ms b') : L.Step (some b) (ms.map .note) (some b')
  | closed {b : β} {ms : List μ} (h : L.last b ms) : L.Step (some b) (ms.map .note ++ [.closed]) none

/-- The history is in order, and what is there now has its open session. -/
def Tracked (Done : α → List μ → Prop) (T : α → β → List μ → Prop) (h : List (Entry α μ)) :
    Option β → Prop
  | none => Sessions Done h none
  | some b => ∃ a ns, Sessions Done h (some (a, ns)) ∧ T a b ns

theorem Tracked.step {L : Life α β μ} {Done : α → List μ → Prop} {T : α → β → List μ → Prop}
    (hstart : ∀ a b, L.start a b → T a b [])
    (hmove : ∀ a b ns ms b', T a b ns → L.move b ms b' → T a b' (ns ++ ms))
    (hlast : ∀ a b ns ms, T a b ns → L.last b ms → Done a (ns ++ ms))
    {h es : List (Entry α μ)} {x y : Option β} (hx : Tracked Done T h x) (hstep : L.Step x es y) :
    Tracked Done T (h ++ es) y := by
  cases hstep with
  | absent => simpa using hx
  | opened hs => exact ⟨_, [], hx.opened _, hstart _ _ hs⟩
  | moved hm =>
    obtain ⟨a, ns, hs, ht⟩ := hx
    exact ⟨a, _, hs.notes _, hmove a _ ns _ _ ht hm⟩
  | closed hl =>
    obtain ⟨a, ns, hs, ht⟩ := hx
    have hclosed := (hs.notes _).closed (hlast a _ ns _ ht hl)
    rwa [List.append_assoc] at hclosed

/-- The closed sessions and the open one, when the invariant says something of the open one. -/
theorem Tracked.sessions {Done P : α → List μ → Prop} {T : α → β → List μ → Prop}
    {h : List (Entry α μ)} {x : Option β} (hx : Tracked Done T h x)
    (hT : ∀ a b ns, T a b ns → P a ns) : ∃ o, Sessions Done h o ∧ ∀ y ∈ o, P y.1 y.2 := by
  cases x with
  | none => exact ⟨none, hx, by simp⟩
  | some b =>
    obtain ⟨a, ns, hs, ht⟩ := hx
    refine ⟨some (a, ns), hs, ?_⟩
    rintro y ⟨⟩
    exact hT a b ns ht

/-! ## Forgetting what a session was opened with -/

variable {γ : Type*}

def Entry.map (f : α → γ) : Entry α μ → Entry γ μ
  | .opened a => .opened (f a)
  | .note m => .note m
  | .closed => .closed

theorem Sessions.map (f : α → γ) {Done : γ → List μ → Prop} {h : List (Entry α μ)}
    {o : Option (α × List μ)} (hs : Sessions (fun a => Done (f a)) h o) :
    Sessions Done (h.map (Entry.map f)) (o.map (Prod.map f id)) := by
  induction hs with
  | nil => exact .nil
  | opened a _ ih =>
    rw [List.map_append]
    exact ih.opened (f a)
  | note m _ ih =>
    rw [List.map_append]
    exact ih.note m
  | closed _ hdone ih =>
    rw [List.map_append]
    exact ih.closed hdone

theorem Tracked.map (f : α → γ) {Done : γ → List μ → Prop} {T : γ → β → List μ → Prop}
    {h : List (Entry α μ)} {x : Option β}
    (hx : Tracked (fun a => Done (f a)) (fun a => T (f a)) h x) :
    Tracked Done T (h.map (Entry.map f)) x := by
  cases x with
  | none => exact Sessions.map f hx
  | some b =>
    obtain ⟨a, ns, hs, ht⟩ := hx
    exact ⟨f a, ns, hs.map f, ht⟩

/-! ## Reading a history -/

def scanEntry : Option (Option (α × List μ)) → Entry α μ → Option (Option (α × List μ))
  | some none, .opened a => some (some (a, []))
  | some (some (a, ms)), .note m => some (some (a, ms ++ [m]))
  | some (some _), .closed => some none
  | _, _ => none

/-- The session that is open at the end of a history; no value when the entries are out of order. -/
def scan (h : List (Entry α μ)) : Option (Option (α × List μ)) := h.foldl scanEntry (some none)

theorem Sessions.scan_eq {Done : α → List μ → Prop} {h : List (Entry α μ)} {o : Option (α × List μ)}
    (hs : Sessions Done h o) : scan h = some o := by
  induction hs with
  | nil => rfl
  | opened a _ ih =>
    unfold scan at ih ⊢
    rw [List.foldl_append, ih]
    rfl
  | note m _ ih =>
    unfold scan at ih ⊢
    rw [List.foldl_append, ih]
    rfl
  | closed _ _ ih =>
    unfold scan at ih ⊢
    rw [List.foldl_append, ih]
    rfl

def Entry.isClosed : Entry α μ → Bool
  | .closed => true
  | _ => false

/-- The session that the last entry closes. -/
theorem Sessions.last_done {Done : α → List μ → Prop} {h : List (Entry α μ)} {o : Option (α × List μ)}
    (hs : Sessions Done h o) (hclosed : h.getLast?.any Entry.isClosed = true) :
    ∃ a ms, scan h.dropLast = some (some (a, ms)) ∧ Done a ms := by
  cases hs with
  | nil => simp at hclosed
  | opened a hs => simp [Entry.isClosed] at hclosed
  | note m hs => simp [Entry.isClosed] at hclosed
  | closed hs hdone =>
    rw [List.dropLast_concat]
    exact ⟨_, _, hs.scan_eq, hdone⟩

end Ocse
