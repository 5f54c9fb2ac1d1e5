import Opbox.Foundation.Recorded

/-!
# Interference

A world that others change between two calls.  What they do is a list of arbitrary changes, one
before each call, and every call is recorded with the world right before and right after it.
-/

namespace Opbox

variable {σ κ ε α β : Type}

/-- A call with the world that it found and the world that it left. -/
structure Occurrence (σ κ : Type) where
  /-- The call. -/
  call : κ
  /-- The world right before it. -/
  before : σ
  /-- The world right after it. -/
  after : σ

/-- A world with what others will do before the next calls, and the calls that were made. -/
abbrev Raced (σ κ : Type) := Recorded (σ × List (σ → σ)) (Occurrence σ κ)

namespace Raced

/-- The world that the next call finds. -/
def found (w : Raced σ κ) : σ := w.world.2.headD id w.world.1

/-- Others do what they do next, and then the call is made. -/
def perform (call : κ) (f : σ → α × σ) (w : Raced σ κ) : α × Raced σ κ :=
  ((f (found w)).1, ⟨((f (found w)).2, w.world.2.tail),
    w.answers ++ [⟨call, found w, (f (found w)).2⟩]⟩)

end Raced

namespace Effect

variable {P : Except ε α → List (Occurrence σ κ) → Prop} {Q : Except ε β → List (Occurrence σ κ) → Prop}

/-- What begins with a call goes on with its answer in whatever world the call found. -/
theorem ends_perform {call : κ} {f : σ → α × σ} {g : α → Effect (Raced σ κ) ε β}
    (h : ∀ before, (g (f before).1).Ends fun r more =>
      Q r (⟨call, before, (f before).2⟩ :: more)) :
    (Effect.call (Raced.perform call f) >>= g).Ends Q := by
  intro w
  obtain ⟨more, hmore, hend⟩ := h (Raced.found w) (Raced.perform call f w).2
  refine ⟨⟨call, Raced.found w, (f (Raced.found w)).2⟩ :: more, ?_, hend⟩
  rw [exec_bind_ok (exec_call _ w), ← List.singleton_append, ← List.append_assoc]
  exact hmore

end Effect

end Opbox
