import Opbox.Foundation.Effect

/-!
# Recorded answers

A world that records the answers it gives, and a triple for computations on it: however the world
answers, the computation ends as stated about its end and the answers that it got.
-/

namespace Opbox

variable {σ τ ε α β : Type}

/-- A world with the answers that it has given. -/
structure Recorded (σ τ : Type) where
  /-- The world. -/
  world : σ
  /-- Its answers, the latest last. -/
  answers : List τ

/-- Ask the world and record what it says. -/
def Recorded.ask (f : σ → α × σ) (answer : α → τ) (w : Recorded σ τ) : α × Recorded σ τ :=
  ((f w.world).1, ⟨(f w.world).2, w.answers ++ [answer (f w.world).1]⟩)

namespace Effect

/-- However the world answers, this holds of the end of the computation and the answers to it. -/
def Ends (m : Effect (Recorded σ τ) ε α) (Q : Except ε α → List τ → Prop) : Prop :=
  ∀ w, ∃ new, (m.exec w).2.answers = w.answers ++ new ∧ Q (m.exec w).1 new

variable {P : Except ε α → List τ → Prop} {Q : Except ε β → List τ → Prop}

theorem Ends.weaken {m : Effect (Recorded σ τ) ε α} {P' : Except ε α → List τ → Prop}
    (hm : m.Ends P) (h : ∀ r answers, P r answers → P' r answers) : m.Ends P' := by
  intro w
  obtain ⟨new, hanswers, hend⟩ := hm w
  exact ⟨new, hanswers, h _ _ hend⟩

/-- What holds of the same end and the same answers may be put together. -/
theorem Ends.and {m : Effect (Recorded σ τ) ε α} {P' : Except ε α → List τ → Prop} (hm : m.Ends P)
    (hm' : m.Ends P') : m.Ends fun r answers => P r answers ∧ P' r answers := by
  intro w
  obtain ⟨new, hanswers, hend⟩ := hm w
  obtain ⟨new', hanswers', hend'⟩ := hm' w
  obtain rfl : new = new' := List.append_cancel_left (hanswers.symm.trans hanswers')
  exact ⟨new, hanswers, hend, hend'⟩

theorem ends_lift {r : Except ε α} (h : P r []) : (liftM r : Effect (Recorded σ τ) ε α).Ends P :=
  fun _ => ⟨[], (List.append_nil _).symm, h⟩

theorem ends_pure {a : α} (h : P (.ok a) []) : (pure a : Effect (Recorded σ τ) ε α).Ends P :=
  fun _ => ⟨[], (List.append_nil _).symm, h⟩

theorem ends_throw {e : ε} (h : P (.error e) []) :
    (throw e : Effect (Recorded σ τ) ε α).Ends P :=
  fun _ => ⟨[], (List.append_nil _).symm, h⟩

/-- A sequence gets the answers to both of its parts. -/
theorem Ends.bind {m : Effect (Recorded σ τ) ε α} {f : α → Effect (Recorded σ τ) ε β}
    (hm : m.Ends P)
    (hok : ∀ a answers, P (.ok a) answers → (f a).Ends fun r more => Q r (answers ++ more))
    (herror : ∀ e answers, P (.error e) answers → Q (.error e) answers) : (m >>= f).Ends Q := by
  intro w
  obtain ⟨new, hanswers, hend⟩ := hm w
  rw [exec_bind]
  cases h : m.exec w with
  | mk r w' =>
    rw [h] at hanswers hend
    cases r with
    | error e => exact ⟨new, hanswers, herror e new hend⟩
    | ok a =>
      obtain ⟨more, hmore, hlast⟩ := hok a new hend w'
      refine ⟨new ++ more, ?_, hlast⟩
      rw [hmore, hanswers, List.append_assoc]

/-- What begins with a question gets its answer first. -/
theorem ends_ask {f : σ → α × σ} {answer : α → τ} {g : α → Effect (Recorded σ τ) ε β}
    (h : ∀ a, (g a).Ends fun r more => Q r (answer a :: more)) :
    (call (Recorded.ask f answer) >>= g).Ends Q := by
  intro w
  obtain ⟨more, hmore, hend⟩ :=
    h (f w.world).1 ⟨(f w.world).2, w.answers ++ [answer (f w.world).1]⟩
  refine ⟨answer (f w.world).1 :: more, ?_, hend⟩
  rw [exec_bind_ok (exec_call _ w), ← List.singleton_append, ← List.append_assoc]
  exact hmore

end Effect

end Opbox
