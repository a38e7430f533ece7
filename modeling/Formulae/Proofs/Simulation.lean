namespace Formulae

section

variable {σ σ' ε ε' α α' β β' : Type}

inductive EndAlike (S : σ → σ' → Prop) (E : ε → ε' → Prop) (A : α → α' → Prop) :
    EStateM.Result ε σ α → EStateM.Result ε' σ' α' → Prop
  | ok (h : A a a') (hs : S s s') : EndAlike S E A (.ok a s) (.ok a' s')
  | error (h : E e e') (hs : S s s') : EndAlike S E A (.error e s) (.error e' s')

def Simulates (S : σ → σ' → Prop) (E : ε → ε' → Prop) (A : α → α' → Prop)
    (x : EStateM ε σ α) (x' : EStateM ε' σ' α') : Prop :=
  ∀ s s', S s s' → EndAlike S E A (x s) (x' s')

variable {S : σ → σ' → Prop} {E : ε → ε' → Prop} {A : α → α' → Prop} {B : β → β' → Prop}

namespace Simulates

theorem pure (h : A a a') :
    Simulates S E A (Pure.pure a : EStateM ε σ α) (Pure.pure a' : EStateM ε' σ' α') :=
  fun _ _ hs => .ok h hs

theorem throw (h : E e e') :
    Simulates S E A (MonadExcept.throw e : EStateM ε σ α) (MonadExcept.throw e' : EStateM ε' σ' α') :=
  fun _ _ hs => .error h hs

theorem modify {f : σ → σ} {f' : σ' → σ'} (h : ∀ s s', S s s' → S (f s) (f' s')) :
    Simulates S E Eq (modifyThe σ f : EStateM ε σ PUnit) (modifyThe σ' f' : EStateM ε' σ' PUnit) :=
  fun s s' hs => .ok rfl (h s s' hs)

theorem bind {x : EStateM ε σ α} {x' : EStateM ε' σ' α'} {f : α → EStateM ε σ β}
    {f' : α' → EStateM ε' σ' β'} (hx : Simulates S E A x x')
    (hf : ∀ a a', A a a' → Simulates S E B (f a) (f' a')) :
    Simulates S E B (x >>= f) (x' >>= f') := by
  intro s s' hs
  have hx := hx s s' hs
  simp only [Bind.bind, EStateM.bind]
  generalize x s = r, x' s' = r' at hx ⊢
  cases hx with
  | ok h hs => exact hf _ _ h _ _ hs
  | error h hs => exact .error h hs

end Simulates

end

end Formulae
