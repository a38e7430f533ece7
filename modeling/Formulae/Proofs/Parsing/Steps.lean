import Formulae.Parser
import Formulae.Proofs.Sequences

namespace Formulae

open Token (Kind)

namespace Parser

variable {x : Parse α} {f : α → Parse β} {t : Token} {ts : List Token} {n k : Nat}

theorem eq_ok_of_bind_pure {g : α → β}
    (h : (x >>= fun a => pure (g a)) p = .ok b q) : ∃ a, x p = .ok a q ∧ g a = b := by
  obtain ⟨a, r, ha, h⟩ := eq_ok_of_bind h
  cases h
  exact ⟨a, ha, rfl⟩

theorem current_eq_ok (h : current p = .ok t q) : q = p ∧ ∃ ts, p.rest = t :: ts := by
  rcases p with ⟨_ | ⟨u, us⟩, i, k⟩ <;> cases h
  exact ⟨rfl, us, rfl⟩

theorem ok_congr {a : α} (h : i = j) :
    (.ok a ⟨ts, i, k⟩ : EStateM.Result ParseError Parser α) = .ok a ⟨ts, j, k⟩ := by rw [h]

theorem current_bind {f : Token → Parse β} :
    (current >>= f) ⟨t :: ts, n, k⟩ = f t ⟨t :: ts, n, k⟩ := rfl

theorem advance_bind {f : Unit → Parse β} :
    (advance >>= f) ⟨t :: ts, n, k⟩ = f () ⟨ts, n + 1, k⟩ := rfl

structure Passes (p : Parser) (w : List Token) (q : Parser) : Prop where
  rest_eq : p.rest = w ++ q.rest
  position_eq : q.position = p.position + w.length

namespace Passes

theorem refl (p : Parser) : p.Passes [] p := ⟨rfl, rfl⟩

theorem trans {p q r : Parser} (h : p.Passes w q) (h' : q.Passes u r) : p.Passes (w ++ u) r where
  rest_eq := by rw [h.rest_eq, h'.rest_eq, List.append_assoc]
  position_eq := by rw [h'.position_eq, h.position_eq, List.length_append, Nat.add_assoc]

theorem next {p q : Parser} (h : p.Passes w q) (hq : q.rest = t :: ts) :
    p.Passes (w ++ [t]) q.next :=
  h.trans ⟨by simp [Parser.next, hq], by simp [Parser.next, hq]⟩

end Passes

def Shrinks (x : Parse α) : Prop := ∀ p a q, x p = .ok a q → q.rest.length ≤ p.rest.length

section

variable {operator? : Kind → Option α} {operand : Parse Expr}

theorem sections_nil (n i k : Nat) :
    sections operator? operand n ⟨[], i, k⟩ = .error .endMissing ⟨[], i, k⟩ := by
  cases n <;> rfl

theorem sections_cons (n : Nat) {op : α} (h : operator? t.kind = some op) :
    sections operator? operand (n + 1) ⟨t :: ts, i, k⟩ =
      (do let e ← operand
          let more ← sections operator? operand n
          pure ((op, t, e) :: more) : Parse (List (α × Token × Expr))) ⟨ts, i + 1, k⟩ := by
  rw [sections, current_bind, h]
  rfl

theorem sections_stop (n : Nat) (h : operator? t.kind = none) :
    sections operator? operand n ⟨t :: ts, i, k⟩ = .ok [] ⟨t :: ts, i, k⟩ := by
  cases n with
  | zero => rfl
  | succ n => rw [sections, current_bind, h]; rfl

theorem sections_eq_of_length_le (ho : Shrinks operand) :
    ∀ {n m : Nat} {p : Parser}, p.rest.length ≤ n → p.rest.length ≤ m →
      sections operator? operand n p = sections operator? operand m p := by
  intro n
  induction n with
  | zero =>
    rintro m ⟨_ | ⟨t, ts⟩, i, k⟩ hn hm
    · rw [sections_nil, sections_nil]
    · simp at hn
  | succ n ih =>
    rintro m ⟨_ | ⟨t, ts⟩, i, k⟩ hn hm
    · rw [sections_nil, sections_nil]
    obtain ⟨m, rfl⟩ : ∃ m', m = m' + 1 := ⟨m - 1, by simp at hm; omega⟩
    cases h : operator? t.kind with
    | none => rw [sections_stop _ h, sections_stop _ h]
    | some op =>
      rw [sections_cons n h, sections_cons m h]
      simp only [bind, EStateM.bind]
      split
      next e q he =>
        have := ho _ _ _ he
        simp only [List.length_cons] at hn hm this
        rw [@ih m q (by omega) (by omega)]
      next => rfl

theorem chain_eq_sections (ho : Shrinks operand) {p : Parser} (h : p.rest.length ≤ n) :
    chain operator? operand p = sections operator? operand n p := by
  rcases p with ⟨_ | ⟨t, ts⟩, i, k⟩
  · rw [sections_nil]; rfl
  rw [chain, current_bind]
  cases ht : operator? t.kind with
  | none => rw [sections_stop _ ht]; rfl
  | some op => exact sections_eq_of_length_le ho (Nat.le_refl _) h

theorem chain_stop (h : operator? t.kind = none) :
    chain operator? operand ⟨t :: ts, i, k⟩ = .ok [] ⟨t :: ts, i, k⟩ := by
  rw [chain, current_bind, h]
  rfl

theorem chain_cons (ho : Shrinks operand) {op : α} (h : operator? t.kind = some op) :
    chain operator? operand ⟨t :: ts, i, k⟩ =
      (do let e ← operand
          let more ← chain operator? operand
          pure ((op, t, e) :: more) : Parse (List (α × Token × Expr))) ⟨ts, i + 1, k⟩ := by
  rw [chain_eq_sections ho (Nat.le_refl _), List.length_cons, sections_cons _ h]
  simp only [bind, EStateM.bind]
  split
  next e q he => rw [chain_eq_sections ho (ho _ _ _ he)]
  next => rfl

end

theorem nested_ok {entry : Entry}
    (h : body (nested limit left) entry ⟨w, i, k + 1⟩ = .ok e ⟨w', j, k + 1⟩) :
    nested limit (left + 1) entry t ⟨w, i, k⟩ = .ok e ⟨w', j, k⟩ := by
  change (body (nested limit left) entry >>= fun e => do close; pure e) ⟨w, i, k + 1⟩ = _
  rw [bind_ok h]
  rfl

end Parser

end Formulae
