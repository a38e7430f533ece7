import Formulae.Proofs.Parsing.Levels

namespace Formulae

open Token (Kind)

namespace Grammar

def continued? : Kind → Option Level
  | .question => some .conditional
  | .wordOr => some .disjunction
  | .wordAnd => some .conjunction
  | .equalEqual | .bangEqual => some .equality
  | .less | .lessEqual | .greater | .greaterEqual => some .relation
  | .plus | .minus => some .sum
  | .star | .slash | .percent => some .product
  | .caret => some .power
  | .leftParen => some .operand
  | _ => none

def started? : Kind → Option Level
  | .wordNot => some .negation
  | .plus | .minus => some .signed
  | .identifier | .leftParen | .number | .string | .wordTrue | .wordFalse => some .operand
  | _ => none

def Level.EndsAt (l : Level) (k : Kind) : Prop := ∀ m, continued? k = some m → m.rank < l.rank

def Level.StartsAt (l : Level) (k : Kind) : Prop := ∃ m, started? k = some m ∧ l.rank ≤ m.rank

def Level.EndsBefore (l : Level) : List Token → Prop
  | [] => False
  | t :: _ => l.EndsAt t.kind

def Symbol.EndsBefore : Symbol → List Token → Prop
  | .phrase l, ts => l.EndsBefore ts
  | .sections l, ts => l.EndsBefore ts
  | .arguments, t :: _ => t.kind = .rightParen
  | .moreArguments, t :: _ => t.kind = .rightParen
  | _, [] => False

section

variable {l : Level} {k : Kind}

theorem Level.rank_le_next (l : Level) : l.rank ≤ l.next.rank := by cases l <;> decide

theorem continued?_of_operator? {op : BinaryOp} (h : l.operator? k = some op) :
    continued? k = some l := by
  cases l <;> cases k <;> cases h <;> rfl

theorem started?_of_unaryOp? {op : UnaryOp} (h : l.unaryOp? k = some op) :
    started? k = some l := by
  cases l <;> cases k <;> cases h <;> rfl

theorem rank_lt_next_of_operator? {op : BinaryOp} (h : l.operator? k = some op) :
    l.rank < l.next.rank := by
  cases l <;> cases k <;> cases h <;> decide

theorem rank_lt_next_of_unaryOp? {op : UnaryOp} (h : l.unaryOp? k = some op) :
    l.rank < l.next.rank := by
  cases l <;> cases k <;> cases h <;> decide

namespace Level.EndsAt

theorem next (h : l.EndsAt k) : l.next.EndsAt k := fun m hm =>
  Nat.lt_of_lt_of_le (h m hm) l.rank_le_next

theorem operator?_eq_none (h : l.EndsAt k) : l.operator? k = none := by
  cases ho : l.operator? k with
  | none => rfl
  | some op => exact absurd (h l (continued?_of_operator? ho)) (Nat.lt_irrefl _)

theorem of_binaryToken (op : BinaryToken l) : l.next.EndsAt op.token.kind := by
  intro m hm
  rw [continued?_of_operator? op.operator?_eq] at hm
  cases hm
  exact rank_lt_next_of_operator? op.operator?_eq

theorem of_continued?_eq_none (h : continued? k = none) : l.EndsAt k := by
  intro m hm
  rw [h] at hm
  cases hm

theorem of_terminal {k' : Kind} (u : Terminal k') (h : continued? k' = none) :
    l.EndsAt u.token.kind :=
  of_continued?_eq_none (by rw [u.kind_eq, h])

theorem of_question (question : Terminal .question) :
    Level.disjunction.EndsAt question.token.kind := by
  rw [question.kind_eq]
  rintro m ⟨⟩
  decide

end Level.EndsAt

theorem Level.StartsAt.unaryOp?_eq_none (h : l.next.StartsAt k) : l.unaryOp? k = none := by
  cases ho : l.unaryOp? k with
  | none => rfl
  | some op =>
    obtain ⟨m, hm, hr⟩ := h
    rw [started?_of_unaryOp? ho] at hm
    cases hm
    exact absurd (rank_lt_next_of_unaryOp? ho) (Nat.not_lt.2 hr)

def Symbol.Starts : Symbol → List Token → Prop
  | .phrase l, w => ∃ t ts, w = t :: ts ∧ l.StartsAt t.kind
  | _, _ => True

theorem Derivation.starts (d : Derivation σ) : σ.Starts d.word := by
  induction d with
  | @pass l _ inner ih =>
    obtain ⟨t, ts, hw, m, hm, hr⟩ := ih
    exact ⟨t, ts, hw, m, hm, Nat.le_trans l.rank_le_next hr⟩
  | @chain l _ first more ih =>
    obtain ⟨t, ts, hw, m, hm, hr⟩ := ih
    exact ⟨t, ts ++ more.word, by rw [word, hw]; rfl, m, hm, Nat.le_trans l.rank_le_next hr⟩
  | conditional test question accept colon reject ih =>
    obtain ⟨t, ts, hw, m, hm, _⟩ := ih
    exact ⟨t, _, by rw [word, hw]; rfl, m, hm, Nat.zero_le _⟩
  | relation left op right ih =>
    obtain ⟨t, ts, hw, m, hm, hr⟩ := ih
    exact ⟨t, _, by rw [word, hw]; rfl, m, hm, Nat.le_trans (Level.rank_le_next .relation) hr⟩
  | @unary l op operand =>
    exact ⟨op.token, operand.word, rfl, l, started?_of_unaryOp? op.unaryOp?_eq, Nat.le_refl _⟩
  | name t | number t | string t | wordTrue t | wordFalse t =>
    exact ⟨t.token, [], rfl, .operand, by rw [t.kind_eq]; rfl, Nat.le_refl _⟩
  | group opening inner closing =>
    exact ⟨opening.token, _, rfl, .operand, by rw [opening.kind_eq]; rfl, Nat.le_refl _⟩
  | call name opening args closing =>
    exact ⟨name.token, _, rfl, .operand, by rw [name.kind_eq]; rfl, Nat.le_refl _⟩
  | noSections | oneMore | noArguments | someArguments | noMore | another => trivial

end

theorem Level.EndsBefore.next {l : Level} (h : l.EndsBefore ts) : l.next.EndsBefore ts := by
  cases ts with
  | nil => exact h
  | cons t ts => exact Level.EndsAt.next h

theorem endsBefore_sections {l : Level} (more : Derivation (.sections l)) (h : l.EndsBefore ts) :
    l.next.EndsBefore (more.word ++ ts) := by
  cases more with
  | noSections => exact h.next
  | oneMore op operand more => exact Level.EndsAt.of_binaryToken op

theorem endsBefore_moreArguments (more : Derivation .moreArguments)
    (h : Symbol.moreArguments.EndsBefore ts) : Level.conditional.EndsBefore (more.word ++ ts) := by
  cases more with
  | noMore =>
    cases ts with
    | nil => exact h
    | cons t ts => exact .of_continued?_eq_none (by rw [show t.kind = _ from h]; rfl)
  | another comma argument more =>
    exact Level.EndsAt.of_terminal comma rfl

end Grammar

end Formulae
