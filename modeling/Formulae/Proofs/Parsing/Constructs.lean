import Formulae.Proofs.Parsing.Levels

/-!
The constructs that are open behind some tokens. A scan keeps them on a stack, and knows nothing of
the levels of the grammar; it tells how a token is refused that comes next.
-/

namespace Formulae

open Token (Kind)
open Formulae.Grammar (Level)

/-- What is open until a certain token: an expression in parentheses, the arguments of a call, and
the branch for a true test. -/
inductive Construct
  | group (opening : Token)
  | call (name : Token)
  | branch
  deriving DecidableEq, Repr

def Token.Kind.awaitsOperand : Kind → Bool
  | .plus | .minus | .star | .slash | .percent | .caret
  | .bangEqual | .equalEqual | .greater | .greaterEqual | .less | .lessEqual
  | .wordAnd | .wordOr | .wordNot => true
  | .leftParen | .comma | .question | .colon => true
  | .rightParen | .identifier | .string | .number | .wordTrue | .wordFalse | .endOfInput => false

/-- The constructs that are open behind some tokens, the innermost one first, and the last of these
tokens. -/
structure Scan where
  constructs : List Construct := []
  last : Option Token := none
  deriving DecidableEq, Repr

namespace Scan

def due (s : Scan) : Bool :=
  match s.last with
  | none => true
  | some t => t.kind.awaitsOperand

def entered (s : Scan) (opening : Token) : Construct :=
  match s.last with
  | none => .group opening
  | some t => if t.kind = .identifier then .call t else .group opening

def step (s : Scan) (t : Token) : Scan where
  constructs :=
    match t.kind with
    | .leftParen => s.entered t :: s.constructs
    | .question => .branch :: s.constructs
    | .rightParen | .colon => s.constructs.tail
    | _ => s.constructs
  last := t

def along (s : Scan) (tokens : List Token) : Scan := tokens.foldl step s

end Scan

def Construct.unclosed (found : Token) : Construct → ParseError
  | .group opening => .parenExpected opening found
  | .call name => .callUnclosed name found
  | .branch => .colonExpected found

/-- What is reported where a construct has to be closed: the place of a parenthesis that is open, or
the name that is called and its place. -/
def Construct.Reports (d : Diagnostic) : Construct → Prop
  | .group opening => d.kind = .expectedClosingParen ∧
    d.context = s!"The '(' at line {opening.line}, column {opening.column} is never closed"
  | .call name => d.kind = .expectedClosingParenInCall ∧
    d.message = s!"Expected ')' to close call to '{name.lexeme}'" ∧
    d.context = s!"Call to '{name.lexeme}' starts at line {name.line}, column {name.column}"
  | .branch => d.kind = .expectedColon

theorem Construct.reports_unclosed (c : Construct) (found : Token) :
    c.Reports (c.unclosed found).toDiagnostic := by
  cases c with
  | group => exact ⟨rfl, rfl⟩
  | call => exact ⟨rfl, rfl, rfl⟩
  | branch => exact rfl

def Scan.refusal (s : Scan) (found : Token) : ParseError :=
  if s.due then .operandExpected found
  else
    match s.constructs with
    | [] => .endExpected found
    | c :: _ => c.unclosed found

namespace Scan

variable {s : Scan} {t : Token} {cs : List Construct}

theorem along_append (s : Scan) (w u : List Token) : s.along (w ++ u) = (s.along w).along u :=
  List.foldl_append

structure Rests (cs : List Construct) (s : Scan) : Prop where
  constructs_eq : s.constructs = cs
  due_eq : s.due = false

def Joins (k : Kind) : Prop := k.awaitsOperand ∧ k ∉ [Kind.leftParen, .question, .colon]

theorem due_step (s : Scan) (h : t.kind = k) : (s.step t).due = k.awaitsOperand :=
  congrArg Kind.awaitsOperand h

theorem constructs_step_of_joins (s : Scan) (h : Joins t.kind) :
    (s.step t).constructs = s.constructs := by
  obtain ⟨ha, hk⟩ := h
  simp only [List.mem_cons, List.not_mem_nil, or_false, not_or] at hk
  simp only [step]
  split
  next h => exact absurd h hk.1
  next h => exact absurd h hk.2.1
  next h => rw [h] at ha; cases ha
  next h => exact absurd h hk.2.2
  next => rfl

theorem constructs_step_leftParen (s : Scan) (h : t.kind = .leftParen) :
    (s.step t).constructs = s.entered t :: s.constructs := by
  rw [step]
  simp only [h]

theorem constructs_step_question (s : Scan) (h : t.kind = .question) :
    (s.step t).constructs = .branch :: s.constructs := by
  rw [step]
  simp only [h]

theorem constructs_step_closing (hc : s.constructs = c :: cs)
    (h : t.kind = .rightParen ∨ t.kind = .colon) : (s.step t).constructs = cs := by
  rw [step]
  rcases h with h | h <;> simp only [h, hc, List.tail_cons]

theorem rests_of_rightParen (hc : s.constructs = c :: cs) (h : t.kind = .rightParen) :
    Rests cs (s.step t) :=
  ⟨constructs_step_closing hc (.inl h), due_step s h⟩

theorem rests_of_atom (s : Scan)
    (h : t.kind ∈ [Kind.identifier, .string, .number, .wordTrue, .wordFalse]) :
    Rests s.constructs (s.step t) := by
  rw [step]
  simp only [List.mem_cons, List.not_mem_nil, or_false] at h
  rcases h with h | h | h | h | h <;> exact ⟨by simp only [h], by simp only [due, h]; rfl⟩

theorem entered_of_due (h : s.due) (opening : Token) : s.entered opening = .group opening := by
  rw [due] at h
  rw [entered]
  split at h
  next => rfl
  next t _ => exact if_neg fun hk => by rw [hk] at h; cases h

theorem entered_of_name (hl : s.last = some name) (hk : name.kind = .identifier)
    (opening : Token) : s.entered opening = .call name := by
  rw [entered, hl]
  exact if_pos hk

theorem refusal_of_due (h : s.due) (found : Token) : s.refusal found = .operandExpected found :=
  if_pos h

theorem refusal_of_rests (h : Rests (c :: cs) s) (found : Token) :
    s.refusal found = c.unclosed found := by
  rw [refusal, h.due_eq, h.constructs_eq]
  rfl

theorem refusal_of_rests_nil (h : Rests [] s) (found : Token) :
    s.refusal found = .endExpected found := by
  rw [refusal, h.due_eq, h.constructs_eq]
  rfl

theorem joins_of_operator? {l : Level} {op : BinaryOp} (h : l.operator? k = some op) : Joins k := by
  cases l <;> cases k <;> cases h <;> exact ⟨rfl, by decide⟩

theorem joins_of_unaryOp? {l : Level} {op : UnaryOp} (h : l.unaryOp? k = some op) : Joins k := by
  cases l <;> cases k <;> cases h <;> exact ⟨rfl, by decide⟩

theorem joins_of_separator? (h : Parser.separator? k = some u) : Joins k := by
  rw [Grammar.kind_eq_of_separator? h]
  exact ⟨rfl, by decide⟩

end Scan

end Formulae
