import Formulae.Proofs.Alike
import Formulae.Proofs.Lexing.Spacing
import Formulae.Proofs.Sexp
import Formulae.Proofs.WellFormed

namespace Formulae

open Token (Kind)

def UnaryOp.ofSymbol? (symbol : String) : Option UnaryOp :=
  [UnaryOp.plus, .minus, .not].find? (·.symbol = symbol)

def BinaryOp.ofSymbol? (symbol : String) : Option BinaryOp :=
  [.arithmetic .add, .arithmetic .subtract, .arithmetic .multiply, .arithmetic .divide,
    .arithmetic .remainder, .arithmetic .power, .comparison .equal, .comparison .notEqual,
    .comparison .less, .comparison .lessEqual, .comparison .greater, .comparison .greaterEqual,
    .logic .and, .logic .or].find? (BinaryOp.symbol · = symbol)

theorem UnaryOp.ofSymbol?_symbol (op : UnaryOp) : ofSymbol? op.symbol = some op := by
  cases op <;> rfl

theorem BinaryOp.ofSymbol?_symbol (op : BinaryOp) : ofSymbol? op.symbol = some op := by
  rcases op with op | op | op <;> cases op <;> rfl

theorem UnaryOp.symbol_injective {op op' : UnaryOp} (h : op.symbol = op'.symbol) : op = op' := by
  have h := congrArg ofSymbol? h
  rw [ofSymbol?_symbol, ofSymbol?_symbol] at h
  exact Option.some.inj h

theorem BinaryOp.symbol_injective {op op' : BinaryOp} (h : op.symbol = op'.symbol) : op = op' := by
  have h := congrArg ofSymbol? h
  rw [ofSymbol?_symbol, ofSymbol?_symbol] at h
  exact Option.some.inj h

namespace Expr

def callHead : List Char := ['c', 'a', 'l', 'l']

mutual

def outline : Expr → Sexp
  | .number text _ => .atom text.toList
  | .string text _ => .atom text.toList
  | .boolean value _ => .atom (if value then "true" else "false").toList
  | .identifier name _ => .atom name.toList
  | .unary op operand _ => .node op.symbol.toList [operand.outline]
  | .binary op left right _ => .node op.symbol.toList [left.outline, right.outline]
  | .conditional test accept reject _ =>
    .node ['?'] [test.outline, accept.outline, reject.outline]
  | .call callee arguments _ => .node callHead (callee.outline :: outlineAll arguments)
  | .extension .. => .atom "?".toList

def outlineAll : List Expr → List Sexp
  | [] => []
  | e :: es => e.outline :: outlineAll es

end

mutual

theorem toList_describe : (e : Expr) → e.describe.toList = e.outline.print
  | .number .. | .string .. | .boolean .. | .identifier .. | .extension .. => rfl
  | .unary op operand _ => by
    simp [describe, outline, Sexp.print, Sexp.printAll, toList_describe operand]
  | .binary op left right _ => by
    simp [describe, outline, Sexp.print, Sexp.printAll, toList_describe left, toList_describe right]
  | .conditional test accept reject _ => by
    simp [describe, outline, Sexp.print, Sexp.printAll, toList_describe test,
      toList_describe accept, toList_describe reject]
  | .call callee args _ => by
    simp [describe, outline, callHead, Sexp.print, Sexp.printAll, toList_describe callee,
      toList_describeAll args]

theorem toList_describeAll : (es : List Expr) →
    (describeAll es).toList = Sexp.printAll (outlineAll es)
  | [] => rfl
  | e :: es => by
    simp [describeAll, outlineAll, Sexp.printAll, toList_describe e, toList_describeAll es]

end

end Expr

theorem Sexp.isPlain_of_isAlphanum (c : Char) (hc : c.isAlphanum) : isPlain c := by
  simp [isPlain, Lexeme.ne_of_isAlphanum hc (d := ' ') rfl,
    Lexeme.ne_of_isAlphanum hc (d := '(') rfl, Lexeme.ne_of_isAlphanum hc (d := ')') rfl,
    Lexeme.ne_of_isAlphanum hc (d := '"') rfl]

namespace Expr

def ofLexeme (k : Kind) (w : List Char) : Expr :=
  match k with
  | .number => .number (String.ofList w) .nowhere
  | .string => .string (String.ofList w) .nowhere
  | .identifier => .identifier (String.ofList w) .nowhere
  | .wordTrue => .boolean true .nowhere
  | _ => .boolean false .nowhere

structure Leaf (e : Expr) (k : Kind) (w : List Char) : Prop where
  mem : w ∈ Lexeme.language k
  outline_eq : e.outline = .atom w
  unplaced_eq : e.unplaced = ofLexeme k w
  atom : Sexp.Atom w

theorem Leaf.number (h : text.toList ∈ Lexeme.language .number) :
    Leaf (.number text l) .number text.toList where
  mem := h
  outline_eq := rfl
  unplaced_eq := by rw [unplaced, ofLexeme, String.ofList_toList]
  atom := by
    refine .plain ?_ (Lexeme.number_le_run Sexp.isPlain_of_isAlphanum rfl rfl rfl h)
    intro hn
    exact Lexeme.nil_notMem_language .number (hn ▸ h)

theorem Leaf.identifier (h : name.toList ∈ Lexeme.language .identifier) :
    Leaf (.identifier name l) .identifier name.toList where
  mem := h
  outline_eq := rfl
  unplaced_eq := by rw [unplaced, ofLexeme, String.ofList_toList]
  atom := by
    refine .plain ?_ (Lexeme.word_le_run Sexp.isPlain_of_isAlphanum h.1)
    intro hn
    exact Lexeme.nil_notMem_language .identifier (hn ▸ h)

theorem Leaf.string (h : text.toList ∈ Lexeme.language .string) :
    Leaf (.string text l) .string text.toList where
  mem := h
  outline_eq := rfl
  unplaced_eq := by rw [unplaced, ofLexeme, String.ofList_toList]
  atom := by
    generalize text.toList = w at h
    rcases w with _ | ⟨c, w⟩
    · exact absurd h (Lexeme.nil_notMem_language .string)
    · obtain ⟨rfl, body, hb, rfl⟩ := Lexeme.cons_mem_string.1 h
      refine .quoted ?_
      rintro c hc rfl
      exact hb hc

theorem Leaf.boolean (value : Bool) :
    Leaf (.boolean value l) (if value then .wordTrue else .wordFalse)
      (if value then "true" else "false").toList where
  mem := by cases value <;> rfl
  outline_eq := rfl
  unplaced_eq := by cases value <;> rfl
  atom := by cases value <;> exact .plain (by decide) (List.all_eq_true.1 rfl)

theorem leaf_or_node : (e : Expr) → e.WellFormed →
    (∃ k w, e.Leaf k w) ∨ ∃ head items, e.outline = .node head items
  | .number .., h => .inl ⟨_, _, .number h.written⟩
  | .string .., h => .inl ⟨_, _, .string h.written⟩
  | .boolean value _, _ => .inl ⟨_, _, .boolean value⟩
  | .identifier .., h => .inl ⟨_, _, .identifier h.written⟩
  | .unary .., _ | .binary .., _ | .conditional .., _ | .call .., _ => .inr ⟨_, _, rfl⟩
  | .extension .., h => h.written.elim

mutual

theorem proper_outline : (e : Expr) → e.WellFormed → e.outline.Proper
  | .number .., h => (Leaf.number (l := .nowhere) h.written).atom
  | .string .., h => (Leaf.string (l := .nowhere) h.written).atom
  | .boolean value _, _ => (Leaf.boolean (l := .nowhere) value).atom
  | .identifier .., h => (Leaf.identifier (l := .nowhere) h.written).atom
  | .unary op operand _, h => by
    refine ⟨?_, proper_outline operand (WellFormed.unary_iff.1 h), trivial⟩
    cases op <;> exact List.all_eq_true.1 rfl
  | .binary op left right _, h => by
    have h := WellFormed.binary_iff.1 h
    refine ⟨?_, proper_outline left h.1, proper_outline right h.2, trivial⟩
    rcases op with op | op | op <;> cases op <;> exact List.all_eq_true.1 rfl
  | .conditional test accept reject _, h =>
    have h := WellFormed.conditional_iff.1 h
    ⟨List.all_eq_true.1 rfl, proper_outline test h.1, proper_outline accept h.2.1,
      proper_outline reject h.2.2, trivial⟩
  | .call callee args _, h =>
    have h := WellFormed.call_iff.1 h
    ⟨List.all_eq_true.1 rfl, proper_outline callee h.2.1, properAll_outlineAll args h.2.2⟩
  | .extension .., h => h.written.elim

theorem properAll_outlineAll : (es : List Expr) → (∀ n ∈ nodesAll es, n.Written) →
    Sexp.ProperAll (outlineAll es)
  | [], _ => trivial
  | e :: es, h => by
    rw [nodesAll, List.forall_mem_append] at h
    exact ⟨proper_outline e h.1, properAll_outlineAll es h.2⟩

end

theorem Leaf.unplaced_eq_of_outline {e f : Expr} (he : e.Leaf k w) (hf : f.WellFormed)
    (h : e.outline = f.outline) : e.unplaced = f.unplaced := by
  obtain ⟨k', w', hl⟩ | ⟨head, items, hn⟩ := leaf_or_node f hf
  · rw [he.outline_eq, hl.outline_eq] at h
    cases h
    rw [he.unplaced_eq, hl.unplaced_eq, Lexeme.kind_eq_of_mem_language he.mem hl.mem]
  · rw [he.outline_eq, hn] at h
    cases h

theorem unary_ne_callHead (op : UnaryOp) : op.symbol.toList ≠ callHead := by
  cases op <;> decide

theorem binary_ne_callHead (op : BinaryOp) : op.symbol.toList ≠ callHead := by
  rcases op with op | op | op <;> cases op <;> decide

mutual

/-- The head and the number of the items tell operators with one operand from those with two, and
these from calls and conditionals. -/
theorem unplaced_eq_of_outline : (e f : Expr) → e.WellFormed → f.WellFormed →
    e.outline = f.outline → e.unplaced = f.unplaced
  | .number .., _, he, hf, h => (Leaf.number he.written).unplaced_eq_of_outline hf h
  | .string .., _, he, hf, h => (Leaf.string he.written).unplaced_eq_of_outline hf h
  | .boolean value _, _, _, hf, h => (Leaf.boolean value).unplaced_eq_of_outline hf h
  | .identifier .., _, he, hf, h => (Leaf.identifier he.written).unplaced_eq_of_outline hf h
  | .unary op operand _, f, he, hf, h => by
    cases f with
    | unary op' operand' =>
      simp only [outline, Sexp.node.injEq, String.toList_inj, List.cons.injEq, and_true] at h
      rw [unplaced, unplaced, UnaryOp.symbol_injective h.1, unplaced_eq_of_outline operand operand'
        (WellFormed.unary_iff.1 he) (WellFormed.unary_iff.1 hf) h.2]
    | call => exact absurd (Sexp.node.inj h).1 (unary_ne_callHead op)
    | _ => simp [outline] at h
  | .binary op left right _, f, he, hf, h => by
    cases f with
    | binary op' left' right' =>
      simp only [outline, Sexp.node.injEq, String.toList_inj, List.cons.injEq, and_true] at h
      have he := WellFormed.binary_iff.1 he
      have hf := WellFormed.binary_iff.1 hf
      rw [unplaced, unplaced, BinaryOp.symbol_injective h.1,
        unplaced_eq_of_outline left left' he.1 hf.1 h.2.1,
        unplaced_eq_of_outline right right' he.2 hf.2 h.2.2]
    | call => exact absurd (Sexp.node.inj h).1 (binary_ne_callHead op)
    | _ => simp [outline] at h
  | .conditional test accept reject _, f, he, hf, h => by
    cases f with
    | conditional test' accept' reject' =>
      simp only [outline, Sexp.node.injEq, List.cons.injEq, true_and, and_true] at h
      have he := WellFormed.conditional_iff.1 he
      have hf := WellFormed.conditional_iff.1 hf
      rw [unplaced, unplaced, unplaced_eq_of_outline test test' he.1 hf.1 h.1,
        unplaced_eq_of_outline accept accept' he.2.1 hf.2.1 h.2.1,
        unplaced_eq_of_outline reject reject' he.2.2 hf.2.2 h.2.2]
    | _ => simp [outline, callHead] at h
  | .call callee args _, f, he, hf, h => by
    cases f with
    | call callee' args' =>
      simp only [outline, Sexp.node.injEq, List.cons.injEq, true_and] at h
      have he := WellFormed.call_iff.1 he
      have hf := WellFormed.call_iff.1 hf
      rw [unplaced, unplaced, unplaced_eq_of_outline callee callee' he.2.1 hf.2.1 h.1,
        unplacedAll_eq_of_outlineAll args args' he.2.2 hf.2.2 h.2]
    | unary op => exact absurd (Sexp.node.inj h).1.symm (unary_ne_callHead op)
    | binary op => exact absurd (Sexp.node.inj h).1.symm (binary_ne_callHead op)
    | _ => simp [outline, callHead] at h
  | .extension .., _, he, _, _ => he.written.elim

theorem unplacedAll_eq_of_outlineAll : (es fs : List Expr) → (∀ n ∈ nodesAll es, n.Written) →
    (∀ n ∈ nodesAll fs, n.Written) → outlineAll es = outlineAll fs →
    unplacedAll es = unplacedAll fs
  | [], [], _, _, _ => rfl
  | e :: es, f :: fs, he, hf, h => by
    rw [nodesAll, List.forall_mem_append] at he hf
    obtain ⟨h, hs⟩ := List.cons.inj h
    rw [unplacedAll, unplacedAll, unplaced_eq_of_outline e f he.1 hf.1 h,
      unplacedAll_eq_of_outlineAll es fs he.2 hf.2 hs]

end

mutual

theorem outline_unplaced : (e : Expr) → e.unplaced.outline = e.outline
  | .number .. | .string .. | .boolean .. | .identifier .. | .extension .. => rfl
  | .unary op operand _ => by rw [unplaced, outline, outline, outline_unplaced operand]
  | .binary op left right _ => by
    rw [unplaced, outline, outline, outline_unplaced left, outline_unplaced right]
  | .conditional test accept reject _ => by
    rw [unplaced, outline, outline, outline_unplaced test, outline_unplaced accept,
      outline_unplaced reject]
  | .call callee args _ => by
    rw [unplaced, outline, outline, outline_unplaced callee, outlineAll_unplacedAll args]

theorem outlineAll_unplacedAll : (es : List Expr) → outlineAll (unplacedAll es) = outlineAll es
  | [] => rfl
  | e :: es => by
    rw [unplacedAll, outlineAll, outlineAll, outline_unplaced e, outlineAll_unplacedAll es]

end

theorem same_iff_describe_eq {e f : Expr} (he : e.WellFormed) (hf : f.WellFormed) :
    e.same f ↔ e.describe = f.describe := by
  rw [same_iff, ← String.toList_inj, toList_describe, toList_describe]
  constructor
  · intro h
    rw [← outline_unplaced e, h, outline_unplaced]
  · intro h
    exact unplaced_eq_of_outline e f he hf
      (Sexp.print_injective (proper_outline e he) (proper_outline f hf) h)

end Expr

namespace Session

/-- The expressions that two texts are read as, under any limits, have the same description if and
only if they are the same. -/
theorem describe_eq_iff_same {s s' : Session} {a b : String} {e f : Expr}
    (he : (s.parse a).outcome.1 = .ok e) (hf : (s'.parse b).outcome.1 = .ok f) :
    e.describe = f.describe ↔ e.same f :=
  (Expr.same_iff_describe_eq (wellFormed_of_parse he) (wellFormed_of_parse hf)).symm

/-- A call of a function `call` with a string that has a blank and a parenthesis in it. -/
theorem describe_eq_iff_same_of_call :
    let e : Expr := .call (.identifier "call" (.ofPair 1 1)) [.string "\"a )\"" (.ofPair 1 6)]
      (.ofPair 1 1)
    let f : Expr := .call (.identifier "call" (.ofPair 1 2)) [.string "\"a )\"" (.ofPair 1 8)]
      (.ofPair 1 2)
    (({} : Session).parse "call(\"a )\")").outcome.1 = .ok e ∧
      (({ maxParseDepth := 9 } : Session).parse "(call( \"a )\" ))").outcome.1 = .ok f ∧
      e.describe = "(call call \"a )\")" ∧ (e.describe = f.describe ↔ e.same f) := by
  intro e f
  have ha : lex "call(\"a )\")" = .ok [⟨.identifier, "call", 1, 1⟩, ⟨.leftParen, "(", 1, 5⟩,
      ⟨.string, "\"a )\"", 1, 6⟩, ⟨.rightParen, ")", 1, 11⟩, ⟨.endOfInput, "", 1, 12⟩] := by
    decide +kernel
  have hb : lex "(call( \"a )\" ))" = .ok [⟨.leftParen, "(", 1, 1⟩, ⟨.identifier, "call", 1, 2⟩,
      ⟨.leftParen, "(", 1, 6⟩, ⟨.string, "\"a )\"", 1, 8⟩, ⟨.rightParen, ")", 1, 14⟩,
      ⟨.rightParen, ")", 1, 15⟩, ⟨.endOfInput, "", 1, 16⟩] := by
    decide +kernel
  have he : (({} : Session).parse "call(\"a )\")").outcome.1 = .ok e :=
    parse_eq_ok_iff.2 ⟨_, ha, rfl⟩
  have hf : (({ maxParseDepth := 9 } : Session).parse "(call( \"a )\" ))").outcome.1 = .ok f :=
    parse_eq_ok_iff.2 ⟨_, hb, rfl⟩
  exact ⟨he, hf, by decide +kernel, describe_eq_iff_same he hf⟩

end Session

end Formulae
