import Formulae.Proofs.Conversion
import Formulae.Proofs.Evaluation.Threshold
import Formulae.Proofs.WellFormed

namespace Formulae

namespace Double

theorem Rounds.isNegative {x : Float} (h : Rounds negative q x) :
    view x ≠ .nan ∧ Double.isNegative x = negative := by
  cases h with
  | finite hv => exact ⟨by rw [hv]; nofun, isNegative_of_finite hv⟩
  | infinite hv => exact ⟨by rw [hv]; nofun, isNegative_of_infinity hv⟩

end Double

namespace Numeral

theorem decimals_of_number {w : List Char} (h : w ∈ Lexeme.number) : w ∈ decimals := by
  obtain ⟨_, ⟨whole, hw, tail, ht, rfl⟩, rest, hr, rfl⟩ := h
  refine ⟨_, .inl ⟨whole, hw, tail, ?_, rfl⟩, rest, hr, rfl⟩
  rcases ht with ht | ⟨_, hp, ds, hd, rfl⟩
  · exact .inl ht
  · exact .inr ⟨_, hp, ds, hd.2, rfl⟩

theorem read_of_mem_decimals {text : String} (h : text.toList ∈ decimals) :
    ∃ q x, Denotes text.toList q ∧ Double.Rounds false q x ∧ read text = some x := by
  obtain ⟨q, hq⟩ := mem_decimals_iff.1 h
  obtain ⟨d, -, rfl⟩ := readDecimal_of_denotes hq
  have hr := Decimal.rounds_toFloat false d
  exact ⟨_, _, hq, hr, read_iff.2 (.decimal .none hq hr)⟩

end Numeral

theorem Value.ofNumeral_of_literal {text : String} (h : text.toList ∈ Lexeme.number) :
    ∃ x, ofNumeral text = .ok (.number x) := by
  obtain ⟨-, x, -, -, hx⟩ := Numeral.read_of_mem_decimals (Numeral.decimals_of_number h)
  exact ⟨x, by rw [ofNumeral, hx]⟩

def Fault.Numeric : Fault → Prop
  | .diagnostic d => d.kind = .invalidNumericLiteral
  | .host _ => False

/-- How such a fault comes out of these nodes: a plus sign stands in front of a string that is not
the text of a number, or the context answered the last request with such a fault. -/
inductive NotNumeric (context : Context) (N : List Expr) : Fault → List Request → Prop
  | plus {operand : Expr} {l : Location} {text : String} {earlier later : List Request}
      (hn : .unary .plus operand l ∈ N)
      (hv : operand.plain context earlier = .ok (.string text) later)
      (ht : text.toList ∉ Numeral.numerals) :
      NotNumeric context N (.diagnostic ((EvalError.invalidNumber text).toDiagnostic l)) later
  | answer {n : Expr} {r : Request} {d : Diagnostic} {earlier : List Request} (hn : n ∈ N)
      (ha : n.Asks r) (hr : context.answer earlier r = .error (.diagnostic d))
      (hd : d.kind = .invalidNumericLiteral) :
      NotNumeric context N (.diagnostic (d.locate n.location)) (r :: earlier)

theorem EvalError.numeric_iff {e : EvalError} (l : Location) :
    (e.toDiagnostic l).kind = .invalidNumericLiteral ↔ ∃ text, e = .invalidNumber text := by
  constructor
  · intro h
    cases e with
    | invalidNumber text => exact ⟨text, rfl⟩
    | _ => cases h
  · rintro ⟨text, rfl⟩
    rfl

namespace Value

theorem applyBinary_ne_invalidNumber (op : BinaryOp) (x y : Value) (text : String) :
    applyBinary op x y ≠ .error (.invalidNumber text) := by
  rcases op with op | op | op
  · change applyArithmetic op x y ≠ _
    unfold applyArithmetic
    split
    next => nofun
    next => split <;> nofun
    next => nofun
  · cases x <;> cases y <;> nofun
  · cases x <;> cases y <;> nofun

theorem choose_ne_invalidNumber (test accept reject : Value) (text : String) :
    choose test accept reject ≠ .error (.invalidNumber text) := by
  unfold choose
  split
  next => split <;> nofun
  next => nofun

theorem string_of_applyUnary {op : UnaryOp} {v : Value} {text : String}
    (h : applyUnary op v = .error (.invalidNumber text)) :
    op = .plus ∧ v = .string text ∧ text.toList ∉ Numeral.numerals := by
  cases op <;> cases v <;> try cases h
  next s =>
    obtain ⟨ht, he⟩ := ((applyUnary_plus_string s).2 _).1 h
    cases he
    exact ⟨rfl, rfl, ht⟩

end Value

namespace Eval

def Accounts (context : Context) (N : List Expr) (x : Eval α) : Prop :=
  ∀ earlier fault later, x earlier = .error fault later → fault.Numeric →
    NotNumeric context N fault later

namespace Accounts

variable {context : Context} {N M : List Expr}

theorem pure (a : α) : Accounts context N (Pure.pure a : Eval α) := by
  intro earlier fault later h
  cases h

theorem bind {x : Eval α} {f : α → Eval β} (hx : Accounts context N x)
    (hf : ∀ a, Accounts context N (f a)) : Accounts context N (x >>= f) := by
  intro earlier fault later h hn
  obtain h | ⟨a, middle, -, h⟩ := eq_error_of_bind h
  · exact hx earlier fault later h hn
  · exact hf a middle fault later h hn

theorem ofExcept {x : Except EvalError α} (l : Location)
    (h : ∀ text, x ≠ .error (.invalidNumber text)) : Accounts context N (Eval.ofExcept l x) := by
  intro earlier fault later he hn
  cases x with
  | ok a => cases he
  | error e =>
    cases he
    obtain ⟨text, rfl⟩ := (EvalError.numeric_iff l).1 hn
    exact absurd rfl (h text)

theorem unary {op : UnaryOp} {operand : Expr} {l : Location}
    (hx : Accounts context N (operand.plain context)) (hn : .unary op operand l ∈ N) :
    Accounts context N (do
      let v ← operand.plain context
      Eval.ofExcept l (Value.applyUnary op v)) := by
  intro earlier fault later h hf
  obtain h | ⟨v, middle, hv, h⟩ := eq_error_of_bind h
  · exact hx earlier fault later h hf
  · cases ha : Value.applyUnary op v with
    | ok w => rw [ha] at h; cases h
    | error e =>
      rw [ha] at h
      cases h
      obtain ⟨text, rfl⟩ := (EvalError.numeric_iff l).1 hf
      obtain ⟨rfl, rfl, ht⟩ := Value.string_of_applyUnary ha
      exact .plus hn hv ht

theorem identifier {name : String} {l : Location} (hn : .identifier name l ∈ N) :
    Accounts context N (Eval.locating l (Eval.request context (.resolve name))) := by
  intro earlier fault later h hf
  rw [locating_apply, request_apply] at h
  cases hr : context.answer earlier (.resolve name) with
  | ok v => rw [hr] at h; cases h
  | error e =>
    rw [hr] at h
    cases h
    cases e with
    | diagnostic d => exact .answer hn .name hr hf
    | host e => exact hf.elim

theorem call {name : String} {m : Location} {args : List Expr} {l : Location} (vs : List Value)
    (hn : .call (.identifier name m) args l ∈ N) :
    Accounts context N (Eval.reportingCall name l (Eval.request context (.invoke name vs))) := by
  intro earlier fault later h hf
  rw [reportingCall_apply name m l args, request_apply] at h
  cases hr : context.answer earlier (.invoke name vs) with
  | ok v => rw [hr] at h; cases h
  | error e =>
    rw [hr] at h
    cases h
    cases e with
    | diagnostic d => exact .answer hn .call hr hf
    | host e => cases hf

end Accounts

end Eval

namespace Expr

open Eval (Accounts)

variable {N : List Expr}

mutual

theorem plain_accounts (context : Context) : (e : Expr) → e.WellFormed → e.nodes ⊆ N →
    Accounts context N (e.plain context)
  | .number text l, h, _ => by
    obtain ⟨x, hx⟩ := Value.ofNumeral_of_literal h.written
    rw [plain]
    exact .ofExcept l fun _ he => by rw [hx] at he; cases he
  | .string .., _, _ | .boolean .., _, _ => .pure _
  | .identifier name l, _, hn => .identifier (hn (mem_nodes _))
  | .unary _ operand _, h, hn => by
    have hm := hn (mem_nodes _)
    simp only [nodes, List.cons_subset] at hn
    rw [plain]
    exact .unary (plain_accounts context operand (WellFormed.unary_iff.1 h) hn.2) hm
  | .binary op left right l, h, hn => by
    obtain ⟨hl, hr⟩ := WellFormed.binary_iff.1 h
    simp only [nodes, List.cons_subset, List.append_subset] at hn
    rw [plain]
    exact (plain_accounts context left hl hn.2.1).bind fun x =>
      (plain_accounts context right hr hn.2.2).bind fun y =>
        .ofExcept l (Value.applyBinary_ne_invalidNumber op x y)
  | .conditional test accept reject l, h, hn => by
    obtain ⟨ht, ha, hr⟩ := WellFormed.conditional_iff.1 h
    simp only [nodes, List.cons_subset, List.append_subset] at hn
    rw [plain]
    exact (plain_accounts context test ht hn.2.1).bind fun t =>
      (plain_accounts context accept ha hn.2.2.1).bind fun a =>
        (plain_accounts context reject hr hn.2.2.2).bind fun r =>
          .ofExcept l (Value.choose_ne_invalidNumber t a r)
  | .call callee args l, h, hn => by
    obtain ⟨⟨name, m, rfl⟩, -, ha⟩ := WellFormed.call_iff.1 h
    have hm := hn (mem_nodes _)
    simp only [nodes, List.cons_subset, List.append_subset] at hn
    rw [plain]
    exact (plainAll_accounts context args ha hn.2.2).bind fun vs => .call vs hm
  | .extension .., h, _ => h.written.elim

theorem plainAll_accounts (context : Context) : (es : List Expr) →
    (∀ n ∈ nodesAll es, n.Written) → nodesAll es ⊆ N → Accounts context N (plainAll context es)
  | [], _, _ => .pure []
  | e :: es, h, hn => by
    obtain ⟨he, hs⟩ := List.forall_mem_append.1 h
    simp only [nodesAll, List.append_subset] at hn
    rw [plainAll]
    exact (plain_accounts context e he hn.1).bind fun v =>
      (plainAll_accounts context es hs hn.2).bind fun vs => .pure _

end

theorem notNumeric_of_evaluate {e : Expr} {limit : Int} {d : Diagnostic} (he : e.WellFormed)
    (h : (e.evaluate context limit).1 = .error d) (hd : d.kind = .invalidNumericLiteral) :
    NotNumeric context e.nodes (.diagnostic d) (e.evaluate context limit).2.reverse := by
  obtain ⟨hp, -⟩ | ⟨l, ht, -⟩ := evaluate_curbed context limit e
  · rw [hp] at h ⊢
    have ha := plain_accounts context e he (List.Subset.refl _) []
    rw [conclude] at h ⊢
    generalize e.plain context [] = r at h ha ⊢
    cases r with
    | ok v later => cases h
    | error fault later =>
      simp only [List.reverse_reverse] at h ⊢
      cases h
      cases fault with
      | diagnostic d => exact ha _ _ rfl hd
      | host error => cases hd
  · rw [ht] at h
    cases h
    cases hd

end Expr

theorem LexError.kind_ne (e : LexError) : e.toDiagnostic.kind ≠ .invalidNumericLiteral := by
  intro h
  cases e with
  | unterminatedString => cases h
  | unknownCharacter c =>
    rw [toDiagnostic] at h
    split at h <;> cases h

theorem ParseError.kind_ne (e : ParseError) : e.toDiagnostic.kind ≠ .invalidNumericLiteral := by
  intro h
  cases e <;> cases h

theorem read_of_number_token {text : String} (hlex : lex text = .ok tokens) (ht : t ∈ tokens)
    (hk : t.kind = .number) :
    ∃ q x, Numeral.Denotes t.lexeme.toList q ∧ Double.Rounds false q x ∧
      Numeral.read t.lexeme = some x := by
  have hw := mem_language_of_lex hlex ht (by rw [hk]; nofun)
  rw [hk] at hw
  exact Numeral.read_of_mem_decimals (Numeral.decimals_of_number hw)

namespace Session

/-- The texts of number tokens are numbers. So if it is reported that a text is no number, this is
about a string behind a plus sign, or the context has reported it. -/
theorem number_literals (text : String) :
    (∀ tokens, lex text = .ok tokens → ∀ t ∈ tokens, t.kind = .number →
      ∃ q x, Numeral.Denotes t.lexeme.toList q ∧ Double.Rounds false q x ∧
        Numeral.read t.lexeme = some x ∧ Double.view x ≠ .nan ∧ Double.isNegative x = false) ∧
    ∀ (s : Session) (context : Context) (d : Diagnostic),
      (s.evaluate context text).outcome.1 = .error (.diagnostic d) →
      d.kind = .invalidNumericLiteral →
      ∃ tokens e, lex text = .ok tokens ∧ Formulae.parse s.maxParseDepth tokens = .ok e ∧
        NotNumeric context e.nodes (.diagnostic d)
          (e.evaluate context s.maxEvalDepth).2.reverse := by
  refine ⟨fun tokens hlex t ht hk => ?_, fun s context d h hd => ?_⟩
  · obtain ⟨q, x, hq, hr, hx⟩ := read_of_number_token hlex ht hk
    exact ⟨q, x, hq, hr, hx, hr.isNegative⟩
  · cases hlex : lex text with
    | error e =>
      rw [outcome_of_lex_error context hlex] at h
      cases h
      exact absurd hd e.kind_ne
    | ok tokens =>
      cases hparse : Formulae.parse s.maxParseDepth tokens with
      | error e =>
        rw [outcome_of_parse_error context hlex hparse] at h
        cases h
        exact absurd hd e.kind_ne
      | ok e =>
        rw [outcome_of_parse context hlex hparse] at h
        have he : (e.evaluate context s.maxEvalDepth).1 = .error d := by
          generalize (e.evaluate context s.maxEvalDepth).1 = r at h
          cases r with
          | ok v => cases h
          | error d' => cases h; rfl
        exact ⟨tokens, e, rfl, hparse,
          Expr.notNumeric_of_evaluate (Formulae.wellFormed_of_parse hlex hparse) he hd⟩

/-- `1e999 + +s`, where `s` is no number. -/
theorem number_literals_of_sum :
    let context : Context := ⟨fun _ _ => .ok (.string "1_0")⟩
    let text := "1e999 + +s"
    let tokens : List Token := [⟨.number, "1e999", 1, 1⟩, ⟨.plus, "+", 1, 7⟩, ⟨.plus, "+", 1, 9⟩,
      ⟨.identifier, "s", 1, 10⟩, ⟨.endOfInput, "", 1, 11⟩]
    let d := (EvalError.invalidNumber "1_0").toDiagnostic (.ofPair 1 9)
    lex text = .ok tokens ∧
      Numeral.read "1e999" = some (Double.infinity false) ∧
      Double.view (Double.infinity false) ≠ .nan ∧
      (({} : Session).evaluate context text).outcome.1 = .error (.diagnostic d) ∧
      ∃ e, Formulae.parse 32 tokens = .ok e ∧
        NotNumeric context e.nodes (.diagnostic d) (e.evaluate context 200).2.reverse := by
  intro context text tokens d
  have hlex : lex text = .ok tokens := by decide +kernel
  have hx : Numeral.read "1e999" = some (Double.infinity false) := by decide +kernel
  have ho : (({} : Session).evaluate context text).outcome.1 = .error (.diagnostic d) := by
    rw [outcome_of_parse context hlex rfl]
    decide +kernel
  obtain ⟨hnumbers, hfaults⟩ := number_literals text
  obtain ⟨-, x, -, -, hr, hv, -⟩ := hnumbers tokens hlex _ (List.mem_cons_self ..) rfl
  obtain ⟨_, e, hlex', hparse, hn⟩ := hfaults {} context d ho rfl
  rw [hlex] at hlex'
  cases hlex'
  rw [hx] at hr
  cases hr
  exact ⟨hlex, hx, hv, ho, e, hparse, hn⟩

/-- `f()`, where the context reports that a text is no number. No plus sign is there. -/
theorem invalidNumber_of_context :
    let d : Diagnostic := { kind := .invalidNumericLiteral, message := "no" }
    ∃ e, (({} : Session).parse "f()").outcome.1 = .ok e ∧
      (∀ op operand l, .unary op operand l ∉ e.nodes) ∧
      (({} : Session).evaluate (.failing (.diagnostic d)) "f()").outcome.1 =
        .error (.diagnostic { d with location := .ofPair 1 1 }) := by
  intro d
  have hlex : lex "f()" = .ok [⟨.identifier, "f", 1, 1⟩, ⟨.leftParen, "(", 1, 2⟩,
      ⟨.rightParen, ")", 1, 3⟩, ⟨.endOfInput, "", 1, 4⟩] := by decide +kernel
  refine ⟨.call (.identifier "f" (.ofPair 1 1)) [] (.ofPair 1 1),
    parse_eq_ok_iff.2 ⟨_, hlex, rfl⟩, ?_, ?_⟩
  · intro op operand l h
    simp [Expr.nodes, Expr.nodesAll] at h
  · rw [outcome_of_parse _ hlex rfl]
    decide +kernel

end Session

end Formulae
