import Formulae.Proofs.Evaluation.Visits
import Formulae.Proofs.Literals

namespace Formulae

/-- A text that begins with a quote and ends with another one, and has an even number of them. -/
structure InQuotes (text : String) : Prop where
  first : text.toList.head? = some '"'
  last : text.toList.getLast? = some '"'
  two_le : 2 ≤ text.length
  even : Even (text.toList.count '"')

namespace InQuotes

variable {s t : String}

theorem append (hs : InQuotes s) (ht : InQuotes t) : InQuotes (s ++ t) where
  first := by rw [String.toList_append, List.head?_append, hs.first]; rfl
  last := by rw [String.toList_append, List.getLast?_append, ht.last]; rfl
  two_le := by
    rw [String.length_append]
    exact Nat.le_add_right_of_le hs.two_le
  even := by
    rw [String.toList_append, List.count_append]
    exact hs.even.add ht.even

theorem of_lexeme (h : t.toList ∈ Lexeme.language .string) : InQuotes t := by
  obtain ⟨_, ⟨_, ⟨⟩, w, hw, rfl⟩, _, ⟨⟩, ht⟩ := h
  have ht : t.toList = '"' :: w ++ ['"'] := ht.symm
  refine ⟨by rw [ht]; rfl, by rw [ht, List.getLast?_concat], ?_, ?_⟩
  · rw [← String.length_toList, ht, List.length_append]
    exact Nat.le_add_left ..
  · rw [ht, List.count_append, List.count_cons_self, List.count_eq_zero_of_not_mem hw]
    decide

theorem notMem_numerals (h : InQuotes t) : t.toList ∉ Numeral.numerals := by
  intro hn
  obtain ⟨x, hx⟩ := Numeral.mem_numerals_iff.1 hn
  exact absurd (hx.common _ (List.mem_of_mem_head? h.first)) (by decide)

theorem applyUnary_plus (h : InQuotes t) :
    Value.applyUnary .plus (.string t) = .error (.invalidNumber t) :=
  ((Value.applyUnary_plus_string t).2 _).2 ⟨h.notMem_numerals, rfl⟩

end InQuotes

namespace Value

def Quoted (v : Value) : Prop := ∀ t, v = .string t → InQuotes t

theorem quoted_number (x : Float) : Quoted (.number x) := nofun

theorem quoted_boolean (b : Bool) : Quoted (.boolean b) := nofun

section

variable {x y v : Value}

theorem quoted_of_ofNumeral (h : ofNumeral text = .ok v) : v.Quoted := by
  unfold ofNumeral at h
  split at h <;> cases h
  exact quoted_number _

theorem quoted_of_applyUnary {op : UnaryOp} (h : applyUnary op x = .ok v) : v.Quoted := by
  cases op <;> cases x <;> try cases h
  · exact quoted_number _
  · exact quoted_of_ofNumeral h
  · exact quoted_number _
  · exact quoted_number _
  · exact quoted_boolean _

theorem quoted_of_applyBinary {op : BinaryOp} (hx : x.Quoted) (hy : y.Quoted)
    (h : applyBinary op x y = .ok v) : v.Quoted := by
  rcases op with op | op | op
  · change applyArithmetic op x y = .ok v at h
    unfold applyArithmetic at h
    split at h
    next => cases h; exact quoted_number _
    next s t =>
      split at h <;> cases h
      rintro _ ⟨⟩
      exact (hx s rfl).append (hy t rfl)
    next => cases h
  all_goals cases x <;> cases y <;> cases h <;> exact quoted_boolean _

theorem quoted_of_power (h : applyArithmetic .power x y = .ok v) : v.Quoted := by
  cases x <;> cases y <;> cases h
  exact quoted_number _

theorem quoted_of_choose {test : Value} (hx : x.Quoted) (hy : y.Quoted)
    (h : choose test x y = .ok v) : v.Quoted := by
  unfold choose at h
  split at h
  next b =>
    split at h <;> cases h
    cases b
    · exact hy
    · exact hx
  next => cases h

end

end Value

def Context.Quotes (context : Context) : Prop :=
  ∀ earlier r v, context.answer earlier r = .ok v → v.Quoted

theorem Context.quotes_noBindings : noBindings.Quotes := by
  intro earlier r v h
  cases r <;> cases h

namespace Eval

def Always (P : α → Prop) (x : Eval α) : Prop :=
  ∀ earlier a later, x earlier = .ok a later → P a

namespace Always

variable {P : α → Prop} {Q : β → Prop} {context : Context}

theorem pure (h : P a) : Always P (Pure.pure a) := by
  rintro _ _ _ ⟨⟩
  exact h

theorem bind {x : Eval α} {f : α → Eval β} (hx : Always P x) (hf : ∀ a, P a → Always Q (f a)) :
    Always Q (x >>= f) := by
  intro earlier b later h
  obtain ⟨a, middle, ha, h⟩ := eq_ok_of_bind h
  exact hf a (hx _ _ _ ha) _ _ _ h

theorem ofExcept {x : Except EvalError α} (l : Location) (h : ∀ a, x = .ok a → P a) :
    Always P (Eval.ofExcept l x) := by
  intro earlier a later ha
  cases x <;> cases ha
  exact h _ rfl

theorem identifier (hc : context.Quotes) (name : String) (l : Location) :
    Always Value.Quoted (Eval.locating l (Eval.request context (.resolve name))) := by
  intro earlier v later h
  rw [locating_apply, request_apply] at h
  cases hr : context.answer earlier (.resolve name) with
  | ok w => rw [hr] at h; cases h; exact hc _ _ _ hr
  | error fault => rw [hr] at h; cases h

theorem call (hc : context.Quotes) (name : String) (l : Location) (vs : List Value) :
    Always Value.Quoted (Eval.reportingCall name l (Eval.request context (.invoke name vs))) := by
  intro earlier v later h
  rw [reportingCall_apply name l l [], request_apply] at h
  cases hr : context.answer earlier (.invoke name vs) with
  | ok w => rw [hr] at h; cases h; exact hc _ _ _ hr
  | error fault => rw [hr] at h; cases h

theorem raise {v : Value} (hv : v.Quoted) (bases : List (Value × Location)) :
    Always Value.Quoted (Eval.raise bases v) := by
  induction bases with
  | nil => exact .pure hv
  | cons b bases ih =>
    rw [Eval.raise_cons]
    exact ih.bind fun _ _ => .ofExcept b.2 fun _ => Value.quoted_of_power

end Always

theorem not_numeric_of_ofExcept {x : Except EvalError α} (hx : ∀ t, x ≠ .error (.invalidNumber t))
    (h : Eval.ofExcept l x earlier = .error fault later) : ¬ fault.Numeric := by
  intro hf
  cases x <;> cases h
  obtain ⟨t, rfl⟩ := (EvalError.numeric_iff l).1 hf
  exact hx t rfl

theorem not_numeric_of_raise {bases : List (Value × Location)}
    (h : Eval.raise bases v earlier = .error fault later) : ¬ fault.Numeric := by
  induction bases generalizing later with
  | nil => cases h
  | cons b bases ih =>
    rw [Eval.raise_cons] at h
    obtain h | ⟨w, _, -, h⟩ := eq_error_of_bind h
    · exact ih h
    · exact not_numeric_of_ofExcept
        (Value.applyBinary_ne_invalidNumber (.arithmetic .power) b.1 w) h

end Eval

namespace Expr

open Eval (Always not_numeric_of_ofExcept not_numeric_of_raise)

variable {context : Context}

theorem plain_quoted (hc : context.Quotes) (e : Expr) (h : e.WellFormed) :
    Always Value.Quoted (e.plain context) := by
  cases e with
  | number text l => exact .ofExcept l fun _ => Value.quoted_of_ofNumeral
  | string text l =>
    refine .pure fun t ht => ?_
    cases ht
    exact .of_lexeme h.written
  | boolean b => exact .pure (Value.quoted_boolean b)
  | identifier name l => exact .identifier hc name l
  | unary op operand l =>
    exact (plain_quoted hc operand (WellFormed.unary_iff.1 h)).bind fun _ _ =>
      .ofExcept l fun _ => Value.quoted_of_applyUnary
  | binary op left right l =>
    obtain ⟨hl, hr⟩ := WellFormed.binary_iff.1 h
    exact (plain_quoted hc left hl).bind fun x hx =>
      (plain_quoted hc right hr).bind fun y hy =>
        .ofExcept l fun _ => Value.quoted_of_applyBinary hx hy
  | conditional test accept reject l =>
    obtain ⟨ht, ha, hr⟩ := WellFormed.conditional_iff.1 h
    exact (plain_quoted hc test ht).bind fun t _ =>
      (plain_quoted hc accept ha).bind fun a ha =>
        (plain_quoted hc reject hr).bind fun r hr =>
          .ofExcept l fun _ => Value.quoted_of_choose ha hr
  | call callee args l =>
    obtain ⟨⟨name, m, rfl⟩, -, -⟩ := WellFormed.call_iff.1 h
    have hargs : Always (fun _ => True) (plainAll context args) := fun _ _ _ _ => trivial
    exact hargs.bind fun vs _ => .call hc name l vs
  | extension => exact h.written.elim

theorem plain_of_evalAt {limit : Int} {e : Expr} {depth : Nat} {earlier later : List Request}
    (h : e.evalAt context limit depth earlier = .ok v later) :
    e.plain context earlier = .ok v later := by
  have hc := ((evalAt_curbs context limit).1 e depth).curbed earlier
  rw [h] at hc
  generalize e.plain context earlier = r at hc
  cases hc
  rfl

theorem evalAt_quoted (hc : context.Quotes) (limit : Int) (depth : Nat) {e : Expr}
    (he : e.WellFormed) : Always Value.Quoted (e.evalAt context limit depth) :=
  fun _ _ _ h => plain_quoted hc e he _ _ _ (plain_of_evalAt h)

theorem evalAroundAt_quoted (hc : context.Quotes) (limit : Int) (depth : Nat) {v : Value}
    (hv : v.Quoted) {around : List (BinaryOp × Expr × Location)}
    (ha : ∀ s ∈ around, s.2.1.WellFormed) :
    Always Value.Quoted (evalAroundAt context limit depth v around) := by
  induction around generalizing v with
  | nil =>
    rw [evalAroundAt]
    exact .pure hv
  | cons s around ih =>
    obtain ⟨op, right, l⟩ := s
    obtain ⟨hr, ha⟩ := List.forall_mem_cons.1 ha
    rw [evalAroundAt]
    exact (evalAt_quoted hc limit depth hr).bind fun x hx =>
      (Always.ofExcept l fun _ => Value.quoted_of_applyBinary hv hx).bind fun _ hw => ih hw ha

theorem Produces.quoted (hc : context.Quotes) {limit : Int} {e : Expr} (he : e.WellFormed)
    (h : Produces context limit e v) : v.Quoted := by
  cases h with
  | own hv => exact evalAt_quoted hc _ _ he _ _ _ hv
  | @soFar op left right l _ before _ _ _ _ _ _ _ hr hv hw =>
    obtain ⟨hi, ha⟩ := leftRun_subset op left right l
    have ha : ∀ s ∈ before, s.2.1.WellFormed := fun s hs =>
      he.mono (ha s (by rw [hr]; exact List.mem_append_left _ hs))
    exact evalAroundAt_quoted hc _ _ (evalAt_quoted hc _ _ (he.mono hi) _ _ _ hv) ha _ _ _ hw
  | @raised _ right _ _ _ _ _ _ _ _ hv hw =>
    obtain ⟨-, hr⟩ := WellFormed.binary_iff.1 he
    have hx := hr.mono (nodes_powerRun right (List.Subset.refl _)).2
    exact Always.raise (evalAt_quoted hc _ _ hx _ _ _ hv) _ _ _ _ hw

theorem exists_of_numeric {limit : Int} {e : Expr} {depth : Nat} {earlier later : List Request}
    {fault : Fault} (hw : e.Written) (hf : fault.Numeric)
    (h : e.evalAt .noBindings limit depth earlier = .error fault later) :
    depth ≤ limit ∧ ((∃ n middle, Enters .noBindings limit depth e earlier n middle ∧
      n.evalAt .noBindings limit (depth + 1) middle = .error fault later) ∨
    ∃ operand l t middle, e = .unary .plus operand l ∧
      operand.evalAt .noBindings limit (depth + 1) earlier = .ok (.string t) middle ∧
      fault = .diagnostic ((EvalError.invalidNumber t).toDiagnostic l)) := by
  by_cases hd : limit < depth
  · unfold evalAt at h
    rw [if_pos hd] at h
    cases h
    cases hf
  refine ⟨Int.not_lt.1 hd, ?_⟩
  cases e with
  | number text l =>
    obtain ⟨x, hx⟩ := Value.ofNumeral_of_literal hw
    rw [evalAt, if_neg hd, hx] at h
    cases h
  | string | boolean =>
    rw [evalAt, if_neg hd] at h
    cases h
  | identifier name l =>
    rw [evalAt, if_neg hd] at h
    cases h
    cases hf
  | unary op operand l =>
    rw [evalAt, if_neg hd] at h
    obtain h | ⟨v, middle, hv, h⟩ := eq_error_of_bind h
    · exact .inl ⟨operand, earlier, .first rfl, h⟩
    · cases ha : Value.applyUnary op v with
      | ok w =>
        rw [ha] at h
        cases h
      | error error =>
        rw [ha] at h
        cases h
        obtain ⟨t, rfl⟩ := (EvalError.numeric_iff l).1 hf
        obtain ⟨rfl, rfl, -⟩ := Value.string_of_applyUnary ha
        exact .inr ⟨operand, l, t, _, rfl, hv, rfl⟩
  | binary op left right l =>
    by_cases hop : op = .arithmetic .power
    · subst hop
      rw [evalAt, if_neg hd] at h
      obtain h | ⟨vs, middle, hvs, h⟩ := eq_error_of_bind h
      · obtain ⟨before, n, after, vs, middle, hn, hb, hn'⟩ := exists_of_evalAllAt_error h
        have hn : operands (.binary (.arithmetic .power) left right l) =
            before ++ n :: (after ++ [right.powerRun.2]) := by
          rw [operands, hn, List.append_assoc, List.cons_append]
        exact .inl ⟨n, middle, .operand hn hb, hn'⟩
      · obtain h | ⟨v, last, -, h⟩ := eq_error_of_bind h
        · exact .inl ⟨_, middle, .operand rfl hvs, h⟩
        · exact absurd hf (not_numeric_of_raise h)
    · rw [evalAt, if_neg hd] at h
      · obtain h | ⟨v, middle, hv, h⟩ := eq_error_of_bind h
        · exact .inl ⟨_, earlier, .innermost hop, h⟩
        · obtain ⟨before, op', n, l', after, w, last, hn, hb, hn'⟩ |
              ⟨op', x, y, l', error, ha, rfl⟩ := exists_of_evalAroundAt_error h
          · exact .inl ⟨n, last, .around hop hn hv hb, hn'⟩
          · obtain ⟨t, rfl⟩ := (EvalError.numeric_iff l').1 hf
            exact absurd ha (Value.applyBinary_ne_invalidNumber op' x y t)
      · exact hop
  | conditional test accept reject l =>
    rw [evalAt, if_neg hd] at h
    obtain h | ⟨t, first, ht, h⟩ := eq_error_of_bind h
    · exact .inl ⟨test, earlier, .first rfl, h⟩
    obtain h | ⟨a, second, ha, h⟩ := eq_error_of_bind h
    · exact .inl ⟨accept, first, .operand rfl (evalAllAt_cons ht evalAllAt_nil), h⟩
    obtain h | ⟨r, third, -, h⟩ := eq_error_of_bind h
    · exact .inl ⟨reject, second,
        .operand rfl (evalAllAt_cons ht (evalAllAt_cons ha evalAllAt_nil)), h⟩
    · exact absurd hf (not_numeric_of_ofExcept (Value.choose_ne_invalidNumber t a r) h)
  | call callee args l =>
    obtain ⟨name, m, rfl⟩ := hw
    rw [evalAt, if_neg hd] at h
    obtain h | ⟨vs, middle, -, h⟩ := eq_error_of_bind h
    · obtain ⟨before, n, after, vs, middle, hn, hb, hn'⟩ := exists_of_evalAllAt_error h
      exact .inl ⟨n, middle, .operand hn hb, hn'⟩
    · cases h
      cases hf
  | extension => exact hw.elim

theorem exists_visits_of_numeric {limit : Int} {e : Expr} {depth : Nat}
    {earlier later : List Request} {fault : Fault} (he : e.WellFormed) (hf : fault.Numeric)
    (h : e.evalAt .noBindings limit depth earlier = .error fault later) :
    ∃ operand l d middle last t,
      e.Visits .noBindings limit depth earlier (.unary .plus operand l) d middle ∧
      operand.evalAt .noBindings limit (d + 1) middle = .ok (.string t) last ∧
      fault = .diagnostic ((EvalError.invalidNumber t).toDiagnostic l) := by
  -- Every step is one level down, and below the limit there is no such failure.
  induction hk : (limit + 1 - depth).toNat generalizing e depth earlier with
  | zero =>
    obtain ⟨hd, -⟩ := exists_of_numeric he.written hf h
    omega
  | succ k ih =>
    obtain ⟨hd, ⟨n, middle, hn, hfail⟩ | ⟨operand, l, t, middle, rfl, ho, rfl⟩⟩ :=
      exists_of_numeric he.written hf h
    · obtain ⟨operand, l, d, _, last, t, hv, ho, ht⟩ :=
        ih (he.mono hn.nodes_subset) hfail (by omega)
      exact ⟨operand, l, d, _, last, t, .step hd hn hv, ho, ht⟩
    · exact ⟨operand, l, depth, earlier, middle, t, .refl, ho, rfl⟩

end Expr

theorem Token.kind_of_spelling_plus {k : Kind} (h : k.spelling = UnaryOp.plus.symbol) :
    k = .plus := by
  have hk := Grammar.Level.unaryOp?_of_spelling h
  cases k <;> cases hk
  rfl

/-- Evaluation without bindings comes to a plus sign at this place whose operand is this string. -/
def Expr.MeetsString (limit : Int) (e : Expr) (l : Location) (t : String) : Prop :=
  ∃ operand depth earlier later,
    e.Visits .noBindings limit 0 [] (.unary .plus operand l) depth earlier ∧
    operand.evalAt .noBindings limit (depth + 1) earlier = .ok (.string t) later

namespace Expr

variable {limit : Int} {e : Expr} {l : Location} {t : String}

theorem MeetsString.node (h : e.MeetsString limit l t) :
    ∃ operand, .unary .plus operand l ∈ e.nodes :=
  have ⟨operand, _, _, _, hv, _⟩ := h
  ⟨operand, hv.mem_nodes⟩

theorem MeetsString.evaluate (he : e.WellFormed) (h : e.MeetsString limit l t) :
    (e.evaluate .noBindings limit).1 = .error ((EvalError.invalidNumber t).toDiagnostic l) := by
  obtain ⟨operand, depth, earlier, later, hvisit, hoperand⟩ := h
  have hn := he.mono (nodes_subset_nodes e hvisit.mem_nodes)
  have ht : InQuotes t := evalAt_quoted Context.quotes_noBindings _ _
    (WellFormed.unary_iff.1 hn) _ _ _ hoperand t rfl
  have hd : ¬ limit < depth := by
    have := le_of_evalAt hoperand
    omega
  have hplus : (unary .plus operand l).evalAt .noBindings limit depth earlier =
      .error (.diagnostic ((EvalError.invalidNumber t).toDiagnostic l)) later := by
    rw [evalAt, if_neg hd]
    refine (bind_ok hoperand).trans ?_
    rw [ht.applyUnary_plus]
    rfl
  rw [Expr.evaluate, conclude, hvisit.error hplus]
  rfl

theorem exists_meetsString {d : Diagnostic} (he : e.WellFormed)
    (h : (e.evaluate .noBindings limit).1 = .error d) (hd : d.kind = .invalidNumericLiteral) :
    ∃ l t, e.MeetsString limit l t ∧ d = (EvalError.invalidNumber t).toDiagnostic l := by
  rw [evaluate, conclude] at h
  cases hr : e.evalAt .noBindings limit 0 [] with
  | ok v later =>
    rw [hr] at h
    cases h
  | error fault later =>
    rw [hr] at h
    cases h
    cases fault with
    | host error => cases hd
    | diagnostic d =>
      have hf : Fault.Numeric (.diagnostic d) := hd
      obtain ⟨operand, l, depth, earlier, last, t, hv, ho, ht⟩ :=
        exists_visits_of_numeric he hf hr
      cases ht
      exact ⟨l, t, ⟨operand, depth, earlier, last, hv, ho⟩, rfl⟩

theorem quoted_of_evaluate (he : e.WellFormed) (h : (e.evaluate .noBindings limit).1 = .ok v) :
    v.Quoted := by
  rw [evaluate, conclude] at h
  cases hr : e.evalAt .noBindings limit 0 [] with
  | error fault later =>
    rw [hr] at h
    cases h
  | ok w later =>
    rw [hr] at h
    cases h
    exact evalAt_quoted Context.quotes_noBindings _ _ he _ _ _ hr

end Expr

namespace Session

/-- Without bindings strings keep their quotes. Whatever a node of a formula produces, it is in
quotes if it is a string; so where evaluation comes to a plus sign whose operand is a string, and
nowhere else, it is reported that this is no number; and if the result is a string, what is shown
for it is in quotes. -/
theorem strings_in_quotes (s : Session) (text : String) :
    (∀ tokens e, lex text = .ok tokens → Formulae.parse s.maxParseDepth tokens = .ok e →
      (∀ n ∈ e.nodes, ∀ t, n.Produces .noBindings s.maxEvalDepth (.string t) → InQuotes t) ∧
      (∀ l t, e.MeetsString s.maxEvalDepth l t →
        (∃ plus ∈ tokens, plus.kind = .plus ∧ plus.location = l) ∧
        (s.evaluate .noBindings text).outcome.1 =
          .error (.diagnostic ((EvalError.invalidNumber t).toDiagnostic l))) ∧
      ∀ d, (s.evaluate .noBindings text).outcome.1 = .error (.diagnostic d) →
        d.kind = .invalidNumericLiteral → ∃ l t, e.MeetsString s.maxEvalDepth l t ∧
          d = (EvalError.invalidNumber t).toDiagnostic l) ∧
    ∀ v, (s.evaluate .noBindings text).outcome.1 = .ok v → v.kind = .string →
      InQuotes v.describe := by
  refine ⟨fun tokens e hlex hparse => ?_, fun v hv hk => ?_⟩
  · have he := Formulae.wellFormed_of_parse hlex hparse
    refine ⟨fun n hn t h => ?_, fun l t h => ⟨?_, ?_⟩, fun d h hd => ?_⟩
    · exact h.quoted Context.quotes_noBindings (he.mono (Expr.nodes_subset_nodes e hn)) t rfl
    · obtain ⟨operand, hn⟩ := h.node
      cases builtAt_of_parse hparse _ hn with
      | @unary token _ _ hm hs => exact ⟨token, hm, Token.kind_of_spelling_plus hs, rfl⟩
    · rw [outcome_of_parse _ hlex hparse, h.evaluate he]
      rfl
    · rw [outcome_of_parse _ hlex hparse] at h
      cases hev : (e.evaluate .noBindings s.maxEvalDepth).1 with
      | ok v => rw [hev] at h; cases h
      | error d' => rw [hev] at h; cases h; exact Expr.exists_meetsString he hev hd
  · obtain ⟨tokens, e, hlex, hparse, hev⟩ := exists_of_evaluate_ok hv
    cases v with
    | string t => exact Expr.quoted_of_evaluate (Formulae.wellFormed_of_parse hlex hparse) hev t rfl
    | number | boolean => cases hk

/-- `1 + +("2" + "3")`. The operand has its quotes and is no number, so the sum is never made. -/
theorem strings_in_quotes_of_sum :
    let tokens : List Token := [⟨.number, "1", 1, 1⟩, ⟨.plus, "+", 1, 3⟩, ⟨.plus, "+", 1, 5⟩,
      ⟨.leftParen, "(", 1, 6⟩, ⟨.string, "\"2\"", 1, 7⟩, ⟨.plus, "+", 1, 11⟩,
      ⟨.string, "\"3\"", 1, 13⟩, ⟨.rightParen, ")", 1, 16⟩, ⟨.endOfInput, "", 1, 17⟩]
    let sum : Expr := .binary (.arithmetic .add) (.string "\"2\"" (.ofPair 1 7))
      (.string "\"3\"" (.ofPair 1 13)) (.ofPair 1 11)
    let e : Expr := .binary (.arithmetic .add) (.number "1" (.ofPair 1 1))
      (.unary .plus sum (.ofPair 1 5)) (.ofPair 1 3)
    lex "1 + +(\"2\" + \"3\")" = .ok tokens ∧ Formulae.parse 32 tokens = .ok e ∧
      sum.Produces .noBindings 200 (.string "\"2\"\"3\"") ∧ InQuotes "\"2\"\"3\"" ∧
      e.MeetsString 200 (.ofPair 1 5) "\"2\"\"3\"" ∧
      (({} : Session).evaluate .noBindings "1 + +(\"2\" + \"3\")").outcome.1 =
        .error (.diagnostic ((EvalError.invalidNumber "\"2\"\"3\"").toDiagnostic (.ofPair 1 5))) := by
  intro tokens sum e
  have hlex : lex "1 + +(\"2\" + \"3\")" = .ok tokens := by decide +kernel
  have hparse : Formulae.parse 32 tokens = .ok e := rfl
  have hone : (Expr.number "1" (.ofPair 1 1)).evalAt .noBindings 200 1 [] = .ok (.number 1) [] := by
    have h : Value.ofNumeral "1" = .ok (.number 1) := by decide +kernel
    rw [Expr.evalAt, if_neg (by decide), h]
    rfl
  have hstring (text : String) (column : Int) :
      (Expr.string text (.ofPair 1 column)).evalAt .noBindings 200 3 [] = .ok (.string text) [] := by
    rw [Expr.evalAt, if_neg (by decide)]
    rfl
  have hsum : sum.evalAt .noBindings 200 2 [] = .ok (.string "\"2\"\"3\"") [] := by
    rw [Expr.evalAt, if_neg (by decide)]
    · refine (bind_ok (hstring "\"2\"" 7)).trans ?_
      change Expr.evalAroundAt .noBindings 200 3 (.string "\"2\"")
        [(.arithmetic .add, .string "\"3\"" (.ofPair 1 13), .ofPair 1 11)] [] = _
      rw [Expr.evalAroundAt, bind_ok (hstring "\"3\"" 13)]
      exact Expr.evalAroundAt_nil
    · decide
  have hright : ((Expr.number "1" (.ofPair 1 1)).leftRun
      [(.arithmetic .add, .unary .plus sum (.ofPair 1 5), .ofPair 1 3)]).2 =
      [] ++ (.arithmetic .add, .unary .plus sum (.ofPair 1 5), .ofPair 1 3) :: [] := rfl
  have hmeets : e.MeetsString 200 (.ofPair 1 5) "\"2\"\"3\"" :=
    ⟨sum, 1, [], [],
      .step (by decide) (.around (by decide) hright hone Expr.evalAroundAt_nil) .refl, hsum⟩
  obtain ⟨hquoted, hreported, -⟩ := (strings_in_quotes {} _).1 tokens e hlex hparse
  exact ⟨hlex, hparse, .own hsum,
    hquoted sum (by simp [e, Expr.nodes, Expr.mem_nodes]) _ (.own hsum), hmeets,
    (hreported _ _ hmeets).2⟩

end Session

end Formulae
