import Formulae.Proofs.Evaluation.Nesting
import Formulae.Proofs.Evaluation.Refinement
import Formulae.Proofs.Evaluation.Refusals
import Formulae.Proofs.Lexing.Spacing
import Formulae.Proofs.Parsing.Phrases

namespace Formulae

def Eval.Exceeds (limit : Int) (x : Eval α) : Prop :=
  ∃ l, x = throw (.diagnostic ((EvalError.tooDeep limit).toDiagnostic l))

theorem Eval.Exceeds.bind {limit : Int} {x : Eval α} (h : Exceeds limit x) (f : α → Eval β) :
    Exceeds limit (x >>= f) := by
  obtain ⟨l, rfl⟩ := h
  exact ⟨l, rfl⟩

namespace Expr

open Eval (Exceeds)

variable {context : Context} {limit : Int} {depth : Nat} {e : Expr}

theorem exceeds_of_lt (h : limit < depth) (e : Expr) :
    Exceeds limit (e.evalAt context limit depth) := by
  refine ⟨e.location, ?_⟩
  rw [evalAt.eq_def, if_pos h]
  rfl

theorem exceeds_boolean_or (context : Context) (limit : Int) (depth : Nat) (b : Bool)
    (l : Location) :
    Exceeds limit ((boolean b l).evalAt context limit depth) ∨
      (boolean b l).evalAt context limit depth = pure (.boolean b) := by
  by_cases h : limit < depth
  · exact .inl (exceeds_of_lt h _)
  · rw [evalAt, if_neg h]
    exact .inr rfl

theorem exceeds_power (hr : e.powerRun = ([], e)) (b : Bool) (m l : Location)
    (h : Exceeds limit (e.evalAt context limit (depth + 1))) :
    Exceeds limit
      ((binary (.arithmetic .power) (.boolean b m) e l).evalAt context limit depth) := by
  by_cases hd : limit < depth
  · exact exceeds_of_lt hd _
  · rw [evalAt, if_neg hd, hr]
    simp only [List.map_nil, evalAllAt, bind_assoc, pure_bind]
    rcases exceeds_boolean_or context limit (depth + 1) b m with hb | hb
    · exact hb.bind _
    · rw [hb, pure_bind]
      exact h.bind _

theorem exceeds_operation (hr : op = .arithmetic .power → e.powerRun = ([], e)) (b : Bool)
    (m l : Location) (h : Exceeds limit (e.evalAt context limit (depth + 1))) :
    Exceeds limit ((binary op (.boolean b m) e l).evalAt context limit depth) := by
  by_cases hd : limit < depth
  · exact exceeds_of_lt hd _
  · by_cases hop : op = .arithmetic .power
    · subst hop
      exact exceeds_power (hr rfl) b m l h
    · rw [evalAt, if_neg hd]
      · rcases exceeds_boolean_or context limit (depth + 1) b m with hb | hb
        · exact hb.bind _
        · simp only [leftRun]
          rw [hb, pure_bind, evalAroundAt]
          exact h.bind _
      · exact hop

theorem exceeds_call (name : String) (m l : Location)
    (h : Exceeds limit (e.evalAt context limit (depth + 1))) :
    Exceeds limit ((call (.identifier name m) [e] l).evalAt context limit depth) := by
  by_cases hd : limit < depth
  · exact exceeds_of_lt hd _
  · rw [evalAt, if_neg hd, evalAllAt, bind_assoc]
    exact h.bind _

theorem exceeds_conditional (accept reject : Expr) (l : Location)
    (h : Exceeds limit (e.evalAt context limit (depth + 1))) :
    Exceeds limit ((conditional e accept reject l).evalAt context limit depth) := by
  by_cases hd : limit < depth
  · exact exceeds_of_lt hd _
  · rw [evalAt, if_neg hd]
    exact h.bind _

end Expr

open Token (Kind)
open Grammar (Level Phrase)

/-- These kinds make a phrase of a level, which nests at most so deep and of which so many levels
are entered before anything else is done. -/
def Deep (l : Level) (kinds : List Kind) (n levels : Nat) : Prop :=
  ∀ w : List Token, w.map Token.kind = kinds →
    ∃ e, Phrase l w e n ∧ (l = .operand → e.powerRun = ([], e)) ∧
      ∀ context (limit : Int) (depth : Nat), limit < (depth + levels : Nat) →
        Eval.Exceeds limit (e.evalAt context limit depth)

namespace Deep

variable {l : Level} {kinds : List Kind} {n levels : Nat}

theorem wordTrue : Deep .operand [.wordTrue] n 0 := by
  intro w hw
  obtain ⟨t, rfl, ht⟩ : ∃ t, w = [t] ∧ t.kind = .wordTrue := by
    simpa [List.map_eq_cons_iff] using hw
  exact ⟨_, .boolean ht, fun _ => rfl, fun context limit depth h => Expr.exceeds_of_lt h _⟩

theorem up (hl : l ≠ .operand) (h : Deep l.next kinds n levels) : Deep l kinds n levels := by
  intro w hw
  obtain ⟨e, he, -, hd⟩ := h w hw
  exact ⟨e, he.up, fun ho => absurd ho hl, hd⟩

theorem operation (op : BinaryOp) (hk : k.spelling = op.symbol)
    (h : Deep op.level.next kinds n levels) :
    Deep op.level (.wordTrue :: k :: kinds) n (levels + 1) := by
  intro w hw
  obtain ⟨t, w, rfl, ht, o, v, rfl, rfl, hv⟩ := by
    simpa only [List.map_eq_cons_iff] using hw
  obtain ⟨e, he, hr, hd⟩ := h v hv
  refine ⟨_, .operation ⟨o, op, rfl, hk⟩ ((Phrase.boolean ht).lift _) he, ?_, ?_⟩
  · intro ho
    rcases op with op | op | op <;> cases op <;> cases ho
  · intro context limit depth h
    refine Expr.exceeds_operation ?_ _ _ _ (hd _ _ (depth + 1) (by omega))
    rintro rfl
    exact hr rfl

theorem call (h : Deep .conditional kinds n levels) :
    Deep .operand (.identifier :: .leftParen :: (kinds ++ [.rightParen])) (n + 1) (levels + 1) := by
  intro w hw
  obtain ⟨name, _, rfl, hname, opening, _, rfl, ho, hw⟩ := by
    simpa only [List.map_eq_cons_iff] using hw
  obtain ⟨u, v, rfl, hu, hv⟩ := List.map_eq_append_iff.1 hw
  obtain ⟨closing, rfl, hc⟩ : ∃ t, v = [t] ∧ t.kind = .rightParen := by
    simpa [List.map_eq_cons_iff] using hv
  obtain ⟨e, he, -, hd⟩ := h u hu
  refine ⟨_, .call hname ho hc he, fun _ => rfl, fun context limit depth h => ?_⟩
  exact Expr.exceeds_call _ _ _ (hd _ _ (depth + 1) (by omega))

theorem conditional (h : Deep .disjunction kinds (n + 1) levels) :
    Deep .conditional (kinds ++ [.question, .wordTrue, .colon, .wordTrue]) (n + 1)
      (levels + 1) := by
  intro w hw
  obtain ⟨u, v, rfl, hu, hv⟩ := List.map_eq_append_iff.1 hw
  obtain ⟨question, _, rfl, hq, accept, _, rfl, ha, colon, _, rfl, hc, reject, _, rfl, hr, hn⟩ := by
    simpa only [List.map_eq_cons_iff] using hv
  obtain rfl := List.map_eq_nil_iff.1 hn
  obtain ⟨e, he, -, hd⟩ := h u hu
  refine ⟨_, .conditional he hq ((Phrase.boolean ha).lift _) hc ((Phrase.boolean hr).lift _),
    nofun, fun context limit depth h => ?_⟩
  exact Expr.exceeds_conditional _ _ _ (hd _ _ (depth + 1) (by omega))

def ladder : List Kind :=
  [.wordTrue, .wordOr, .wordTrue, .wordAnd, .wordTrue, .equalEqual, .wordTrue, .less, .wordTrue,
    .plus, .wordTrue, .star, .wordTrue, .caret]

theorem climb (h : Deep .operand kinds n levels) :
    Deep .disjunction (ladder ++ kinds) n (levels + 7) := by
  have hpower := operation (.arithmetic .power) (k := .caret) rfl h
  have hproduct := operation (.arithmetic .multiply) (k := .star) rfl (up nofun hpower)
  have hsum := operation (.arithmetic .add) (k := .plus) rfl hproduct
  have hrelation := operation (.comparison .less) (k := .less) rfl hsum
  have hequality := operation (.comparison .equal) (k := .equalEqual) rfl hrelation
  have hconjunction := operation (.logic .and) (k := .wordAnd) rfl (up nofun hequality)
  exact operation (.logic .or) (k := .wordOr) rfl hconjunction

end Deep

/-- The kinds of a formula that is evaluated on as many levels as its nesting allows: behind the
operators of all levels it calls a function with the next one, and all of that is a test. -/
def deepest : Nat → List Kind
  | 0 => Deep.ladder ++ [.wordTrue]
  | n + 1 =>
    Deep.ladder ++ .identifier :: .leftParen :: (deepest n ++ [.rightParen]) ++
      [.question, .wordTrue, .colon, .wordTrue]

theorem deep_deepest : ∀ n, Deep .conditional (deepest n) n (9 * n + 7)
  | 0 => Deep.wordTrue.climb.up nofun
  | n + 1 => (deep_deepest n).call.climb.conditional

theorem notMem_deepest (n : Nat) : Kind.endOfInput ∉ deepest n := by
  induction n with
  | zero => decide
  | succ n ih => simp [deepest, Deep.ladder, ih]

namespace Expr

theorem tooDeep_of_evaluate {context : Context} {limit : Int} {e : Expr} {d : Diagnostic}
    (hN : ∀ n ∈ e.nodes, n.Regular) (h : (e.evaluate context limit).1 = .error d)
    (hk : d.kind = .evalNestingTooDeep) :
    limit < e.levels ∨
      ∃ earlier r d', (e.evaluate context limit).2 = earlier ++ [r] ∧
        context.answer earlier.reverse r = .error (.diagnostic d') ∧
          d'.kind = .evalNestingTooDeep := by
  have hends := evaluate_ends context limit hN
  rw [evaluate, conclude] at h ⊢
  generalize e.evalAt context limit 0 [] = result at hends h ⊢
  cases hends with
  | value hs => cases h
  | @refused before n r fault later hs hn ha hr =>
    cases fault with
    | diagnostic d' =>
      rw [passOn_diagnostic] at h
      cases h
      exact .inr ⟨later.reverse, r, d', by simp, by simpa using hr, hk⟩
    | host error => cases ha <;> cases h <;> cases hk
  | failed hs hn hf =>
    obtain ⟨n, hn, error, ho, rfl⟩ := hf
    cases h
    cases error with
    | tooDeep n => exact .inl ho.2
    | _ => cases hk

theorem evaluate_of_exceeds {context : Context} {limit : Int} {e : Expr}
    (h : Eval.Exceeds limit (e.evalAt context limit 0)) :
    ∃ l, e.evaluate context limit = (.error ((EvalError.tooDeep limit).toDiagnostic l), []) := by
  obtain ⟨l, h⟩ := h
  exact ⟨l, by rw [evaluate, h]; rfl⟩

end Expr

def deepestPieces (n : Nat) : List (Kind × List Char) :=
  (deepest n).map fun k => (k, Lexeme.sample k)

def deepestText (n : Nat) : String :=
  String.ofList ((deepestPieces n).flatMap fun p => p.2 ++ [' '])

theorem lex_deepestText (n : Nat) :
    ∃ w last, lex (deepestText n) = .ok (w ++ [last]) ∧ w.map Token.kind = deepest n ∧
      last.kind = .endOfInput := by
  have hp : ∀ p ∈ deepestPieces n, p.2 ∈ Lexeme.language p.1 :=
    List.forall_mem_map.2 fun k hk =>
      Lexeme.sample_mem_language fun h => notMem_deepest n (h ▸ hk)
  obtain ⟨tokens, hlex, htokens⟩ := lex_spaced hp
  obtain ⟨w, v, rfl, hw, hv⟩ := List.map_eq_append_iff.1 htokens
  obtain ⟨last, _, rfl, hl, hn⟩ := List.map_eq_cons_iff.1 hv
  obtain rfl := List.map_eq_nil_iff.1 hn
  refine ⟨w, last, hlex, ?_, congrArg Prod.fst hl⟩
  simpa [deepestPieces, Function.comp_def] using congrArg (List.map Prod.fst) hw

/-- A formula that parses with so many levels of nesting is evaluated as if there were no limit, if
the limit is nine times as many less two; with one less there are formulas for which that fails,
before anything is asked. -/
theorem nesting_bounds_levels {P : Int} (hP : 1 ≤ P) :
    (∀ tokens e, parse P tokens = .ok e → ∀ context limit, 9 * P - 2 ≤ limit →
      e.evaluate context limit = e.conclude (e.plain context) ∧
      ∀ d, (e.evaluate context limit).1 = .error d → d.kind = .evalNestingTooDeep →
        ∃ earlier r d', (e.evaluate context limit).2 = earlier ++ [r] ∧
          context.answer earlier.reverse r = .error (.diagnostic d') ∧
            d'.kind = .evalNestingTooDeep) ∧
    ∃ text tokens e, lex text = .ok tokens ∧ parse P tokens = .ok e ∧
      ∀ context, ∃ l, e.evaluate context (9 * P - 3) =
        (.error ((EvalError.tooDeep (9 * P - 3)).toDiagnostic l), []) := by
  refine ⟨fun tokens e h context limit hl => ?_, ?_⟩
  · have he := levels_of_parse h
    refine ⟨?_, fun d hd hk => ?_⟩
    · rw [Expr.evaluate, Expr.evalAt_eq_plain_of_levels.1 e 0 (by omega)]
    · have hN n hn := (readFrom_of_parse h n hn).regular
      exact (Expr.tooDeep_of_evaluate hN hd hk).resolve_left (by omega)
  · obtain ⟨n, rfl⟩ : ∃ n : Nat, P = n + 1 := ⟨(P - 1).toNat, by omega⟩
    obtain ⟨w, last, hlex, hw, hl⟩ := lex_deepestText n
    obtain ⟨e, ⟨d, rfl, rfl, hd⟩, -, he⟩ := deep_deepest n w hw
    refine ⟨_, _, d.tree, hlex, parse_word (by omega) hl [], fun context => ?_⟩
    exact Expr.evaluate_of_exceeds (he context _ 0 (by omega))

/-- `a + b` and one level of nesting. -/
theorem nesting_bounds_levels_of_sum :
    let a : Token := ⟨.identifier, "a", 1, 1⟩
    let b : Token := ⟨.identifier, "b", 1, 5⟩
    let tokens : List Token := [a, ⟨.plus, "+", 1, 3⟩, b, ⟨.endOfInput, "", 1, 6⟩]
    let e : Expr := .binary (.arithmetic .add) (.identifier "a" a.location)
      (.identifier "b" b.location) (.ofPair 1 3)
    let strings : Context := ⟨fun _ _ => .ok (.string "s")⟩
    (1 : Int) ≤ 1 ∧ lex "a + b" = .ok tokens ∧ parse 1 tokens = .ok e ∧
      e.evaluate strings 7 = e.conclude (e.plain strings) ∧
      e.evaluate strings 7 = (.ok (.string "ss"), [.resolve "a", .resolve "b"]) ∧
      ∃ text tokens e, lex text = .ok tokens ∧ parse 1 tokens = .ok e ∧
        ∀ context, ∃ l, e.evaluate context 6 =
          (.error ((EvalError.tooDeep 6).toDiagnostic l), []) := by
  intro a b tokens e strings
  have hparse : parse 1 tokens = .ok e := rfl
  have hP : (1 : Int) ≤ 1 := by decide
  have he := ((nesting_bounds_levels hP).1 tokens e hparse strings 7 (by decide)).1
  exact ⟨hP, by decide +kernel, hparse, he, he ▸ rfl, (nesting_bounds_levels hP).2⟩

end Formulae
