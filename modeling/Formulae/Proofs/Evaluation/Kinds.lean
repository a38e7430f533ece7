import Formulae.Bindings
import Formulae.Proofs.Evaluation.Refinement
import Formulae.Proofs.Evaluation.Requests

namespace Formulae

open Value (Kind)

def BinaryOp.onKinds : BinaryOp → Kind → Kind → Except Diagnostic.Kind Kind
  | .arithmetic _, .number, .number => .ok .number
  | .arithmetic .add, .string, .string => .ok .string
  | .arithmetic _, _, _ => .error .invalidOperands
  | .comparison _, left, right => if left = right then .ok .boolean else .error .typeMismatch
  | .logic _, .boolean, .boolean => .ok .boolean
  | .logic _, _, _ => .error .expectedBooleanOperands

def UnaryOp.onKinds : UnaryOp → Kind → Except Diagnostic.Kind Kind
  | .not, .boolean => .ok .boolean
  | .not, _ => .error .expectedBooleanOperand
  | .minus, .number => .ok .number
  | .minus, _ => .error .expectedNumericOperand
  | .plus, .string => .error .invalidNumericLiteral
  | .plus, _ => .ok .number

def Value.Kind.choose (test accept reject : Kind) : Except Diagnostic.Kind Kind :=
  if test = .boolean then
    if accept = reject then .ok accept else .error .branchTypeMismatch
  else .error .expectedBooleanTest

abbrev Verdict := Except (Diagnostic.Kind × Location)

namespace Expr

def placed (l : Location) : Except Diagnostic.Kind α → Verdict α
  | .ok a => .ok a
  | .error k => .error (k, l)

mutual

/-- Evaluation on kinds, where names have these kinds, no function is known and these operands read
as numbers. -/
def kinds (bound : String → Option Kind) (numeric : Expr → Bool) : Expr → Verdict Kind
  | .number .. => .ok .number
  | .string .. => .ok .string
  | .boolean .. => .ok .boolean
  | .identifier name l =>
    match bound name with
    | some k => .ok k
    | none => .error (.unsupportedFeature, l)
  | .unary op operand l => do
    let k ← operand.kinds bound numeric
    if op = .plus ∧ k = .string ∧ numeric operand then .ok .number else placed l (op.onKinds k)
  | .binary op left right l => do
    let x ← left.kinds bound numeric
    let y ← right.kinds bound numeric
    placed l (op.onKinds x y)
  | .conditional test accept reject l => do
    let t ← test.kinds bound numeric
    let a ← accept.kinds bound numeric
    let r ← reject.kinds bound numeric
    placed l (t.choose a r)
  | .call _ args l => do
    kindsAll bound numeric args
    .error (.unsupportedFeature, l)
  | .extension _ l => .error (.eval, l)

def kindsAll (bound : String → Option Kind) (numeric : Expr → Bool) : List Expr → Verdict Unit
  | [] => .ok ()
  | e :: es => do
    let _ ← e.kinds bound numeric
    kindsAll bound numeric es

end

end Expr

def Location.Whole (l : Location) : Prop := l.line.isSome = l.column.isSome

theorem Location.Whole.orElse {l : Location} (h : l.Whole) : nowhere.orElse l = l := by
  obtain ⟨_ | line, _ | column⟩ := l
  · rfl
  · cases h
  · cases h
  · rfl

/-- A node of the language with a whole location and, if it is a number, with a text for one. -/
structure Expr.Proper (n : Expr) : Prop where
  regular : n.Regular
  whole : n.location.Whole
  reads : ∀ text l, n = .number text l → (Numeral.read text).isSome

def Fault.Unsupported (fault : Fault) : Prop :=
  ∃ d, fault = .diagnostic d ∧ d.kind = .unsupportedFeature ∧ d.location = Location.nowhere

/-- A context that knows these values for names and no function. -/
structure Context.Binds (context : Context) (value : String → Option Value) : Prop where
  bound : ∀ earlier name v, value name = some v → context.answer earlier (.resolve name) = .ok v
  unbound : ∀ earlier name, value name = none →
    ∃ fault, context.answer earlier (.resolve name) = .error fault ∧ fault.Unsupported
  invoke : ∀ earlier name args,
    ∃ fault, context.answer earlier (.invoke name args) = .error fault ∧ fault.Unsupported

theorem Context.binds_noBindings : noBindings.Binds fun _ => none where
  bound _ _ _ h := nomatch h
  unbound _ _ _ := ⟨_, rfl, _, rfl, rfl, rfl⟩
  invoke _ _ _ := ⟨_, rfl, _, rfl, rfl, rfl⟩

theorem Bindings.binds (values : Table Value) :
    (Bindings.mk values []).context.Binds fun name => values.find? name where
  bound _ name v h := by
    change resolve _ name = _
    simp only [resolve, h]
  unbound _ name h := by
    change ∃ fault, resolve _ name = _ ∧ _
    simp only [resolve, h]
    exact ⟨_, rfl, _, rfl, rfl, rfl⟩
  invoke _ _ _ := ⟨_, rfl, _, rfl, rfl, rfl⟩

inductive Value.Agree : Except EvalError Value → Except Diagnostic.Kind Kind → Prop
  | value {v : Value} : Agree (.ok v) (.ok v.kind)
  | error {e : EvalError} {k : Diagnostic.Kind}
      (h : ∀ l, (e.toDiagnostic l).kind = k ∧ (e.toDiagnostic l).location = l) :
      Agree (.error e) (.error k)

namespace Value

theorem agree_applyArithmetic (op : ArithmeticOp) (x y : Value) :
    Agree (applyArithmetic op x y) ((BinaryOp.arithmetic op).onKinds x.kind y.kind) := by
  cases x <;> cases y
  case number.number => exact .value
  case string.string =>
    by_cases hop : op = .add
    · subst hop
      exact .value
    · have hk : (BinaryOp.arithmetic op).onKinds .string .string = .error .invalidOperands := by
        cases op <;> first | rfl | exact absurd rfl hop
      rw [applyArithmetic, if_neg hop]
      exact hk ▸ .error fun _ => ⟨rfl, rfl⟩
  all_goals cases op <;> exact .error fun _ => ⟨rfl, rfl⟩

theorem agree_applyBinary (op : BinaryOp) (x y : Value) :
    Agree (applyBinary op x y) (op.onKinds x.kind y.kind) := by
  cases op with
  | arithmetic op => exact agree_applyArithmetic op x y
  | comparison op =>
    cases x <;> cases y <;> first | exact .value | exact .error fun _ => ⟨rfl, rfl⟩
  | logic op => cases x <;> cases y <;> first | exact .value | exact .error fun _ => ⟨rfl, rfl⟩

theorem agree_applyUnary (op : UnaryOp) {x : Value}
    (h : ∀ s, op = .plus → x = .string s → (Numeral.read s).isSome = false) :
    Agree (applyUnary op x) (op.onKinds x.kind) := by
  cases op <;> cases x
  case plus.string s =>
    have hn := h s rfl rfl
    rw [applyUnary, ofNumeral]
    cases hr : Numeral.read s with
    | none => exact .error fun _ => ⟨rfl, rfl⟩
    | some x => rw [hr] at hn; cases hn
  all_goals first | exact .value | exact .error fun _ => ⟨rfl, rfl⟩

theorem agree_choose (test accept reject : Value) :
    Agree (choose test accept reject) (test.kind.choose accept.kind reject.kind) := by
  cases test with
  | boolean b =>
    change Agree _ (Kind.choose .boolean accept.kind reject.kind)
    rw [choose, Kind.choose, if_pos rfl]
    by_cases hk : accept.kind = reject.kind
    · rw [if_pos hk, if_pos hk]
      cases b
      · exact hk ▸ .value
      · exact .value
    · rw [if_neg hk, if_neg hk]
      exact .error fun _ => ⟨rfl, rfl⟩
  | _ => exact .error fun _ => ⟨rfl, rfl⟩

end Value

def Eval.Gives (x : Eval α) : Verdict α → Prop
  | .ok a => ∀ earlier, ∃ later, x earlier = .ok a later
  | .error (k, l) => ∀ earlier, ∃ d later, x earlier = .error (.diagnostic d) later ∧
      d.kind = k ∧ d.location = l

def Eval.Shows (view : α → β) (x : Eval α) (verdict : Verdict β) : Prop :=
  ∃ r : Verdict α, x.Gives r ∧ r.map view = verdict

namespace Eval.Shows

variable {view : α → β}

theorem pure (a : α) : Shows view (Pure.pure a) (.ok (view a)) :=
  ⟨.ok a, fun earlier => ⟨earlier, rfl⟩, rfl⟩

theorem bind {view' : γ → δ} {x : Eval α} {f : α → Eval γ} {verdict : Verdict β}
    {g : β → Verdict δ} (hx : Shows view x verdict)
    (hf : ∀ a, x.Gives (.ok a) → Shows view' (f a) (g (view a))) :
    Shows view' (x >>= f) (verdict >>= g) := by
  obtain ⟨r, hx, rfl⟩ := hx
  cases r with
  | error p =>
    refine ⟨.error p, fun earlier => ?_, rfl⟩
    obtain ⟨d, later, he, hd⟩ := hx earlier
    exact ⟨d, later, bind_error he, hd⟩
  | ok a =>
    obtain ⟨s, hs, hg⟩ := hf a hx
    refine ⟨s, ?_, hg⟩
    cases s with
    | ok c =>
      intro earlier
      obtain ⟨middle, he⟩ := hx earlier
      obtain ⟨later, hl⟩ := hs middle
      exact ⟨later, (bind_ok he).trans hl⟩
    | error p =>
      intro earlier
      obtain ⟨middle, he⟩ := hx earlier
      obtain ⟨d, later, hl, hd⟩ := hs middle
      exact ⟨d, later, (bind_ok he).trans hl, hd⟩

theorem operation {x : Except EvalError Value} {k : Except Diagnostic.Kind Kind}
    (h : Value.Agree x k) (l : Location) :
    Shows Value.kind (Eval.ofExcept l x) (Expr.placed l k) := by
  cases h with
  | @value v => exact pure v
  | @error e k h => exact ⟨.error (k, l), fun earlier => ⟨_, earlier, rfl, h l⟩, rfl⟩

variable {context : Context} {value : String → Option Value} {l : Location}

theorem identifier (hc : context.Binds value) (hl : l.Whole) (name : String) :
    Shows Value.kind (Eval.locating l (Eval.request context (.resolve name)))
      (match (value name).map Value.kind with
        | some k => .ok k
        | none => .error (.unsupportedFeature, l)) := by
  cases hv : value name with
  | some v =>
    refine ⟨.ok v, fun earlier => ?_, rfl⟩
    rw [locating_apply, request_apply, hc.bound earlier name v hv]
    exact ⟨_, rfl⟩
  | none =>
    refine ⟨.error (.unsupportedFeature, l), fun earlier => ?_, rfl⟩
    obtain ⟨_, hf, d, rfl, hk, hd⟩ := hc.unbound earlier name hv
    rw [locating_apply, request_apply, hf]
    exact ⟨_, _, rfl, hk, by rw [Diagnostic.locate, hd, hl.orElse]⟩

theorem call (hc : context.Binds value) (hl : l.Whole) (name : String) (vs : List Value) :
    Shows Value.kind (Eval.reportingCall name l (Eval.request context (.invoke name vs)))
      (.error (.unsupportedFeature, l)) := by
  refine ⟨.error (.unsupportedFeature, l), fun earlier => ?_, rfl⟩
  obtain ⟨_, hf, d, rfl, hk, hd⟩ := hc.invoke earlier name vs
  rw [reportingCall_apply name l l [], request_apply, hf]
  simp only [Expr.passOn_diagnostic]
  exact ⟨_, _, rfl, hk, by rw [Diagnostic.locate, hd]; exact hl.orElse⟩

end Eval.Shows

namespace Expr

open Eval (Shows)

def readsNumber (context : Context) (e : Expr) : Bool :=
  match e.plain context [] with
  | .ok (.string s) _ => (Numeral.read s).isSome
  | _ => false

variable {context : Context} {value : String → Option Value}

theorem readsNumber_of_gives {e : Expr} (h : (e.plain context).Gives (.ok (.string s))) :
    e.readsNumber context = (Numeral.read s).isSome := by
  obtain ⟨later, h⟩ := h []
  rw [readsNumber, h]

theorem shows_unary {operand : Expr} (h : (operand.plain context).Gives (.ok v)) (op : UnaryOp)
    (l : Location) :
    Shows Value.kind (Eval.ofExcept l (Value.applyUnary op v))
      (if op = .plus ∧ v.kind = .string ∧ operand.readsNumber context then .ok .number
        else placed l (op.onKinds v.kind)) := by
  by_cases hr : op = .plus ∧ v.kind = .string ∧ operand.readsNumber context
  · rw [if_pos hr]
    obtain ⟨rfl, hk, hr⟩ := hr
    cases v with
    | string s =>
      rw [readsNumber_of_gives h] at hr
      obtain ⟨x, hx⟩ := Option.isSome_iff_exists.1 hr
      rw [Value.applyUnary, Value.ofNumeral, hx]
      exact .pure (Value.number x)
    | number | boolean => cases hk
  · rw [if_neg hr]
    refine .operation (Value.agree_applyUnary op ?_) l
    rintro s rfl rfl
    rw [readsNumber_of_gives h] at hr
    simpa [Value.kind] using hr

mutual

theorem plain_shows (hc : context.Binds value) : (e : Expr) → (∀ n ∈ e.nodes, n.Proper) →
    Shows Value.kind (e.plain context)
      (e.kinds (fun name => (value name).map Value.kind) (readsNumber context))
  | .number text l, hn => by
    obtain ⟨x, hx⟩ := Option.isSome_iff_exists.1 ((hn _ (mem_nodes _)).reads text l rfl)
    rw [plain, Value.ofNumeral, hx]
    exact .pure (Value.number x)
  | .string text l, _ => .pure (Value.string text)
  | .boolean b l, _ => .pure (Value.boolean b)
  | .identifier name l, hn => .identifier hc (hn _ (mem_nodes _)).whole name
  | .unary op operand l, hn => by
    rw [nodes, List.forall_mem_cons] at hn
    exact (plain_shows hc operand hn.2).bind fun v hv => shows_unary hv op l
  | .binary op left right l, hn => by
    rw [nodes, List.forall_mem_cons, List.forall_mem_append] at hn
    refine (plain_shows hc left hn.2.1).bind fun x _ => ?_
    refine (plain_shows hc right hn.2.2).bind fun y _ => ?_
    exact .operation (Value.agree_applyBinary op x y) l
  | .conditional test accept reject l, hn => by
    rw [nodes, List.forall_mem_cons, List.forall_mem_append, List.forall_mem_append] at hn
    refine (plain_shows hc test hn.2.1).bind fun t _ => ?_
    refine (plain_shows hc accept hn.2.2.1).bind fun a _ => ?_
    refine (plain_shows hc reject hn.2.2.2).bind fun r _ => ?_
    exact .operation (Value.agree_choose t a r) l
  | .call callee args l, hn => by
    obtain ⟨name, m, rfl⟩ := (hn _ (mem_nodes _)).regular
    have hl := (hn _ (mem_nodes _)).whole
    rw [nodes, List.forall_mem_cons, List.forall_mem_append] at hn
    exact (plainAll_shows hc args hn.2.2).bind fun vs _ => .call hc hl name vs
  | .extension name l, hn => ((hn _ (mem_nodes _)).regular).elim

theorem plainAll_shows (hc : context.Binds value) : (es : List Expr) →
    (∀ n ∈ nodesAll es, n.Proper) →
    Shows (fun _ => ()) (plainAll context es)
      (kindsAll (fun name => (value name).map Value.kind) (readsNumber context) es)
  | [], _ => .pure []
  | e :: es, hn => by
    rw [nodesAll, List.forall_mem_append] at hn
    refine (plain_shows hc e hn.1).bind fun v _ => ?_
    have hs := plainAll_shows hc es hn.2
    rw [← bind_pure (kindsAll _ _ es)]
    exact hs.bind fun vs _ => .pure (v :: vs)

end

def verdict : Except Diagnostic Value → Verdict Kind
  | .ok v => .ok v.kind
  | .error d => .error (d.kind, d.location)

section

variable {bound : String → Option Kind} {numeric numeric' : Expr → Bool}

mutual

theorem kinds_congr : (e : Expr) →
    (∀ operand l, .unary .plus operand l ∈ e.nodes → numeric operand = numeric' operand) →
    e.kinds bound numeric = e.kinds bound numeric'
  | .number .., _ | .string .., _ | .boolean .., _ | .identifier .., _ | .extension .., _ => rfl
  | .unary op operand l, h => by
    have ho := kinds_congr operand fun o m ho => h o m (List.mem_cons_of_mem _ ho)
    rw [kinds, kinds, ho]
    cases op with
    | plus => rw [h operand l (mem_nodes _)]
    | minus | not => simp only [reduceCtorEq, false_and, if_false]
  | .binary op left right l, h => by
    simp only [nodes, List.mem_cons, List.mem_append] at h
    rw [kinds, kinds, kinds_congr left fun o m ho => h o m (.inr (.inl ho)),
      kinds_congr right fun o m ho => h o m (.inr (.inr ho))]
  | .conditional test accept reject l, h => by
    simp only [nodes, List.mem_cons, List.mem_append] at h
    rw [kinds, kinds, kinds_congr test fun o m ho => h o m (.inr (.inl ho)),
      kinds_congr accept fun o m ho => h o m (.inr (.inr (.inl ho))),
      kinds_congr reject fun o m ho => h o m (.inr (.inr (.inr ho)))]
  | .call callee args l, h => by
    simp only [nodes, List.mem_cons, List.mem_append] at h
    rw [kinds, kinds, kindsAll_congr args fun o m ho => h o m (.inr (.inr ho))]

theorem kindsAll_congr : (es : List Expr) →
    (∀ operand l, .unary .plus operand l ∈ nodesAll es → numeric operand = numeric' operand) →
    kindsAll bound numeric es = kindsAll bound numeric' es
  | [], _ => rfl
  | e :: es, h => by
    simp only [nodesAll, List.mem_append] at h
    rw [kindsAll, kindsAll, kinds_congr e fun o m ho => h o m (.inl ho),
      kindsAll_congr es fun o m ho => h o m (.inr ho)]

end

end

theorem verdict_evaluate {limit : Int} {e : Expr} (hc : context.Binds value)
    (hn : ∀ n ∈ e.nodes, n.Proper) (hl : e.levels ≤ limit) :
    verdict (e.evaluate context limit).1 =
      e.kinds (fun name => (value name).map Value.kind) (readsNumber context) := by
  obtain ⟨r, hr, hk⟩ := plain_shows hc e hn
  rw [evaluate, evalAt_eq_plain_of_levels.1 e 0 (by omega), conclude, ← hk]
  cases r with
  | ok v =>
    obtain ⟨later, h⟩ := hr []
    rw [h]
    rfl
  | error p =>
    obtain ⟨d, later, h, hd⟩ := hr []
    rw [h]
    exact congrArg Except.error (Prod.ext hd.1 hd.2)

/-- Evaluation succeeds or fails, with a value or an error of this kind and at this place, as it
does on kinds alone, but for the strings that a plus sign turns into numbers. -/
theorem evaluate_kinds {limit : Int} {e : Expr} (hc : context.Binds value)
    (hn : ∀ n ∈ e.nodes, n.Proper) (hl : e.levels ≤ limit) :
    verdict (e.evaluate context limit).1 =
        e.kinds (fun name => (value name).map Value.kind) (readsNumber context) ∧
      ((∀ operand l, .unary .plus operand l ∈ e.nodes → readsNumber context operand = false) →
        verdict (e.evaluate context limit).1 =
          e.kinds (fun name => (value name).map Value.kind) fun _ => false) := by
  have h := verdict_evaluate hc hn hl
  exact ⟨h, fun hr => h.trans (kinds_congr e hr)⟩

/-- `+s` where the value of the name reads as a number, and where it has none. -/
theorem evaluate_kinds_of_plus :
    let e : Expr := .unary .plus (.identifier "s" (.ofPair 1 2)) (.ofPair 1 1)
    let b : Bindings := ⟨[("s", .string "42")], []⟩
    (b.context.Binds fun name => b.values.find? name) ∧ (Context.noBindings.Binds fun _ => none) ∧
      (∀ n ∈ e.nodes, n.Proper) ∧ (e.levels : Int) ≤ 200 ∧
      verdict (e.evaluate b.context 200).1 = .ok .number ∧
      verdict (e.evaluate .noBindings 200).1 = .error (.unsupportedFeature, .ofPair 1 2) := by
  intro e b
  have hc := Bindings.binds b.values
  have hn : ∀ n ∈ e.nodes, n.Proper :=
    List.forall_mem_cons.2 ⟨⟨trivial, rfl, nofun⟩,
      List.forall_mem_singleton.2 ⟨trivial, rfl, nofun⟩⟩
  have hl : (e.levels : Int) ≤ 200 := by simp only [e, levels]; decide
  exact ⟨hc, Context.binds_noBindings, hn, hl, (evaluate_kinds hc hn hl).1.trans rfl,
    (evaluate_kinds Context.binds_noBindings hn hl).1.trans rfl⟩

/-- A plus sign before a string may succeed or fail, whatever the kinds are. -/
theorem plus_not_by_kinds :
    let e : Expr := .unary .plus (.identifier "s" (.ofPair 1 2)) (.ofPair 1 1)
    let numeral : Bindings := ⟨[("s", .string "42")], []⟩
    let word : Bindings := ⟨[("s", .string "forty-two")], []⟩
    let kindIn (b : Bindings) (name : String) : Option Kind := (b.values.find? name).map Value.kind
    verdict (e.evaluate numeral.context 200).1 = .ok .number ∧
      verdict (e.evaluate word.context 200).1 = .error (.invalidNumericLiteral, .ofPair 1 1) ∧
      kindIn numeral = kindIn word ∧
      e.kinds (kindIn numeral) (fun _ => false) = .error (.invalidNumericLiteral, .ofPair 1 1) := by
  intro e numeral word kindIn
  refine ⟨by decide +kernel, by decide +kernel, funext fun name => ?_, rfl⟩
  simp only [kindIn, numeral, word, Table.find?, List.lookup_cons]
  split <;> rfl

end Expr

end Formulae
