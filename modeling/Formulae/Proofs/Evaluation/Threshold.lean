import Formulae.Proofs.Evaluation.Refinement
import Formulae.Proofs.Evaluation.Requests

namespace Formulae

def Fault.Shallow : Fault → Prop
  | .diagnostic d => d.kind ≠ .evalNestingTooDeep
  | .host _ => True

theorem EvalError.shallow_of_own {error : EvalError} (h : error.Own 0 0) (l : Location) :
    (Fault.diagnostic (error.toDiagnostic l)).Shallow := by
  cases error with
  | tooDeep limit => exact absurd h.2 (Int.lt_irrefl 0)
  | _ => exact fun hk => nomatch hk

theorem Expr.shallow_passOn (n : Expr) (h : fault.Shallow) : (n.passOn fault).Shallow := by
  cases fault with
  | diagnostic d =>
    rw [passOn_diagnostic]
    exact h
  | host error =>
    cases n
    case call callee _ _ => cases callee <;> first | trivial | exact fun hk => nomatch hk
    all_goals trivial

theorem Expr.shallow_report (e : Expr) (h : fault.Shallow) :
    (e.report fault).kind ≠ .evalNestingTooDeep := by
  cases fault with
  | diagnostic d => exact h
  | host error => nofun

def Context.Shallow (context : Context) : Prop :=
  ∀ earlier r fault, context.answer earlier r = .error fault → fault.Shallow

namespace Eval

def asked : EStateM.Result Fault (List Request) α → List Request
  | .ok _ requests => requests
  | .error _ requests => requests

def Grows (x : Eval α) : Prop := ∀ earlier, earlier <:+ asked (x earlier)

namespace Grows

theorem pure (a : α) : Grows (Pure.pure a : Eval α) := List.suffix_refl

theorem ofExcept (l : Location) (x : Except EvalError α) : Grows (Eval.ofExcept l x) := by
  intro earlier
  cases x <;> exact List.suffix_refl earlier

theorem bind {x : Eval α} {f : α → Eval β} (hx : Grows x) (hf : ∀ a, Grows (f a)) :
    Grows (x >>= f) := by
  intro earlier
  have h := hx earlier
  simp only [Bind.bind, EStateM.bind]
  generalize x earlier = r at h
  cases r with
  | ok a middle => exact h.trans (hf a middle)
  | error fault later => exact h

theorem raise (bases : List (Value × Location)) (exponent : Value) :
    Grows (Eval.raise bases exponent) := by
  induction bases with
  | nil => exact .pure exponent
  | cons b bases ih =>
    rw [Eval.raise_cons]
    exact ih.bind fun v => .ofExcept b.2 _

end Grows

variable {context : Context} {own : Fault → Prop} {ns : List Expr}

theorem Ends.requests {earlier : List Request} {r : EStateM.Result Fault (List Request) α}
    (h : Ends context own ns earlier r) :
    ∃ before rs, before <+: ns ∧ asked r = rs.reverse ++ earlier ∧
      List.Forall₂ Expr.Asks before rs := by
  cases h with
  | value h =>
    obtain ⟨rs, hl, hrs⟩ := h.requests
    exact ⟨ns, rs, List.prefix_refl ns, hl, hrs⟩
  | @refused before n r fault later h hn ha hr =>
    obtain ⟨rs, rfl, hrs⟩ := h.requests
    exact ⟨_, rs ++ [r], hn, by simp [asked], List.rel_append hrs (.cons ha .nil)⟩
  | failed h hn hf =>
    obtain ⟨rs, hl, hrs⟩ := h.requests
    exact ⟨_, rs, hn, hl, hrs⟩

theorem Asking.grows {x : Eval α} (h : Asking context own ns x) : Grows x := by
  intro earlier
  obtain ⟨-, rs, -, hrs, -⟩ := (h earlier).requests
  exact ⟨rs.reverse, hrs.symm⟩

theorem Asking.checked {x : Except EvalError α} {l : Location}
    (h : ∀ error, x = .error error → error.Own 0 0) :
    Asking context Fault.Shallow [] (Eval.ofExcept l x) :=
  .ofExcept fun error he => EvalError.shallow_of_own (h error he) l

end Eval

namespace Expr

open Eval (Asking)

mutual

theorem plain_asks (context : Context) : (e : Expr) →
    Asking context Fault.Shallow e.askers (e.plain context)
  | .number .. => .checked fun _ => Value.own_of_ofNumeral
  | .string .. | .boolean .. => .pure _
  | .identifier name l => .identifier name l
  | .unary _ operand _ =>
    (plain_asks context operand).bind_nil fun _ => .checked fun _ => Value.own_of_applyUnary
  | .binary _ left right _ =>
    (plain_asks context left).bind fun _ => (plain_asks context right).bind_nil fun _ =>
      .checked fun _ => Value.own_of_applyBinary
  | .conditional test accept reject _ =>
    (plain_asks context test).bind fun _ => (plain_asks context accept).bind fun _ =>
      (plain_asks context reject).bind_nil fun _ => .checked fun _ => Value.own_of_choose
  | .call callee args l => by
    cases callee with
    | identifier name m => exact (plainAll_asks context args).bind fun vs => .call name m args l vs
    | _ => exact .ofExcept fun _ he => by cases he; nofun
  | .extension .. => .ofExcept fun _ he => by cases he; nofun

theorem plainAll_asks (context : Context) : (es : List Expr) →
    Asking context Fault.Shallow (askersAll es) (plainAll context es)
  | [] => .pure []
  | e :: es =>
    (plain_asks context e).bind fun _ => (plainAll_asks context es).bind_nil fun _ => .pure _

end

end Expr

namespace Eval

/-- What becomes under a limit of a computation that takes as many levels as `top`: all that it
comes to, a value only if there are as many levels, or a report that there are not, after some of
its requests. -/
inductive Curbed (limit : Int) (top : Nat) (r : EStateM.Result Fault (List Request) α) :
    EStateM.Result Fault (List Request) α → Prop
  | whole (h : ∀ {a later}, r = .ok a later → top ≤ limit) : Curbed limit top r r
  | cut {l : Location} {later : List Request} (h : later <:+ asked r) :
      Curbed limit top r (.error (.diagnostic ((EvalError.tooDeep limit).toDiagnostic l)) later)

structure Curbs (limit : Int) (top : Nat) (x y : Eval α) : Prop where
  grows : Grows y
  curbed : ∀ earlier, Curbed limit top (y earlier) (x earlier)

namespace Curbs

variable {limit : Int} {top depth n m : Nat} {x y : Eval α} {f g : α → Eval β}

theorem same (hx : Grows x) (h : top ≤ limit) : Curbs limit top x x :=
  ⟨hx, fun _ => .whole fun _ => h⟩

theorem of_eq (h : x = y) (hy : Grows y) (hd : top ≤ limit) : Curbs limit top x y :=
  h.symm ▸ .same hy hd

theorem mono (h : Curbs limit top x y) (hn : n ≤ top) : Curbs limit n x y := by
  refine ⟨h.grows, fun earlier => ?_⟩
  have hx := h.curbed earlier
  generalize x earlier = r at hx
  cases hx with
  | whole h => exact .whole fun hr => by have := h hr; omega
  | cut h => exact .cut h

theorem bind (hx : Curbs limit n x y) (hf : ∀ a, Curbs limit m (f a) (g a)) :
    Curbs limit (max n m) (x >>= f) (y >>= g) := by
  refine ⟨hx.grows.bind fun a => (hf a).grows, fun earlier => ?_⟩
  have hy := hx.curbed earlier
  simp only [Bind.bind, EStateM.bind]
  generalize y earlier = r, x earlier = r' at hy
  cases hy with
  | whole h =>
    cases r with
    | ok a middle =>
      have hg := (hf a).curbed middle
      have := h rfl
      simp only
      generalize g a middle = r, f a middle = r' at hg
      cases hg with
      | whole h' => exact .whole fun hr => by have := h' hr; omega
      | cut h' => exact .cut h'
    | error fault later => exact .whole nofun
  | cut h =>
    -- Without the limit the computation goes on, and what it requests then comes on top.
    cases r with
    | ok a middle => exact .cut (h.trans ((hf a).grows middle))
    | error fault later => exact .cut h

theorem bind_same (hx : Curbs limit top x y) (h0 : 0 ≤ limit) (hf : ∀ a, Grows (f a)) :
    Curbs limit top (x >>= f) (y >>= f) := by
  have hf (a : α) : Curbs limit 0 (f a) (f a) := same (hf a) h0
  rw [← Nat.max_zero top]
  exact hx.bind hf

theorem refuse {e : EvalError} {l : Location} :
    Curbs limit top (Eval.ofExcept l (.error e) : Eval α) (Eval.ofExcept l (.error e)) :=
  ⟨.ofExcept l _, fun _ => .whole nofun⟩

theorem guarded {l : Location} {k : PUnit → Eval α} (hy : Grows y)
    (h : depth ≤ limit → Curbs limit top x y) :
    Curbs limit top
      (if limit < depth then
        throw (.diagnostic ((EvalError.tooDeep limit).toDiagnostic l)) >>= k
      else x) y := by
  split
  case isTrue => exact ⟨hy, fun earlier => .cut (hy earlier)⟩
  case isFalse hd => exact h (Int.not_lt.1 hd)

end Curbs

end Eval

namespace Expr

open Eval (Asking Grows Curbs)

variable {context : Context}

theorem grows_plain (context : Context) (e : Expr) : Grows (e.plain context) :=
  (plain_asks context e).grows

theorem evalAt_curbs (context : Context) (limit : Int) :
    (∀ (e : Expr) (depth : Nat),
      Curbs limit (depth + e.levels) (e.evalAt context limit depth) (e.plain context)) ∧
    (∀ (around : List (BinaryOp × Expr × Location)) (depth : Nat) (v : Value), depth ≤ limit →
      Curbs limit (depth + levelsAround around) (evalAroundAt context limit (depth + 1) v around)
        (plainAround context v around)) ∧
    (∀ (es : List Expr) (depth : Nat), depth ≤ limit →
      Curbs limit (depth + levelsAll es) (evalAllAt context limit (depth + 1) es)
        (plainAll context es)) := by
  apply runs_induction
  case unary =>
    intro op operand l ih depth
    rw [evalAt]
    refine .guarded (grows_plain context _) fun hd => ?_
    have hs := (ih (depth + 1)).bind_same (by omega) fun v =>
      Grows.ofExcept l (Value.applyUnary op v)
    exact hs.mono (by simp only [levels]; omega)
  case power =>
    intro left right l ihb ihe depth
    rw [evalAt]
    refine .guarded (grows_plain context _) fun hd => ?_
    rw [plain_powerRun, powerRun]
    simp only [List.map_cons]
    have hs := (ihb depth hd).bind fun bases => (ihe (depth + 1)).bind_same (by omega) fun v =>
      Grows.raise (bases.zip (l :: right.powerRun.1.map Prod.snd)) v
    exact hs.mono (by simp only [levels]; omega)
  case binary =>
    intro op left right l hop ihf iha depth
    rw [evalAt]
    · refine .guarded (grows_plain context _) fun hd => ?_
      rw [plain_binary]
      have hs := (ihf (depth + 1)).bind fun v => iha depth v hd
      exact hs.mono (by rw [levels_binary hop]; omega)
    · exact hop
  case conditional =>
    intro test accept reject l iht iha ihr depth
    rw [evalAt]
    refine .guarded (grows_plain context _) fun hd => ?_
    have hs := (iht (depth + 1)).bind fun t => (iha (depth + 1)).bind fun a =>
      (ihr (depth + 1)).bind_same (by omega) fun r => Grows.ofExcept l (Value.choose t a r)
    exact hs.mono (by simp only [levels]; omega)
  case call =>
    intro callee args l ih depth
    cases callee with
    | identifier name m =>
      rw [evalAt]
      refine .guarded (grows_plain context _) fun hd => ?_
      have hs := (ih depth hd).bind_same (by omega) fun vs =>
        have h : Asking context Fault.Shallow _ _ := .call name m args l vs
        h.grows
      exact hs.mono (by simp only [levels]; omega)
    | _ =>
      -- The arguments count as levels, but they are not evaluated.
      rw [evalAt]
      · exact .guarded (grows_plain context _) fun hd => .refuse
      · intro name m h
        cases h
  case number | string | boolean | identifier | extension =>
    intro _ _ depth
    rw [evalAt]
    simp only [levels]
    exact .guarded (grows_plain context _) fun hd => .of_eq rfl (grows_plain context _) hd
  case around_nil =>
    intro depth v hd
    rw [evalAroundAt, levelsAround]
    exact .same (.pure v) hd
  case around_cons =>
    intro op right l around ih iha depth v hd
    rw [evalAroundAt, plainAround]
    have hs := (ih (depth + 1)).bind fun y =>
      (Curbs.same (.ofExcept l (Value.applyBinary op v y)) hd).bind fun v => iha depth v hd
    exact hs.mono (by simp only [levelsAround]; omega)
  case all_nil =>
    intro depth hd
    rw [evalAllAt, levelsAll]
    exact .same (.pure []) hd
  case all_cons =>
    intro e es ih ihs depth hd
    rw [evalAllAt, plainAll]
    have hs := (ih (depth + 1)).bind fun v =>
      (ihs depth hd).bind_same (by omega) fun vs => Grows.pure (v :: vs)
    exact hs.mono (by simp only [levelsAll]; omega)

theorem requests_conclude (e : Expr) (x : Eval Value) :
    (e.conclude x).2 = (Eval.asked (x [])).reverse := by
  rw [conclude]
  cases x [] <;> rfl

theorem shallow_plain {e : Expr} {d : Diagnostic} (hc : context.Shallow)
    (h : (e.conclude (e.plain context)).1 = .error d) : d.kind ≠ .evalNestingTooDeep := by
  have hends := plain_asks context e []
  rw [conclude] at h
  generalize e.plain context [] = r at hends h
  cases hends with
  | value => cases h
  | @refused _ n _ _ _ _ _ _ hr =>
    cases h
    exact e.shallow_report (n.shallow_passOn (hc _ _ _ hr))
  | failed _ _ hf =>
    cases h
    exact e.shallow_report hf

theorem evaluate_curbed (context : Context) (limit : Int) (e : Expr) :
    (e.evaluate context limit = e.conclude (e.plain context) ∧
      ∀ v, (e.evaluate context limit).1 = .ok v → e.levels ≤ limit) ∨
    ∃ l, (e.evaluate context limit).1 = .error ((EvalError.tooDeep limit).toDiagnostic l) ∧
      (e.evaluate context limit).2 <+: (e.conclude (e.plain context)).2 := by
  have h := ((evalAt_curbs context limit).1 e 0).curbed []
  rw [Nat.zero_add] at h
  rw [evaluate, requests_conclude, requests_conclude, List.reverse_prefix, conclude, conclude]
  generalize e.plain context [] = r, e.evalAt context limit 0 [] = r' at h
  cases h with
  | whole h =>
    refine .inl ⟨rfl, fun v hv => ?_⟩
    cases r with
    | ok v later => exact h rfl
    | error fault later => cases hv
  | @cut l later h => exact .inr ⟨l, rfl, h⟩

/-- The limit of the evaluation is a threshold. If the levels of an expression are within it,
evaluation is plain recursion and does not fail for want of levels. Otherwise there is no value:
evaluation fails for want of levels or with the error of plain recursion, and makes only requests
that plain recursion begins with. -/
theorem evaluate_threshold (hc : context.Shallow) (e : Expr) :
    (∀ limit : Int, e.levels ≤ limit →
      e.evaluate context limit = e.conclude (e.plain context) ∧
      ∀ d, (e.evaluate context limit).1 = .error d → d.kind ≠ .evalNestingTooDeep) ∧
    ∀ limit : Int, limit < e.levels → ∃ d, (e.evaluate context limit).1 = .error d ∧
      ((∃ l, d = (EvalError.tooDeep limit).toDiagnostic l) ∨
        (e.conclude (e.plain context)).1 = .error d) ∧
      (e.evaluate context limit).2 <+: (e.conclude (e.plain context)).2 := by
  refine ⟨fun limit hl => ?_, fun limit hl => ?_⟩
  · have he : e.evaluate context limit = e.conclude (e.plain context) := by
      rw [evaluate, evalAt_eq_plain_of_levels.1 e 0 (by omega)]
    exact ⟨he, fun d hd => shallow_plain hc (he ▸ hd)⟩
  · obtain ⟨he, hv⟩ | ⟨l, hd, hr⟩ := evaluate_curbed context limit e
    · cases hd : (e.evaluate context limit).1 with
      | ok v => exact absurd (hv v hd) (Int.not_le.2 hl)
      | error d => exact ⟨d, rfl, .inr (he ▸ hd), he ▸ List.prefix_refl _⟩
    · exact ⟨_, hd, .inl ⟨l, rfl⟩, hr⟩

/-- `c + a ^ b`, where the power takes a level below the sum. -/
theorem evaluate_threshold_of_power :
    let name (s : String) : Expr := .identifier s Location.nowhere
    let power : Expr := .binary (.arithmetic .power) (name "a") (name "b") Location.nowhere
    let e : Expr := .binary (.arithmetic .add) (name "c") power Location.nowhere
    let numbers : Context := ⟨fun _ _ => .ok (.number 2)⟩
    numbers.Shallow ∧ e.levels = 2 ∧ e.evaluate numbers 2 = e.conclude (e.plain numbers) ∧
      (∃ l, (e.evaluate numbers 1).1 = .error ((EvalError.tooDeep 1).toDiagnostic l)) ∧
      (e.evaluate numbers 1).2 <+: [.resolve "c", .resolve "a", .resolve "b"] := by
  intro name power e numbers
  have hc : numbers.Shallow := fun earlier r fault h => by cases h
  have hl : e.levels = 2 := by
    simp only [e, power, name, levels, leftRun, powerRun, levelsAll, levelsAround, List.map_nil]
    rfl
  obtain ⟨high, low⟩ := evaluate_threshold hc e
  obtain ⟨d, hd, ⟨l, rfl⟩ | hp, hr⟩ := low 1 (by omega)
  · exact ⟨hc, hl, (high 2 (by omega)).1, ⟨l, hd⟩, hr⟩
  · cases hp

end Expr

end Formulae
