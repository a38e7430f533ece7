import Formulae.Proofs.Alike
import Formulae.Proofs.Evaluation.Kinds
import Formulae.Proofs.Evaluation.Refusals
import Formulae.Proofs.Simulation

namespace Formulae

structure Diagnostic.Alike (R : Location → Location → Prop) (d d' : Diagnostic) : Prop where
  case_eq : d.kind.ctorIdx = d'.kind.ctorIdx
  location : R d.location d'.location

inductive Fault.Alike (R : Location → Location → Prop) : Fault → Fault → Prop
  | diagnostic (h : d.Alike R d') : Alike R (.diagnostic d) (.diagnostic d')
  | host (e : HostError) : Alike R (.host e) (.host e)

inductive Fault.Reported (R : Location → Location → Prop) : Fault → Fault → Prop
  | intro (h : d.Alike R d') : Reported R (.diagnostic d) (.diagnostic d')

/-- Related results, or reports of one class at related places. -/
inductive SameOutcome (R : Location → Location → Prop) (A : α → α → Prop) :
    Except Fault α → Except Fault α → Prop
  | ok (h : A a a') : SameOutcome R A (.ok a) (.ok a')
  | error (h : Fault.Reported R fault fault') : SameOutcome R A (.error fault) (.error fault')

theorem SameOutcome.imp {R : Location → Location → Prop} {A B : α → α → Prop}
    (h : SameOutcome R A x y) (hab : ∀ a a', A a a' → B a a') : SameOutcome R B x y := by
  cases h with
  | ok h => exact .ok (hab _ _ h)
  | error h => exact .error h

def Whole (R : Location → Location → Prop) : Prop := ∀ l m, R l m → l.Whole ∧ m.Whole

def Context.Unlocated (context : Context) : Prop :=
  ∀ earlier r fault, context.answer earlier r = .error fault → fault.Unlocated

variable {R : Location → Location → Prop} {l m : Location}

theorem EvalError.Own.alike {error : EvalError} (h : error.Own limit top) (hl : R l m) :
    (error.toDiagnostic l).Alike R (error.toDiagnostic m) := by
  cases error
  case notCallable | unknownNode | raised | raisedByFunction => cases h
  all_goals exact ⟨rfl, hl⟩

theorem Diagnostic.alike_locate {d : Diagnostic} (hd : d.location = .nowhere) (hR : Whole R)
    (hl : R l m) : (d.locate l).Alike R (d.locate m) where
  case_eq := rfl
  location := by
    obtain ⟨hw, hw'⟩ := hR l m hl
    rwa [locate, locate, hd, hw.orElse, hw'.orElse]

namespace Eval

abbrev Blind (R : Location → Location → Prop) (x x' : Eval α) : Prop :=
  Simulates Eq (Fault.Alike R) Eq x x'

namespace Blind

theorem bind {x x' : Eval α} {f f' : α → Eval β} (hx : Blind R x x')
    (hf : ∀ a, Blind R (f a) (f' a)) : Blind R (x >>= f) (x' >>= f') := by
  refine Simulates.bind hx ?_
  rintro a _ rfl
  exact hf a

theorem operation {x : Except EvalError α} (h : ∀ e, x = .error e → e.Own 0 0) (hl : R l m) :
    Blind R (ofExcept l x) (ofExcept m x) := by
  cases x with
  | ok a => exact .pure rfl
  | error e => exact .throw (.diagnostic ((h e rfl).alike hl))

theorem guarded {limit : Int} {depth : Nat} {x x' : Eval α} {f f' : PUnit → Eval α} (hl : R l m)
    (hx : Blind R x x') :
    Blind R
      (if limit < depth then
        throw (.diagnostic ((EvalError.tooDeep limit).toDiagnostic l)) >>= f
      else x)
      (if limit < depth then
        throw (.diagnostic ((EvalError.tooDeep limit).toDiagnostic m)) >>= f'
      else x') := by
  split
  · rintro earlier _ rfl
    exact .error (.diagnostic ⟨rfl, hl⟩) rfl
  · exact hx

theorem raise {bases bases' : List (Value × Location)}
    (h : List.Forall₂ (fun b b' => b.1 = b'.1 ∧ R b.2 b'.2) bases bases') (v : Value) :
    Blind R (raise bases v) (Eval.raise bases' v) := by
  induction h with
  | nil => exact .pure rfl
  | @cons b b' bases bases' hb _ ih =>
    obtain ⟨base, l⟩ := b
    obtain ⟨rfl, hl⟩ := hb
    rw [raise_cons, raise_cons]
    exact ih.bind fun v => operation (fun e => Value.own_of_applyArithmetic) hl

variable {context : Context}

theorem identifier (hc : context.Unlocated) (hR : Whole R) (hl : R l m) (name : String) :
    Blind R (locating l (request context (.resolve name)))
      (locating m (request context (.resolve name))) := by
  rintro earlier _ rfl
  rw [locating_apply, locating_apply, request_apply]
  cases ha : context.answer earlier (.resolve name) with
  | ok v => exact .ok rfl rfl
  | error fault =>
    cases fault with
    | diagnostic d => exact .error (.diagnostic (d.alike_locate (hc _ _ _ ha) hR hl)) rfl
    | host e => exact .error (.host e) rfl

theorem call (hc : context.Unlocated) (hR : Whole R) (hl : R l m) (name : String)
    (vs : List Value) :
    Blind R (reportingCall name l (request context (.invoke name vs)))
      (reportingCall name m (request context (.invoke name vs))) := by
  rintro earlier _ rfl
  rw [reportingCall_apply name l l [], reportingCall_apply name m m [], request_apply]
  cases ha : context.answer earlier (.invoke name vs) with
  | ok v => exact .ok rfl rfl
  | error fault =>
    cases fault with
    | diagnostic d => exact .error (.diagnostic (d.alike_locate (hc _ _ _ ha) hR hl)) rfl
    | host e => exact .error (.diagnostic ⟨rfl, hl⟩) rfl

end Blind

end Eval

namespace Expr

open Eval (Blind)

structure AlikeAround (R : Location → Location → Prop) (s s' : BinaryOp × Expr × Location) :
    Prop where
  op_eq : s.1 = s'.1
  operand : s.2.1.Alike R s'.2.1
  location : R s.2.2 s'.2.2

structure AlikeBase (R : Location → Location → Prop) (s s' : Expr × Location) : Prop where
  operand : s.1.Alike R s'.1
  location : R s.2 s'.2

theorem alike_leftRun {e f : Expr} {around around' : List (BinaryOp × Expr × Location)}
    (h : e.Alike R f) (ha : List.Forall₂ (AlikeAround R) around around') :
    (e.leftRun around).1.Alike R (f.leftRun around').1 ∧
      List.Forall₂ (AlikeAround R) (e.leftRun around).2 (f.leftRun around').2 := by
  fun_induction leftRun around e generalizing f around' with
  | case1 around op left right l ih =>
    cases h with
    | binary hl hle hri =>
      rw [leftRun]
      refine ih hle (.cons ?_ ha)
      exact ⟨rfl, hri, hl⟩
  | case2 around e hb =>
    cases h with
    | binary => exact (hb _ _ _ _ rfl).elim
    | number h => exact ⟨.number h, ha⟩
    | string h => exact ⟨.string h, ha⟩
    | boolean h => exact ⟨.boolean h, ha⟩
    | identifier h => exact ⟨.identifier h, ha⟩
    | unary h ho => exact ⟨.unary h ho, ha⟩
    | conditional h ht hacc hr => exact ⟨.conditional h ht hacc hr, ha⟩
    | call h hn hargs => exact ⟨.call h hn hargs, ha⟩

theorem alike_powerRun {e f : Expr} (h : e.Alike R f) :
    List.Forall₂ (AlikeBase R) e.powerRun.1 f.powerRun.1 ∧
      e.powerRun.2.Alike R f.powerRun.2 := by
  fun_induction powerRun e generalizing f with
  | case1 left right l bases exponent hp ih =>
    cases h with
    | binary hl hle hri =>
      obtain ⟨hb, hx⟩ := ih hri
      rw [hp] at hb hx
      exact ⟨.cons ⟨hle, hl⟩ hb, hx⟩
  | case2 e hb =>
    have hf : f.powerRun = ([], f) := by
      cases h with
      | binary =>
        rw [powerRun]
        rintro left right l ⟨⟩
        exact hb _ _ _ rfl
      | _ => rfl
    rw [hf]
    exact ⟨.nil, h⟩

theorem alike_bases {bases bases' : List (Expr × Location)}
    (h : List.Forall₂ (AlikeBase R) bases bases') :
    List.Forall₂ (Alike R) (bases.map Prod.fst) (bases'.map Prod.fst) ∧
      List.Forall₂ R (bases.map Prod.snd) (bases'.map Prod.snd) := by
  rw [List.forall₂_map_left_iff, List.forall₂_map_right_iff, List.forall₂_map_left_iff,
    List.forall₂_map_right_iff]
  exact ⟨h.imp fun _ _ hs => hs.operand, h.imp fun _ _ hs => hs.location⟩

theorem alike_zip (vs : List Value) {ls ms : List Location} (h : List.Forall₂ R ls ms) :
    List.Forall₂ (fun b b' => b.1 = b'.1 ∧ R b.2 b'.2) (vs.zip ls) (vs.zip ms) := by
  induction h generalizing vs with
  | nil =>
    rw [List.zip_nil_right]
    exact .nil
  | cons hl _ ih =>
    cases vs with
    | nil => exact .nil
    | cons v vs => exact .cons ⟨rfl, hl⟩ (ih vs)

variable {context : Context} {limit : Int}

theorem evalAt_alike (hc : context.Unlocated) (hR : Whole R) :
    (∀ (e : Expr) (f : Expr) (depth : Nat), e.Alike R f →
      Blind R (e.evalAt context limit depth) (f.evalAt context limit depth)) ∧
    (∀ (around : List (BinaryOp × Expr × Location)) (around' : List (BinaryOp × Expr × Location))
      (depth : Nat) (v : Value), List.Forall₂ (AlikeAround R) around around' →
        Blind R (evalAroundAt context limit depth v around)
          (evalAroundAt context limit depth v around')) ∧
    (∀ (es : List Expr) (fs : List Expr) (depth : Nat), List.Forall₂ (Alike R) es fs →
      Blind R (evalAllAt context limit depth es) (evalAllAt context limit depth fs)) := by
  apply runs_induction
  case unary =>
    intro op operand l ih f depth h
    cases h with
    | unary hl ho =>
      rw [evalAt, evalAt]
      refine .guarded hl ((ih _ _ ho).bind fun v => ?_)
      exact .operation (fun e => Value.own_of_applyUnary) hl
  case power =>
    intro left right l ihb ihe f depth h
    cases h with
    | binary hl hle hri =>
      obtain ⟨hb, hx⟩ := alike_powerRun hri
      obtain ⟨hs, hls⟩ := alike_bases hb
      rw [evalAt, evalAt]
      refine .guarded hl ((ihb _ _ (.cons hle hs)).bind fun vs => ?_)
      exact (ihe _ _ hx).bind fun v => .raise (alike_zip vs (.cons hl hls)) v
  case binary =>
    intro op left right l hop ihf iha f depth h
    cases h with
    | @binary _ m _ _ _ right' _ hl hle hri =>
      rw [evalAt, evalAt]
      · have hr : List.Forall₂ (AlikeAround R) [(op, right, l)] [(op, right', m)] :=
          .cons ⟨rfl, hri, hl⟩ .nil
        obtain ⟨hf, hs⟩ := alike_leftRun hle hr
        exact .guarded hl ((ihf _ _ hf).bind fun v => iha _ _ v hs)
      all_goals exact hop
  case conditional =>
    intro test accept reject l iht iha ihr f depth h
    cases h with
    | conditional hl ht ha hr =>
      rw [evalAt, evalAt]
      refine .guarded hl ((iht _ _ ht).bind fun t => (iha _ _ ha).bind fun a => ?_)
      exact (ihr _ _ hr).bind fun r => .operation (fun e => Value.own_of_choose) hl
  case call =>
    intro callee args l ih f depth h
    cases h with
    | call hl hn ha =>
      rw [evalAt, evalAt]
      exact .guarded hl ((ih _ _ ha).bind fun vs => .call hc hR hl _ vs)
  case number =>
    intro text l f depth h
    cases h with
    | number hl =>
      rw [evalAt, evalAt]
      exact .guarded hl (.operation (fun e => Value.own_of_ofNumeral) hl)
  case string | boolean =>
    intro _ _ f depth h
    have hl := h.location
    cases h
    rw [evalAt, evalAt]
    exact .guarded hl (.pure rfl)
  case identifier =>
    intro name l f depth h
    cases h with
    | identifier hl => rw [evalAt, evalAt]; exact .guarded hl (.identifier hc hR hl _)
  case extension =>
    intro name l f depth h
    cases h
  case around_nil =>
    intro around' depth v h
    cases h
    rw [evalAroundAt]
    exact .pure rfl
  case around_cons =>
    intro op right l around ih iha around' depth v h
    cases h with
    | @cons _ s _ _ hs h =>
      obtain ⟨op', right', m⟩ := s
      obtain ⟨rfl, hr, hl⟩ := hs
      rw [evalAroundAt, evalAroundAt]
      refine (ih _ _ hr).bind fun y => ?_
      exact Blind.bind (.operation (fun e => Value.own_of_applyBinary) hl) fun v => iha _ _ v h
  case all_nil =>
    intro fs depth h
    cases h
    rw [evalAllAt]
    exact .pure rfl
  case all_cons =>
    intro e es ih ihs fs depth h
    cases h with
    | cons he h =>
      rw [evalAllAt, evalAllAt]
      exact (ih _ _ he).bind fun v => (ihs _ _ h).bind fun vs => .pure rfl

theorem evaluate_alike (hc : context.Unlocated) (hR : Whole R) (limit : Int) {e f : Expr}
    (h : e.Alike R f) :
    SameOutcome R Eq ((e.evaluate context limit).1.mapError .diagnostic)
        ((f.evaluate context limit).1.mapError .diagnostic) ∧
      (e.evaluate context limit).2 = (f.evaluate context limit).2 := by
  have he : EndAlike Eq (Fault.Alike R) Eq (e.evalAt context limit 0 [])
      (f.evalAt context limit 0 []) := (evalAt_alike hc hR).1 e f 0 h [] [] rfl
  rw [evaluate, evaluate, conclude, conclude]
  generalize e.evalAt context limit 0 [] = r, f.evalAt context limit 0 [] = r' at he ⊢
  cases he with
  | ok hv hs => exact ⟨.ok hv, congrArg List.reverse hs⟩
  | error hf hs =>
    refine ⟨.error ?_, congrArg List.reverse hs⟩
    cases hf with
    | diagnostic hd => exact ⟨hd⟩
    | host error => exact ⟨rfl, h.location⟩

end Expr

end Formulae
