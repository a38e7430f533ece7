import Formulae.Proofs.Evaluation.Levels
import Formulae.Proofs.Evaluation.Plain
import Formulae.Proofs.Nodes
import Mathlib.Data.List.Forall2

namespace Formulae

namespace Expr

mutual

/-- The nodes that ask the context, in the order in which they do. -/
def askers : Expr → List Expr
  | .identifier name l => [.identifier name l]
  | .unary _ operand _ => operand.askers
  | .binary _ left right _ => left.askers ++ right.askers
  | .conditional test accept reject _ => test.askers ++ (accept.askers ++ reject.askers)
  | .call (.identifier name m) args l => askersAll args ++ [.call (.identifier name m) args l]
  | _ => []

def askersAll : List Expr → List Expr
  | [] => []
  | e :: es => e.askers ++ askersAll es

end

def askersAround : List (BinaryOp × Expr × Location) → List Expr
  | [] => []
  | (_, right, _) :: around => right.askers ++ askersAround around

theorem askers_leftRun (around : List (BinaryOp × Expr × Location)) (e : Expr) :
    (e.leftRun around).1.askers ++ askersAround (e.leftRun around).2 =
      e.askers ++ askersAround around := by
  fun_induction leftRun around e with
  | case1 around op left right l ih => simp only [ih, askersAround, askers, List.append_assoc]
  | case2 => rfl

theorem askers_powerRun (e : Expr) :
    askersAll (e.powerRun.1.map Prod.fst) ++ e.powerRun.2.askers = e.askers := by
  fun_induction powerRun e with
  | case1 left right l bases exponent h ih =>
    simp only [h, List.map_cons] at ih ⊢
    simp only [askersAll, askers, ← ih, List.append_assoc]
  | case2 e _ => rfl

mutual

theorem mem_nodes_of_mem_askers : (e : Expr) → n ∈ e.askers → n ∈ e.nodes
  | .unary _ operand _ => fun h => List.mem_cons_of_mem _ (mem_nodes_of_mem_askers operand h)
  | .binary _ left right _ => fun h => by
    simp only [askers, nodes, List.mem_append, List.mem_cons] at h ⊢
    exact .inr (h.imp (mem_nodes_of_mem_askers left) (mem_nodes_of_mem_askers right))
  | .conditional test accept reject _ => fun h => by
    simp only [askers, nodes, List.mem_append, List.mem_cons] at h ⊢
    exact .inr (h.imp (mem_nodes_of_mem_askers test)
      (Or.imp (mem_nodes_of_mem_askers accept) (mem_nodes_of_mem_askers reject)))
  | .call callee args l => fun h => by
    cases callee with
    | identifier name m =>
      simp only [askers, nodes, List.mem_append, List.mem_cons] at h ⊢
      exact h.symm.imp (by simp) fun h => .inr (mem_nodesAll_of_mem_askersAll args h)
    | _ => cases h
  | .identifier name l => id
  | .number .. | .string .. | .boolean .. | .extension .. => fun h => by cases h

theorem mem_nodesAll_of_mem_askersAll : (es : List Expr) → n ∈ askersAll es → n ∈ nodesAll es
  | [], h => h
  | e :: es, h => by
    simp only [askersAll, nodesAll, List.mem_append] at h ⊢
    exact h.imp (mem_nodes_of_mem_askers e) (mem_nodesAll_of_mem_askersAll es)

end

inductive Asks : Expr → Request → Prop
  | name : Asks (.identifier name l) (.resolve name)
  | call : Asks (.call (.identifier name m) args l) (.invoke name vs)

def passOn : Expr → Fault → Fault
  | .call (.identifier name _) _ l, .host e =>
    .diagnostic ((EvalError.raisedByFunction name e).toDiagnostic l)
  | n, fault => fault.locate n.location

theorem passOn_diagnostic (n : Expr) (d : Diagnostic) :
    n.passOn (.diagnostic d) = .diagnostic (d.locate n.location) := by
  cases n
  case call callee _ _ => cases callee <;> rfl
  all_goals rfl

end Expr

def EvalError.Own (limit : Int) (top : Nat) : EvalError → Prop
  | .tooDeep n => n = limit ∧ limit < top
  | .notCallable _ | .unknownNode _ | .raised _ | .raisedByFunction .. => False
  | _ => True

def Fault.Own (N : List Expr) (limit : Int) (top : Nat) (fault : Fault) : Prop :=
  ∃ n ∈ N, ∃ error : EvalError, error.Own limit top ∧
    fault = .diagnostic (error.toDiagnostic n.location)

section

variable {error : EvalError} {limit : Int} {top : Nat}

theorem Value.own_of_applyArithmetic (h : applyArithmetic op x y = .error error) :
    error.Own limit top := by
  unfold applyArithmetic at h
  split at h
  · cases h
  · split at h <;> cases h
    trivial
  · cases h
    trivial

theorem Value.own_of_applyBinary (h : applyBinary op x y = .error error) :
    error.Own limit top := by
  cases op with
  | arithmetic op => exact own_of_applyArithmetic h
  | comparison op => cases x <;> cases y <;> cases h <;> trivial
  | logic op => cases x <;> cases y <;> cases h <;> trivial

theorem Value.own_of_ofNumeral (h : ofNumeral text = .error error) : error.Own limit top := by
  unfold ofNumeral at h
  split at h <;> cases h
  trivial

theorem Value.own_of_applyUnary (h : applyUnary op x = .error error) : error.Own limit top := by
  unfold applyUnary at h
  split at h
  case h_7 => exact own_of_ofNumeral h
  all_goals cases h
  all_goals trivial

theorem Value.own_of_choose (h : choose test accept reject = .error error) :
    error.Own limit top := by
  unfold choose at h
  split at h
  · split at h <;> cases h
    trivial
  · cases h
    trivial

end

inductive Context.Served (context : Context) :
    List Expr → List Request → List Request → Prop
  | refl {earlier : List Request} : Served context [] earlier earlier
  | step {n : Expr} {r : Request} {v : Value} {ns : List Expr} {earlier later : List Request}
      (ha : n.Asks r) (hv : context.answer earlier r = .ok v)
      (h : Served context ns (r :: earlier) later) : Served context (n :: ns) earlier later

namespace Context.Served

variable {context : Context} {earlier later last : List Request}

theorem append (h : context.Served ns earlier later) (h' : context.Served ms later last) :
    context.Served (ns ++ ms) earlier last := by
  induction h with
  | refl => exact h'
  | step ha hv _ ih => exact .step ha hv (ih h')

theorem requests (h : context.Served ns earlier later) :
    ∃ rs, later = rs.reverse ++ earlier ∧ List.Forall₂ Expr.Asks ns rs := by
  induction h with
  | refl => exact ⟨[], rfl, .nil⟩
  | @step n r v ns earlier later ha hv h ih =>
    obtain ⟨rs, rfl, hrs⟩ := ih
    exact ⟨r :: rs, by simp, .cons ha hrs⟩

theorem last_ok (h : context.Served ns earlier (r :: later)) :
    r :: later = earlier ∨ ∃ v, context.answer later r = .ok v := by
  generalize he : r :: later = last at h
  induction h with
  | refl => exact .inl rfl
  | @step n r' v ns earlier last ha hv h ih =>
    obtain rfl | h := ih he
    · cases he
      exact .inr ⟨v, hv⟩
    · exact .inr h

end Context.Served

namespace Eval

inductive Ends (context : Context) (own : Fault → Prop) (ns : List Expr)
    (earlier : List Request) : EStateM.Result Fault (List Request) α → Prop
  | value {a : α} {later : List Request} (h : context.Served ns earlier later) :
      Ends context own ns earlier (.ok a later)
  | refused {before : List Expr} {n : Expr} {r : Request} {fault : Fault} {later : List Request}
      (h : context.Served before earlier later) (hn : before ++ [n] <+: ns) (ha : n.Asks r)
      (hr : context.answer later r = .error fault) :
      Ends context own ns earlier (.error (n.passOn fault) (r :: later))
  | failed {before : List Expr} {fault : Fault} {later : List Request}
      (h : context.Served before earlier later) (hn : before <+: ns) (hf : own fault) :
      Ends context own ns earlier (.error fault later)

def Asking (context : Context) (own : Fault → Prop) (ns : List Expr) (x : Eval α) : Prop :=
  ∀ earlier, Ends context own ns earlier (x earlier)

variable {context : Context} {own : Fault → Prop} {ns ms : List Expr}

theorem request_apply (context : Context) (r : Request) (earlier : List Request) :
    request context r earlier =
      match context.answer earlier r with
      | .ok v => .ok v (r :: earlier)
      | .error fault => .error fault (r :: earlier) := by
  change (match context.answer earlier r with
    | .ok v => Pure.pure v
    | .error fault => throw fault : Eval Value) (r :: earlier) = _
  cases context.answer earlier r <;> rfl

theorem locating_apply (l : Location) (x : Eval α) (earlier : List Request) :
    locating l x earlier =
      match x earlier with
      | .ok a later => .ok a later
      | .error fault later => .error (fault.locate l) later := by
  simp only [locating, tryCatch, tryCatchThe, MonadExceptOf.tryCatch, EStateM.tryCatch]
  cases x earlier <;> rfl

theorem reportingCall_apply (name : String) (m l : Location) (args : List Expr) (x : Eval α)
    (earlier : List Request) :
    reportingCall name l x earlier =
      match x earlier with
      | .ok a later => .ok a later
      | .error fault later =>
        .error ((Expr.call (.identifier name m) args l).passOn fault) later := by
  simp only [reportingCall, tryCatch, tryCatchThe, MonadExceptOf.tryCatch, EStateM.tryCatch]
  rcases x earlier with _ | ⟨_ | _, _⟩ <;> rfl

namespace Asking

theorem pure (a : α) : Asking context own [] (Pure.pure a : Eval α) := fun _ => .value .refl

theorem throw_bind (hf : own fault) (f : α → Eval β) : Asking context own ns (throw fault >>= f) :=
  fun _ => .failed .refl List.nil_prefix hf

theorem bind {x : Eval α} {f : α → Eval β} (hx : Asking context own ns x)
    (hf : ∀ a, Asking context own ms (f a)) : Asking context own (ns ++ ms) (x >>= f) := by
  intro earlier
  have hx := hx earlier
  simp only [Bind.bind, EStateM.bind]
  generalize x earlier = r at hx ⊢
  cases hx with
  | @value a later h =>
    have hf := hf a later
    simp only
    generalize f a later = r' at hf ⊢
    cases hf with
    | value h' => exact .value (h.append h')
    | refused h' hn ha hr =>
      refine .refused (h.append h') ?_ ha hr
      rw [List.append_assoc]
      exact (List.prefix_append_right_inj ns).2 hn
    | failed h' hn hf => exact .failed (h.append h') ((List.prefix_append_right_inj ns).2 hn) hf
  | refused h hn ha hr => exact .refused h (hn.trans (List.prefix_append ns ms)) ha hr
  | failed h hn hf => exact .failed h (hn.trans (List.prefix_append ns ms)) hf

theorem bind_nil {x : Eval α} {f : α → Eval β} (hx : Asking context own ns x)
    (hf : ∀ a, Asking context own [] (f a)) : Asking context own ns (x >>= f) := by
  have := hx.bind hf
  rwa [List.append_nil] at this

theorem ofExcept {x : Except EvalError α} {l : Location}
    (h : ∀ e, x = .error e → own (.diagnostic (e.toDiagnostic l))) :
    Asking context own [] (Eval.ofExcept l x) := by
  intro earlier
  cases x with
  | ok a => exact .value .refl
  | error e => exact .failed .refl (List.prefix_refl []) (h e rfl)

theorem identifier (name : String) (l : Location) :
    Asking context own [.identifier name l]
      (Eval.locating l (Eval.request context (.resolve name))) := by
  intro earlier
  rw [locating_apply, request_apply]
  cases hr : context.answer earlier (.resolve name) with
  | ok v => exact .value (.step .name hr .refl)
  | error fault => exact .refused .refl (List.prefix_refl _) .name hr

theorem call (name : String) (m : Location) (args : List Expr) (l : Location) (vs : List Value) :
    Asking context own [.call (.identifier name m) args l]
      (Eval.reportingCall name l (Eval.request context (.invoke name vs))) := by
  intro earlier
  rw [reportingCall_apply name m l args, request_apply]
  cases hr : context.answer earlier (.invoke name vs) with
  | ok v => exact .value (.step .call hr .refl)
  | error fault => exact .refused .refl (List.prefix_refl _) .call hr

variable {N : List Expr} {limit : Int} {top : Nat}

theorem guarded {depth : Nat} (hn : n ∈ N) (hd : depth ≤ top) {x : Eval α} {f : PUnit → Eval α}
    (hx : Asking context (Fault.Own N limit top) ns x) :
    Asking context (Fault.Own N limit top) ns
      (if limit < depth then
        throw (.diagnostic ((EvalError.tooDeep limit).toDiagnostic n.location)) >>= f
      else x) := by
  split
  case isTrue h => exact .throw_bind ⟨n, hn, .tooDeep limit, ⟨rfl, by omega⟩, rfl⟩ f
  case isFalse => exact hx

theorem operation (hn : n ∈ N) {x : Except EvalError α}
    (h : ∀ e, x = .error e → e.Own limit top) :
    Asking context (Fault.Own N limit top) [] (Eval.ofExcept n.location x) :=
  .ofExcept fun e he => ⟨n, hn, e, h e he, rfl⟩

theorem raise {bases : List (Value × Location)} (exponent : Value)
    (h : ∀ b ∈ bases, ∃ n ∈ N, n.location = b.2) :
    Asking context (Fault.Own N limit top) [] (Eval.raise bases exponent) := by
  induction bases with
  | nil => exact .pure exponent
  | cons b bases ih =>
    obtain ⟨base, l⟩ := b
    obtain ⟨⟨n, hn, rfl⟩, hs⟩ := List.forall_mem_cons.1 h
    rw [Eval.raise_cons]
    exact (ih hs).bind_nil fun v => operation hn fun e => Value.own_of_applyArithmetic

end Asking

end Eval

namespace Expr

open Eval (Asking)

variable {context : Context} {limit : Int} {N : List Expr} {top : Nat}

theorem exists_location_of_base {bases : List (Expr × Location)}
    (h : ∀ s ∈ bases, Base N s.1 s.2) (vs : List Value) :
    ∀ b ∈ vs.zip (bases.map Prod.snd), ∃ n ∈ N, n.location = b.2 := by
  rintro ⟨v, l⟩ hb
  obtain ⟨⟨base, l⟩, hs, rfl⟩ := List.mem_map.1 (List.of_mem_zip hb).2
  obtain ⟨⟨right, hn⟩, -⟩ := h _ hs
  exact ⟨_, hn, rfl⟩

/-- Evaluation asks the context for the askers of an expression, one after the other. The induction
is along the runs that the evaluator takes. -/
theorem evalAt_asks (hN : ∀ n ∈ N, n.Regular) :
    (∀ (e : Expr) (depth : Nat), e.nodes ⊆ N → depth + e.levels ≤ top →
      Asking context (Fault.Own N limit top) e.askers (e.evalAt context limit depth)) ∧
    (∀ (around : List (BinaryOp × Expr × Location)) (depth : Nat) (v : Value),
      (∀ s ∈ around, Around N s.1 s.2.1 s.2.2) → depth + levelsAround around ≤ top →
        Asking context (Fault.Own N limit top) (askersAround around)
          (evalAroundAt context limit (depth + 1) v around)) ∧
    (∀ (es : List Expr) (depth : Nat), (∀ e ∈ es, e.nodes ⊆ N) → depth + levelsAll es ≤ top →
      Asking context (Fault.Own N limit top) (askersAll es)
        (evalAllAt context limit (depth + 1) es)) := by
  apply runs_induction
  case unary =>
    intro op operand l ih depth hn h
    have hm := hn (mem_nodes _)
    simp only [nodes, List.cons_subset] at hn
    simp only [levels] at h
    rw [evalAt]
    refine .guarded hm (by omega) ((ih (depth + 1) hn.2 (by omega)).bind_nil fun v => ?_)
    exact .operation hm fun e => Value.own_of_applyUnary
  case power =>
    intro left right l ihb ihe depth hn h
    have hm := hn (mem_nodes _)
    simp only [nodes, List.cons_subset, List.append_subset] at hn
    obtain ⟨hb, hx⟩ := nodes_powerRun right hn.2.2
    simp only [levels] at h
    have hs : ∀ s ∈ (left, l) :: right.powerRun.1, Base N s.1 s.2 :=
      List.forall_mem_cons.2 ⟨⟨⟨right, hm⟩, hn.2.1⟩, hb⟩
    have ha : (binary (.arithmetic .power) left right l).askers =
        askersAll (left :: right.powerRun.1.map Prod.fst) ++ right.powerRun.2.askers := by
      rw [askers, askersAll, List.append_assoc, askers_powerRun]
    rw [evalAt, ha]
    refine .guarded hm (by omega) ((ihb depth ?_ (by omega)).bind fun vs => ?_)
    · exact List.forall_mem_cons.2 ⟨hn.2.1, List.forall_mem_map.2 fun s h => (hb s h).nodes⟩
    · refine (ihe (depth + 1) hx (by omega)).bind_nil fun v => .raise v ?_
      exact exists_location_of_base hs vs
  case binary =>
    intro op left right l hop ihf iha depth hn h
    have hm := hn (mem_nodes _)
    simp only [nodes, List.cons_subset, List.append_subset] at hn
    obtain ⟨hf, hs⟩ := nodes_leftRun [(op, right, l)] left hn.2.1
      (List.forall_mem_singleton.2 ⟨⟨left, hm⟩, hn.2.2⟩)
    rw [levels_binary hop] at h
    have ha : (binary op left right l).askers = (left.leftRun [(op, right, l)]).1.askers ++
        askersAround (left.leftRun [(op, right, l)]).2 := by
      rw [askers_leftRun]
      simp only [askers, askersAround, List.append_nil]
    rw [evalAt, ha]
    · refine .guarded hm (by omega) ((ihf (depth + 1) hf (by omega)).bind fun v => ?_)
      exact iha depth v hs (by omega)
    · exact hop
  case conditional =>
    intro test accept reject l iht iha ihr depth hn h
    have hm := hn (mem_nodes _)
    simp only [nodes, List.cons_subset, List.append_subset] at hn
    simp only [levels] at h
    rw [evalAt, askers]
    refine .guarded hm (by omega) ((iht (depth + 1) hn.2.1 (by omega)).bind fun t => ?_)
    refine (iha (depth + 1) hn.2.2.1 (by omega)).bind fun a => ?_
    refine (ihr (depth + 1) hn.2.2.2 (by omega)).bind_nil fun r => ?_
    exact .operation hm fun e => Value.own_of_choose
  case call =>
    intro callee args l ih depth hn h
    have hm := hn (mem_nodes _)
    obtain ⟨name, m, rfl⟩ := hN _ hm
    simp only [nodes, List.cons_subset, List.append_subset] at hn
    simp only [levels] at h
    have hs : ∀ e ∈ args, e.nodes ⊆ N := fun e he =>
      List.Subset.trans (nodes_subset_nodesAll he) hn.2.2
    rw [evalAt, askers]
    exact .guarded hm (by omega) ((ih depth hs h).bind fun vs => .call name m args l vs)
  case number =>
    intro text l depth hn h
    rw [evalAt]
    exact .guarded (hn (mem_nodes _)) (by omega)
      (.operation (hn (mem_nodes _)) fun e => Value.own_of_ofNumeral)
  case string | boolean =>
    intro _ _ depth hn h
    rw [evalAt]
    exact .guarded (hn (mem_nodes _)) (by omega) (.pure _)
  case identifier =>
    intro name l depth hn h
    rw [evalAt]
    exact .guarded (hn (mem_nodes _)) (by omega) (.identifier name l)
  case extension => intro name l depth hn h; exact (hN _ (hn (mem_nodes _))).elim
  case around_nil => intro depth v _ _; rw [evalAroundAt]; exact .pure v
  case around_cons =>
    intro op right l around ih iha depth v hn h
    obtain ⟨⟨⟨left, hm⟩, hr⟩, hs⟩ := List.forall_mem_cons.1 hn
    simp only [levelsAround] at h
    rw [evalAroundAt, askersAround]
    refine (ih (depth + 1) hr (by omega)).bind fun y => ?_
    rw [← List.nil_append (askersAround around)]
    refine Asking.bind ?_ fun v => iha depth v hs (by omega)
    exact .operation (n := .binary op left right l) hm fun e => Value.own_of_applyBinary
  case all_nil => intro depth _ _; rw [evalAllAt]; exact .pure []
  case all_cons =>
    intro e es ih ihs depth hn h
    obtain ⟨he, hs⟩ := List.forall_mem_cons.1 hn
    simp only [levelsAll] at h
    rw [evalAllAt, askersAll]
    refine (ih (depth + 1) he (by omega)).bind fun v => ?_
    exact (ihs depth hs (by omega)).bind_nil fun vs => .pure _

end Expr

end Formulae
