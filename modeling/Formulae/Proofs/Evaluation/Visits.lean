import Formulae.Evaluation
import Formulae.Proofs.Nodes
import Formulae.Proofs.Sequences

namespace Formulae

namespace Expr

def operands : Expr → List Expr
  | .unary _ operand _ => [operand]
  | .binary (.arithmetic .power) left right _ =>
    left :: right.powerRun.1.map Prod.fst ++ [right.powerRun.2]
  | .conditional test accept reject _ => [test, accept, reject]
  | .call (.identifier ..) args _ => args
  | _ => []

/-- Evaluation of a node at this depth comes to an operand. In a run that leans to the left the
operations in front of the operand are applied before. -/
inductive Enters (context : Context) (limit : Int) (depth : Nat) :
    Expr → List Request → Expr → List Request → Prop
  | operand {e n : Expr} {before after : List Expr} {vs : List Value}
      {earlier later : List Request} (hn : e.operands = before ++ n :: after)
      (hv : evalAllAt context limit (depth + 1) before earlier = .ok vs later) :
      Enters context limit depth e earlier n later
  | innermost {op : BinaryOp} {left right : Expr} {l : Location} {earlier : List Request}
      (hop : op ≠ .arithmetic .power) :
      Enters context limit depth (.binary op left right l) earlier
        (left.leftRun [(op, right, l)]).1 earlier
  | around {op op' : BinaryOp} {left right n : Expr} {l l' : Location}
      {before after : List (BinaryOp × Expr × Location)} {v w : Value}
      {earlier middle later : List Request} (hop : op ≠ .arithmetic .power)
      (hn : (left.leftRun [(op, right, l)]).2 = before ++ (op', n, l') :: after)
      (hv : (left.leftRun [(op, right, l)]).1.evalAt context limit (depth + 1) earlier =
        .ok v middle)
      (hw : evalAroundAt context limit (depth + 1) v before middle = .ok w later) :
      Enters context limit depth (.binary op left right l) earlier n later

inductive Visits (context : Context) (limit : Int) :
    Expr → Nat → List Request → Expr → Nat → List Request → Prop
  | refl : Visits context limit e depth earlier e depth earlier
  | step {e n m : Expr} {depth d : Nat} {earlier middle later : List Request}
      (hd : depth ≤ limit) (hn : Enters context limit depth e earlier n middle)
      (hm : Visits context limit n (depth + 1) middle m d later) :
      Visits context limit e depth earlier m d later

/-- Under a limit a node comes to a value: its own, or the value so far in the middle of a run. -/
inductive Produces (context : Context) (limit : Int) : Expr → Value → Prop
  | own {e : Expr} {depth : Nat} {v : Value} {earlier later : List Request}
      (hv : e.evalAt context limit depth earlier = .ok v later) : Produces context limit e v
  | soFar {op : BinaryOp} {left right : Expr} {l : Location} {depth : Nat}
      {before after : List (BinaryOp × Expr × Location)} {v w : Value}
      {earlier middle later : List Request} (hop : op ≠ .arithmetic .power)
      (hr : (left.leftRun [(op, right, l)]).2 = before ++ after)
      (hv : (left.leftRun [(op, right, l)]).1.evalAt context limit depth earlier = .ok v middle)
      (hw : evalAroundAt context limit depth v before middle = .ok w later) :
      Produces context limit (.binary op left right l) w
  | raised {left right : Expr} {l : Location} {depth : Nat} {bases : List (Value × Location)}
      {v w : Value} {earlier middle later : List Request}
      (hv : right.powerRun.2.evalAt context limit depth earlier = .ok v middle)
      (hw : Eval.raise bases v middle = .ok w later) :
      Produces context limit (.binary (.arithmetic .power) left right l) w

section

variable {context : Context} {limit : Int} {depth : Nat} {fault : Fault}
  {earlier middle later : List Request}

theorem evalAllAt_append (es fs : List Expr) :
    evalAllAt context limit depth (es ++ fs) = (do
      let vs ← evalAllAt context limit depth es
      let ws ← evalAllAt context limit depth fs
      pure (vs ++ ws)) := by
  induction es with
  | nil => simp only [List.nil_append, evalAllAt, pure_bind, bind_pure]
  | cons e es ih => simp only [List.cons_append, evalAllAt, ih, bind_assoc, pure_bind]

theorem evalAllAt_error {before : List Expr} {n : Expr} {vs : List Value}
    (hv : evalAllAt context limit depth before earlier = .ok vs middle)
    (hn : n.evalAt context limit depth middle = .error fault later) (after : List Expr) :
    evalAllAt context limit depth (before ++ n :: after) earlier = .error fault later := by
  rw [evalAllAt_append, bind_ok hv, evalAllAt]
  exact bind_error (bind_error hn)

theorem evalAroundAt_error {before : List (BinaryOp × Expr × Location)} {n : Expr} {v w : Value}
    (hw : evalAroundAt context limit depth v before earlier = .ok w middle)
    (hn : n.evalAt context limit depth middle = .error fault later) (op : BinaryOp) (l : Location)
    (after : List (BinaryOp × Expr × Location)) :
    evalAroundAt context limit depth v (before ++ (op, n, l) :: after) earlier =
      .error fault later := by
  induction before generalizing v earlier with
  | nil =>
    rw [evalAroundAt] at hw
    cases hw
    rw [List.nil_append, evalAroundAt]
    exact bind_error hn
  | cons s before ih =>
    obtain ⟨op', right, l'⟩ := s
    rw [evalAroundAt] at hw
    obtain ⟨x, _, hr, hw⟩ := eq_ok_of_bind hw
    obtain ⟨y, _, ha, hw⟩ := eq_ok_of_bind hw
    rw [List.cons_append, evalAroundAt, bind_ok hr, bind_ok ha]
    exact ih hw

theorem evalAllAt_nil : evalAllAt context limit depth [] earlier = .ok [] earlier := by
  rw [evalAllAt]
  rfl

theorem evalAllAt_cons {e : Expr} {es : List Expr} {v : Value} {vs : List Value}
    (hv : e.evalAt context limit depth earlier = .ok v middle)
    (hvs : evalAllAt context limit depth es middle = .ok vs later) :
    evalAllAt context limit depth (e :: es) earlier = .ok (v :: vs) later := by
  rw [evalAllAt, bind_ok hv, bind_ok hvs]
  rfl

theorem Enters.first {e n : Expr} {after : List Expr} (hn : e.operands = n :: after) :
    Enters context limit depth e earlier n earlier :=
  .operand hn evalAllAt_nil

theorem exists_of_evalAllAt_error {es : List Expr}
    (h : evalAllAt context limit depth es earlier = .error fault later) :
    ∃ before n after vs middle, es = before ++ n :: after ∧
      evalAllAt context limit depth before earlier = .ok vs middle ∧
      n.evalAt context limit depth middle = .error fault later := by
  induction es generalizing earlier with
  | nil =>
    rw [evalAllAt] at h
    cases h
  | cons e es ih =>
    rw [evalAllAt] at h
    obtain h | ⟨v, middle, hv, h⟩ := eq_error_of_bind h
    · exact ⟨[], e, es, [], earlier, rfl, evalAllAt_nil, h⟩
    · obtain h | ⟨vs, _, -, h⟩ := eq_error_of_bind h
      · obtain ⟨before, n, after, vs, last, rfl, hb, hn⟩ := ih h
        exact ⟨e :: before, n, after, v :: vs, last, rfl, evalAllAt_cons hv hb, hn⟩
      · cases h

theorem evalAroundAt_nil {v : Value} :
    evalAroundAt context limit depth v [] earlier = .ok v earlier := by
  rw [evalAroundAt]
  rfl

theorem exists_of_evalAroundAt_error {around : List (BinaryOp × Expr × Location)} {v : Value}
    (h : evalAroundAt context limit depth v around earlier = .error fault later) :
    (∃ before op n l after w middle, around = before ++ (op, n, l) :: after ∧
      evalAroundAt context limit depth v before earlier = .ok w middle ∧
      n.evalAt context limit depth middle = .error fault later) ∨
    ∃ op x y l error, Value.applyBinary op x y = .error error ∧
      fault = .diagnostic (error.toDiagnostic l) := by
  induction around generalizing v earlier with
  | nil =>
    rw [evalAroundAt] at h
    cases h
  | cons s around ih =>
    obtain ⟨op, right, l⟩ := s
    rw [evalAroundAt] at h
    obtain h | ⟨x, middle, hx, h⟩ := eq_error_of_bind h
    · exact .inl ⟨[], op, right, l, around, v, earlier, rfl, evalAroundAt_nil, h⟩
    · cases ha : Value.applyBinary op v x with
      | error error =>
        rw [ha] at h
        cases h
        exact .inr ⟨op, v, x, l, error, ha, rfl⟩
      | ok w =>
        rw [ha] at h
        obtain ⟨before, op', n, l', after, y, last, rfl, hb, hn⟩ | herror := ih h
        · refine .inl ⟨(op, right, l) :: before, op', n, l', after, y, last, rfl, ?_, hn⟩
          rw [evalAroundAt, bind_ok hx, ha]
          exact hb
        · exact .inr herror

theorem exists_evalAt_eq {e : Expr} (hd : depth ≤ limit) (he : e.operands ≠ []) :
    ∃ k, e.evalAt context limit depth =
      evalAllAt context limit (depth + 1) e.operands >>= k := by
  have hd : ¬ limit < depth := Int.not_lt.2 hd
  unfold operands at he ⊢
  split at he
  case h_1 op operand l =>
    refine ⟨fun vs => Eval.ofExcept l (Value.applyUnary op (vs.headD (.boolean false))), ?_⟩
    rw [evalAt, if_neg hd]
    simp only [evalAllAt, bind_assoc, pure_bind, List.headD_cons]
  case h_2 left right l =>
    refine ⟨fun vs => Eval.raise (vs.dropLast.zip (l :: right.powerRun.1.map Prod.snd))
      (vs.getLastD (.boolean false)), ?_⟩
    rw [evalAt, if_neg hd, evalAllAt_append]
    simp only [evalAllAt, bind_assoc, pure_bind, List.dropLast_concat, List.getLastD_concat]
  case h_3 test accept reject l =>
    refine ⟨fun vs => Eval.ofExcept l (Value.choose (vs.getD 0 (.boolean false))
      (vs.getD 1 (.boolean false)) (vs.getD 2 (.boolean false))), ?_⟩
    rw [evalAt, if_neg hd]
    simp only [evalAllAt, bind_assoc, pure_bind, List.getD_cons_zero, List.getD_cons_succ]
  case h_4 =>
    rw [evalAt, if_neg hd]
    exact ⟨_, rfl⟩
  case h_5 => exact absurd rfl he

theorem le_of_evalAt {e : Expr} {v : Value}
    (h : e.evalAt context limit depth earlier = .ok v later) : depth ≤ limit := by
  refine Int.not_lt.1 fun hd => ?_
  unfold evalAt at h
  rw [if_pos hd] at h
  cases h

theorem Enters.error {e n : Expr} (hd : depth ≤ limit)
    (hn : Enters context limit depth e earlier n middle)
    (h : n.evalAt context limit (depth + 1) middle = .error fault later) :
    e.evalAt context limit depth earlier = .error fault later := by
  cases hn with
  | @operand _ _ before after vs _ _ hn hv =>
    obtain ⟨k, hk⟩ : ∃ k, e.evalAt context limit depth = _ >>= k :=
      exists_evalAt_eq hd (by rw [hn]; exact List.append_ne_nil_of_right_ne_nil _ nofun)
    rw [hk, hn]
    exact bind_error (evalAllAt_error hv h after)
  | innermost hop =>
    rw [evalAt, if_neg (Int.not_lt.2 hd)]
    · exact bind_error h
    · exact hop
  | @around op op' left right n l l' before after v w _ _ _ hop hn hv hw =>
    rw [evalAt, if_neg (Int.not_lt.2 hd)]
    · refine (bind_ok hv).trans ?_
      rw [hn]
      exact evalAroundAt_error hw h op' l' after
    · exact hop

theorem Visits.error {e n : Expr} {d : Nat} (hn : Visits context limit e depth earlier n d middle)
    (h : n.evalAt context limit d middle = .error fault later) :
    e.evalAt context limit depth earlier = .error fault later := by
  induction hn with
  | refl => exact h
  | step hd hn _ ih => exact hn.error hd (ih h)

theorem operands_subset {e n : Expr} (hn : n ∈ e.operands) : n.nodes ⊆ e.nodes := by
  unfold operands at hn
  split at hn
  case h_1 op operand l =>
    cases List.mem_singleton.1 hn
    rw [nodes]
    exact List.subset_cons_self _ _
  case h_2 left right l =>
    have he : right.nodes ⊆ (binary (.arithmetic .power) left right l).nodes := by
      rw [nodes]
      exact List.subset_cons_of_subset _ (List.subset_append_right _ _)
    obtain ⟨hb, hx⟩ := nodes_powerRun right he
    rcases List.mem_append.1 hn with hn | hn
    · rcases List.mem_cons.1 hn with rfl | hn
      · rw [nodes]
        exact List.subset_cons_of_subset _ (List.subset_append_left _ _)
      · obtain ⟨s, hs, rfl⟩ := List.mem_map.1 hn
        exact (hb s hs).nodes
    · cases List.mem_singleton.1 hn
      exact hx
  case h_3 test accept reject l =>
    rw [nodes]
    refine List.subset_cons_of_subset _ ?_
    simp only [List.mem_cons, List.not_mem_nil, or_false] at hn
    rcases hn with rfl | rfl | rfl <;> simp
  case h_4 args l =>
    rw [nodes]
    exact List.subset_cons_of_subset _
      (List.Subset.trans (nodes_subset_nodesAll hn) (List.subset_append_right _ _))
  case h_5 => cases hn

theorem leftRun_subset (op : BinaryOp) (left right : Expr) (l : Location) :
    (left.leftRun [(op, right, l)]).1.nodes ⊆ (binary op left right l).nodes ∧
      ∀ s ∈ (left.leftRun [(op, right, l)]).2, s.2.1.nodes ⊆ (binary op left right l).nodes := by
  have hn : binary op left right l ∈ (binary op left right l).nodes := mem_nodes _
  have hl : left.nodes ⊆ (binary op left right l).nodes := by
    rw [nodes]
    exact List.subset_cons_of_subset _ (List.subset_append_left _ _)
  have hr : right.nodes ⊆ (binary op left right l).nodes := by
    rw [nodes]
    exact List.subset_cons_of_subset _ (List.subset_append_right _ _)
  obtain ⟨hi, ha⟩ :=
    nodes_leftRun [(op, right, l)] left hl (List.forall_mem_singleton.2 ⟨⟨left, hn⟩, hr⟩)
  exact ⟨hi, fun s hs => (ha s hs).nodes⟩

theorem Enters.nodes_subset {e n : Expr} (hn : Enters context limit depth e earlier n later) :
    n.nodes ⊆ e.nodes := by
  cases hn with
  | operand hn =>
    exact operands_subset (by rw [hn]; exact List.mem_append_right _ List.mem_cons_self)
  | @innermost op left right l => exact (leftRun_subset op left right l).1
  | @around op _ left right _ l _ _ _ _ _ _ _ _ _ hn =>
    have h := (leftRun_subset op left right l).2
    rw [hn] at h
    exact h _ (List.mem_append_right _ List.mem_cons_self)

theorem Visits.mem_nodes {e n : Expr} {d : Nat}
    (hn : Visits context limit e depth earlier n d later) : n ∈ e.nodes := by
  induction hn with
  | refl => exact Expr.mem_nodes _
  | step _ hn _ ih => exact hn.nodes_subset ih

end

end Expr

end Formulae
