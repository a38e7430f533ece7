import Formulae.Runs

namespace Formulae

namespace Expr

mutual

def nodes : Expr → List Expr
  | .unary op operand l => .unary op operand l :: operand.nodes
  | .binary op left right l => .binary op left right l :: (left.nodes ++ right.nodes)
  | .conditional test accept reject l =>
    .conditional test accept reject l :: (test.nodes ++ (accept.nodes ++ reject.nodes))
  | .call callee args l => .call callee args l :: (callee.nodes ++ nodesAll args)
  | e => [e]

def nodesAll : List Expr → List Expr
  | [] => []
  | e :: es => e.nodes ++ nodesAll es

end

def Regular : Expr → Prop
  | .call callee _ _ => ∃ name l, callee = .identifier name l
  | .extension .. => False
  | _ => True

theorem mem_nodes (e : Expr) : e ∈ e.nodes := by
  cases e <;> simp [nodes]

theorem nodes_subset_nodesAll {es : List Expr} (h : e ∈ es) : e.nodes ⊆ nodesAll es := by
  induction es with
  | nil => cases h
  | cons f es ih =>
    rw [nodesAll]
    rcases List.mem_cons.1 h with rfl | h
    · exact List.subset_append_left _ _
    · exact List.Subset.trans (ih h) (List.subset_append_right _ _)

mutual

theorem nodes_subset_nodes : (e : Expr) → n ∈ e.nodes → n.nodes ⊆ e.nodes
  | .number .., h | .string .., h | .boolean .., h | .identifier .., h | .extension .., h => by
    cases List.mem_singleton.1 h
    exact List.Subset.refl _
  | .unary op operand l, h => by
    rcases List.mem_cons.1 h with rfl | h
    · exact List.Subset.refl _
    · exact List.subset_cons_of_subset _ (nodes_subset_nodes operand h)
  | .binary op left right l, h => by
    rcases List.mem_cons.1 h with rfl | h
    · exact List.Subset.refl _
    · refine List.subset_cons_of_subset _ ?_
      rcases List.mem_append.1 h with h | h
      · exact List.subset_append_of_subset_left _ (nodes_subset_nodes left h)
      · exact List.subset_append_of_subset_right _ (nodes_subset_nodes right h)
  | .conditional test accept reject l, h => by
    rcases List.mem_cons.1 h with rfl | h
    · exact List.Subset.refl _
    · refine List.subset_cons_of_subset _ ?_
      rcases List.mem_append.1 h with h | h
      · exact List.subset_append_of_subset_left _ (nodes_subset_nodes test h)
      · refine List.subset_append_of_subset_right _ ?_
        rcases List.mem_append.1 h with h | h
        · exact List.subset_append_of_subset_left _ (nodes_subset_nodes accept h)
        · exact List.subset_append_of_subset_right _ (nodes_subset_nodes reject h)
  | .call callee args l, h => by
    rcases List.mem_cons.1 h with rfl | h
    · exact List.Subset.refl _
    · refine List.subset_cons_of_subset _ ?_
      rcases List.mem_append.1 h with h | h
      · exact List.subset_append_of_subset_left _ (nodes_subset_nodes callee h)
      · exact List.subset_append_of_subset_right _ (nodesAll_subset_nodes args h)

theorem nodesAll_subset_nodes : (es : List Expr) → n ∈ nodesAll es → n.nodes ⊆ nodesAll es
  | [], h => by cases h
  | e :: es, h => by
    rcases List.mem_append.1 h with h | h
    · exact List.subset_append_of_subset_left _ (nodes_subset_nodes e h)
    · exact List.subset_append_of_subset_right _ (nodesAll_subset_nodes es h)

end

structure Around (N : List Expr) (op : BinaryOp) (right : Expr) (l : Location) : Prop where
  node : ∃ left, .binary op left right l ∈ N
  nodes : right.nodes ⊆ N

theorem nodes_leftRun {N : List Expr} (around : List (BinaryOp × Expr × Location)) (e : Expr)
    (he : e.nodes ⊆ N) (ha : ∀ s ∈ around, Around N s.1 s.2.1 s.2.2) :
    (e.leftRun around).1.nodes ⊆ N ∧ ∀ s ∈ (e.leftRun around).2, Around N s.1 s.2.1 s.2.2 := by
  fun_induction leftRun around e with
  | case1 around op left right l ih =>
    simp only [nodes, List.cons_subset, List.append_subset] at he
    exact ih he.2.1 (List.forall_mem_cons.2 ⟨⟨⟨left, he.1⟩, he.2.2⟩, ha⟩)
  | case2 around e _ => exact ⟨he, ha⟩

structure Base (N : List Expr) (base : Expr) (l : Location) : Prop where
  node : ∃ right, .binary (.arithmetic .power) base right l ∈ N
  nodes : base.nodes ⊆ N

theorem nodes_powerRun {N : List Expr} (e : Expr) (he : e.nodes ⊆ N) :
    (∀ s ∈ e.powerRun.1, Base N s.1 s.2) ∧ e.powerRun.2.nodes ⊆ N := by
  fun_induction powerRun e with
  | case1 left right l bases exponent h ih =>
    simp only [nodes, List.cons_subset, List.append_subset] at he
    rw [h] at ih
    obtain ⟨hb, hx⟩ := ih he.2.2
    exact ⟨List.forall_mem_cons.2 ⟨⟨⟨right, he.1⟩, he.2.1⟩, hb⟩, hx⟩
  | case2 e _ => exact ⟨by simp, he⟩

end Expr

end Formulae
