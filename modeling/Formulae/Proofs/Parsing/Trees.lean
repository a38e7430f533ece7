import Formulae.Proofs.Nodes
import Formulae.Proofs.Parsing.Acceptance

namespace Formulae

namespace Expr

def Spelled (tokens : List Token) : Expr → Prop
  | .number text _ => ∃ t ∈ tokens, t.kind = .number ∧ t.lexeme = text
  | .string text _ => ∃ t ∈ tokens, t.kind = .string ∧ t.lexeme = text
  | .identifier name _ => ∃ t ∈ tokens, t.kind = .identifier ∧ t.lexeme = name
  | _ => True

structure ReadFrom (tokens : List Token) (n : Expr) : Prop where
  regular : n.Regular
  token : ∃ t ∈ tokens, n.location = t.location
  spelled : n.Spelled tokens

inductive BuiltAt (tokens : List Token) : Expr → Prop
  | number (h : t ∈ tokens) (hk : t.kind = .number) :
      BuiltAt tokens (.number t.lexeme t.location)
  | string (h : t ∈ tokens) (hk : t.kind = .string) :
      BuiltAt tokens (.string t.lexeme t.location)
  | boolean (h : t ∈ tokens) : BuiltAt tokens (.boolean value t.location)
  | identifier (h : t ∈ tokens) (hk : t.kind = .identifier) :
      BuiltAt tokens (.identifier t.lexeme t.location)
  | unary (h : t ∈ tokens) (hs : t.kind.spelling = op.symbol) :
      BuiltAt tokens (.unary op operand t.location)
  | binary (h : t ∈ tokens) : BuiltAt tokens (.binary op left right t.location)
  | conditional (h : t ∈ tokens) : BuiltAt tokens (.conditional test accept reject t.location)
  | call (h : t ∈ tokens) (hk : t.kind = .identifier) :
      BuiltAt tokens (.call (.identifier t.lexeme t.location) args t.location)

theorem BuiltAt.readFrom {tokens : List Token} {n : Expr} (h : n.BuiltAt tokens) :
    n.ReadFrom tokens := by
  cases h with
  | number h hk | string h hk | identifier h hk => exact ⟨trivial, ⟨_, h, rfl⟩, _, h, hk, rfl⟩
  | boolean h | unary h | binary h | conditional h => exact ⟨trivial, ⟨_, h, rfl⟩, trivial⟩
  | call h hk => exact ⟨⟨_, _, rfl⟩, ⟨_, h, rfl⟩, trivial⟩

end Expr

namespace Grammar

variable {tokens : List Token}

def Symbol.BuiltAt (tokens : List Token) : (σ : Symbol) → σ.Meaning → Prop
  | .phrase _, e => ∀ n ∈ e.nodes, n.BuiltAt tokens
  | .sections _, more => ∀ s ∈ more, s.2.1 ∈ tokens ∧ ∀ n ∈ s.2.2.nodes, n.BuiltAt tokens
  | .arguments, es => ∀ n ∈ Expr.nodesAll es, n.BuiltAt tokens
  | .moreArguments, es => ∀ n ∈ Expr.nodesAll es, n.BuiltAt tokens

theorem builtAt_binary {left right : Expr} (ht : t ∈ tokens)
    (hl : ∀ n ∈ left.nodes, n.BuiltAt tokens) (hr : ∀ n ∈ right.nodes, n.BuiltAt tokens) :
    ∀ n ∈ (Expr.binary op left right t.location).nodes, n.BuiltAt tokens := by
  rw [Expr.nodes, List.forall_mem_cons, List.forall_mem_append]
  exact ⟨.binary ht, hl, hr⟩

theorem builtAt_nestLeft {first : Expr} {more : List (BinaryOp × Token × Expr)}
    (hf : ∀ n ∈ first.nodes, n.BuiltAt tokens)
    (hm : Symbol.BuiltAt tokens (.sections l) more) :
    ∀ n ∈ (nestLeft first more).nodes, n.BuiltAt tokens := by
  induction more generalizing first with
  | nil => exact hf
  | cons s more ih =>
    obtain ⟨⟨ht, he⟩, hm⟩ := List.forall_mem_cons.1 hm
    exact ih (builtAt_binary ht hf he) hm

theorem builtAt_nestRight {first : Expr} {more : List (BinaryOp × Token × Expr)}
    (hf : ∀ n ∈ first.nodes, n.BuiltAt tokens)
    (hm : Symbol.BuiltAt tokens (.sections l) more) :
    ∀ n ∈ (nestRight first more).nodes, n.BuiltAt tokens := by
  induction more generalizing first with
  | nil => exact hf
  | cons s more ih =>
    obtain ⟨⟨ht, he⟩, hm⟩ := List.forall_mem_cons.1 hm
    exact builtAt_binary ht hf (ih he hm)

theorem builtAt_nest {first : Expr} {more : List (BinaryOp × Token × Expr)} (l : Level)
    (hf : ∀ n ∈ first.nodes, n.BuiltAt tokens)
    (hm : Symbol.BuiltAt tokens (.sections l) more) :
    ∀ n ∈ (l.nest first more).nodes, n.BuiltAt tokens := by
  cases l with
  | power => exact builtAt_nestRight hf hm
  | _ => exact builtAt_nestLeft hf hm

theorem Derivation.builtAt (d : Derivation σ) (h : d.word ⊆ tokens) :
    σ.BuiltAt tokens d.tree := by
  induction d with
  | pass _ inner ih => exact ih h
  | @chain l _ first more ihf ihm =>
    simp only [word, List.append_subset] at h
    exact builtAt_nest l (ihf h.1) (ihm h.2)
  | noSections => exact List.forall_mem_nil _
  | oneMore op operand more iho ihm =>
    simp only [word, List.cons_subset, List.append_subset] at h
    exact List.forall_mem_cons.2 ⟨⟨h.1, iho h.2.1⟩, ihm h.2.2⟩
  | conditional test question accept colon reject iht iha ihr =>
    simp only [word, List.cons_subset, List.append_subset] at h
    refine List.forall_mem_cons.2 ⟨.conditional h.2.1, ?_⟩
    simp only [List.forall_mem_append]
    exact ⟨iht h.1, iha h.2.2.1, ihr h.2.2.2.2⟩
  | relation left op right ihl ihr =>
    simp only [word, List.cons_subset, List.append_subset] at h
    exact builtAt_binary h.2.1 (ihl h.1) (ihr h.2.2)
  | unary op operand ih =>
    simp only [word, List.cons_subset] at h
    exact List.forall_mem_cons.2 ⟨.unary h.1 op.spelling_eq, ih h.2⟩
  | name t => exact List.forall_mem_singleton.2 (.identifier (h List.mem_cons_self) t.kind_eq)
  | number t => exact List.forall_mem_singleton.2 (.number (h List.mem_cons_self) t.kind_eq)
  | string t => exact List.forall_mem_singleton.2 (.string (h List.mem_cons_self) t.kind_eq)
  | wordTrue t | wordFalse t =>
    exact List.forall_mem_singleton.2 (.boolean (h List.mem_cons_self))
  | group opening inner closing ih =>
    simp only [word, List.cons_subset, List.append_subset] at h
    exact ih h.2.1
  | call callee opening args closing ih =>
    simp only [word, List.cons_subset, List.append_subset] at h
    refine List.forall_mem_cons.2 ⟨.call h.1 callee.kind_eq, ?_⟩
    exact List.forall_mem_cons.2 ⟨.identifier h.1 callee.kind_eq, ih h.2.2.1⟩
  | noArguments => exact List.forall_mem_nil _
  | someArguments first more ihf ihm =>
    simp only [word, List.append_subset] at h
    exact List.forall_mem_append.2 ⟨ihf h.1, ihm h.2⟩
  | noMore => exact List.forall_mem_nil _
  | another comma argument more iha ihm =>
    simp only [word, List.cons_subset, List.append_subset] at h
    exact List.forall_mem_append.2 ⟨iha h.2.1, ihm h.2.2⟩

end Grammar

theorem builtAt_of_parse {limit : Int} (h : parse limit tokens = .ok e) :
    ∀ n ∈ e.nodes, n.BuiltAt tokens := by
  obtain ⟨d, last, rest, rfl, -, rfl, -⟩ := derivation_of_parse h
  exact d.builtAt (List.subset_append_left _ _)

theorem readFrom_of_parse {limit : Int} (h : parse limit tokens = .ok e) :
    ∀ n ∈ e.nodes, n.ReadFrom tokens := fun n hn => (builtAt_of_parse h n hn).readFrom

end Formulae
