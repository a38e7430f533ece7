import Formulae.Proofs.Lexing.Munch
import Formulae.Proofs.Parsing.Trees
import Formulae.Proofs.Session

namespace Formulae

namespace Expr

def Written : Expr → Prop
  | .number text _ => text.toList ∈ Lexeme.language .number
  | .string text _ => text.toList ∈ Lexeme.language .string
  | .identifier name _ => name.toList ∈ Lexeme.language .identifier
  | .call callee _ _ => ∃ name l, callee = .identifier name l
  | .extension .. => False
  | _ => True

def WellFormed (e : Expr) : Prop := ∀ n ∈ e.nodes, n.Written

namespace WellFormed

variable {e : Expr}

theorem written (h : e.WellFormed) : e.Written := h e (mem_nodes e)

theorem mono {n : Expr} (h : e.WellFormed) (hn : n.nodes ⊆ e.nodes) : n.WellFormed :=
  fun m hm => h m (hn hm)

theorem leaf (hn : e.nodes = [e]) (h : e.Written) : e.WellFormed := by
  rw [WellFormed, hn]
  exact List.forall_mem_singleton.2 h

theorem unary_iff : (unary op operand l).WellFormed ↔ operand.WellFormed := by
  rw [WellFormed, nodes, List.forall_mem_cons]
  exact and_iff_right trivial

theorem binary_iff : (binary op left right l).WellFormed ↔ left.WellFormed ∧ right.WellFormed := by
  rw [WellFormed, nodes, List.forall_mem_cons, List.forall_mem_append]
  exact and_iff_right trivial

theorem conditional_iff : (conditional test accept reject l).WellFormed ↔
    test.WellFormed ∧ accept.WellFormed ∧ reject.WellFormed := by
  rw [WellFormed, nodes, List.forall_mem_cons, List.forall_mem_append, List.forall_mem_append]
  exact and_iff_right trivial

theorem call_iff : (call callee args l).WellFormed ↔
    (∃ name m, callee = .identifier name m) ∧ callee.WellFormed ∧
      ∀ n ∈ nodesAll args, n.Written := by
  rw [WellFormed, nodes, List.forall_mem_cons, List.forall_mem_append]
  rfl

end WellFormed

theorem ReadFrom.written {tokens : List Token} {n : Expr} (h : n.ReadFrom tokens)
    (ht : ∀ t ∈ tokens, t.kind ≠ .endOfInput → t.lexeme.toList ∈ Lexeme.language t.kind) :
    n.Written := by
  have hs := h.spelled
  cases n with
  | number | string | identifier =>
    obtain ⟨t, hm, hk, rfl⟩ := hs
    have hw := ht t hm (by rw [hk]; nofun)
    rw [hk] at hw
    exact hw
  | call | extension => exact h.regular
  | boolean | unary | binary | conditional => trivial

end Expr

theorem wellFormed_of_parse {limit : Int} (hlex : lex text = .ok tokens)
    (h : parse limit tokens = .ok e) : e.WellFormed := fun n hn =>
  (readFrom_of_parse h n hn).written fun _ ht hk => mem_language_of_lex hlex ht hk

theorem Session.wellFormed_of_parse {s : Session} (h : (s.parse text).outcome.1 = .ok e) :
    e.WellFormed := by
  obtain ⟨tokens, hlex, hparse⟩ := parse_eq_ok_iff.1 h
  exact Formulae.wellFormed_of_parse hlex hparse

end Formulae
