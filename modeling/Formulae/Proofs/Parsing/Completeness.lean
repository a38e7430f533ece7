import Formulae.Proofs.Parsing.Boundaries
import Formulae.Proofs.Parsing.Soundness
import Formulae.Proofs.Parsing.Steps

namespace Formulae

namespace Grammar

open Formulae.Parser

theorem Follows.shrinks {x : Parse σ.Meaning} (hx : Follows σ b x) : Shrinks x := by
  intro p a q h
  have ho := hx p
  rw [h] at ho
  obtain ⟨d, -, -, hw⟩ := ho
  rw [hw.rest_eq, List.length_append]
  exact Nat.le_add_left _ _

def TakenBefore (limit : Int) (d : Derivation σ) (ts : List Token) : Prop :=
  ∀ left, d.depth ≤ left → ∀ i k,
    σ.parser (nested limit left) ⟨d.word ++ ts, i, k⟩ = .ok d.tree ⟨ts, i + d.word.length, k⟩

def Taken (limit : Int) (d : Derivation σ) : Prop :=
  ∀ ts, σ.EndsBefore ts → TakenBefore limit d ts

section

variable {limit : Int}

theorem TakenBefore.expression {d : Derivation (.phrase .conditional)}
    (h : TakenBefore limit d ts) (left : Nat) (hd : d.depth < left) (i k : Nat) :
    Parser.expression (nested limit left) ⟨d.word ++ ts, i, k⟩ =
      .ok d.tree ⟨ts, i + d.word.length, k⟩ := by
  obtain ⟨left, rfl⟩ : ∃ left', left = left' + 1 := ⟨left - 1, by omega⟩
  obtain ⟨t, us, hw, -⟩ := d.starts
  have := h left (by omega) i (k + 1)
  rw [hw, List.cons_append] at this ⊢
  rw [Parser.expression, current_bind]
  exact nested_ok this

theorem parser_unary_pass {down : Down} (op : UnaryOp) {d : Derivation (.phrase op.level.next)}
    (h : op.level.next.parser down ⟨d.word ++ ts, i, k⟩ = r) :
    op.level.parser down ⟨d.word ++ ts, i, k⟩ = r := by
  obtain ⟨t, _, hw, hs⟩ := d.starts
  rw [hw, List.cons_append] at h ⊢
  rw [parser_unary, current_bind, hs.unaryOp?_eq_none]
  exact h

theorem taken_pass {l : Level} (hl : l.optional) {inner : Derivation (.phrase l.next)}
    (h : Taken limit inner) : Taken limit (.pass hl inner) := by
  rintro (_ | ⟨t, ts⟩) hk left hd i k
  · exact hk.elim
  have hi := h (t :: ts) (Level.EndsAt.next hk) left hd i k
  cases l with
  | conditional =>
    have hq : t.kind ≠ .question := fun h => absurd (hk _ (by rw [h]; rfl)) (by decide)
    refine (bind_ok hi).trans ?_
    rw [current_bind, if_neg hq]
    rfl
  | relation =>
    have ho : relationOp? t.kind = none := Level.EndsAt.operator?_eq_none hk
    refine (bind_ok hi).trans ?_
    rw [current_bind, ho]
    rfl
  | negation => exact parser_unary_pass .not hi
  | signed => exact parser_unary_pass .plus hi
  | _ => cases hl

theorem taken_chain {l : Level} (hl : l.chained) {first : Derivation (.phrase l.next)}
    {more : Derivation (.sections l)} (hf : Taken limit first) (hm : Taken limit more) :
    Taken limit (.chain hl first more) := by
  intro ts hk left hd i k
  obtain ⟨hdf, hdm⟩ := Nat.max_le.1 hd
  have hf := hf (more.word ++ ts) (endsBefore_sections more hk) left hdf i k
  have hm := hm ts hk left hdm (i + first.word.length) k
  simp only [Symbol.parser, Derivation.word, List.append_assoc] at hf hm ⊢
  rw [parser_chained _ hl, bind_ok hf, bind_ok hm, List.length_append, ← Nat.add_assoc]
  rfl

theorem taken_noSections {l : Level} : Taken limit (.noSections : Derivation (.sections l)) := by
  rintro (_ | ⟨t, ts⟩) hk left _ i k
  · exact hk.elim
  · exact chain_stop (Level.EndsAt.operator?_eq_none hk)

theorem taken_oneMore {l : Level} (op : BinaryToken l) {operand : Derivation (.phrase l.next)}
    {more : Derivation (.sections l)} (ho : Taken limit operand) (hm : Taken limit more) :
    Taken limit (.oneMore op operand more) := by
  intro ts hk left hd i k
  obtain ⟨hdo, hdm⟩ := Nat.max_le.1 hd
  have ho := ho (more.word ++ ts) (endsBefore_sections more hk) left hdo (i + 1) k
  have hm := hm ts hk left hdm (i + 1 + operand.word.length) k
  have hs := (follows_level (downFollows_nested limit left) l.next).shrinks
  simp only [Symbol.parser, Derivation.word, List.cons_append, List.append_assoc] at ho hm ⊢
  rw [chain_cons hs op.operator?_eq, bind_ok ho, bind_ok hm]
  refine ok_congr ?_
  simp only [List.length_cons, List.length_append]
  omega

theorem taken_conditional {test accept : Derivation (.phrase .disjunction)}
    {reject : Derivation (.phrase .conditional)} (question : Terminal .question)
    (colon : Terminal .colon) (ht : Taken limit test) (ha : Taken limit accept)
    (hr : Taken limit reject) : Taken limit (.conditional test question accept colon reject) := by
  intro ts hk left hd i k
  simp only [Derivation.depth, Nat.max_le] at hd
  obtain ⟨hdt, hda, hdr⟩ := hd
  have ht := ht (question.token :: (accept.word ++ colon.token :: (reject.word ++ ts)))
    (Level.EndsAt.of_question question) left hdt i k
  have ha := ha (colon.token :: (reject.word ++ ts)) (Level.EndsAt.of_terminal colon rfl) left hda
    (i + test.word.length + 1) k
  have hr := (hr ts hk).expression left hdr
    (i + test.word.length + 1 + accept.word.length + 1) k
  simp only [Derivation.word, List.cons_append, List.append_assoc] at ht ha hr ⊢
  refine (bind_ok ht).trans ?_
  rw [current_bind, if_pos question.kind_eq, advance_bind]
  refine (bind_ok ha).trans ?_
  rw [current_bind, if_pos colon.kind_eq, advance_bind, bind_ok hr]
  refine ok_congr ?_
  simp only [List.length_append, List.length_cons]
  omega

theorem taken_relation {left right : Derivation (.phrase .sum)} (op : BinaryToken .relation)
    (hl : Taken limit left) (hr : Taken limit right) : Taken limit (.relation left op right) := by
  intro ts hk n hd i k
  obtain ⟨hdl, hdr⟩ := Nat.max_le.1 hd
  have hl := hl (op.token :: (right.word ++ ts)) (Level.EndsAt.of_binaryToken op) n hdl i k
  have hr := hr ts (Level.EndsBefore.next hk) n hdr (i + left.word.length + 1) k
  simp only [Derivation.word, List.cons_append, List.append_assoc] at hl hr ⊢
  refine (bind_ok hl).trans ?_
  rw [current_bind, show relationOp? op.token.kind = _ from op.operator?_eq]
  refine advance_bind.trans ((bind_ok hr).trans (ok_congr ?_))
  simp only [List.length_append, List.length_cons]
  omega

theorem taken_unary {l : Level} (op : UnaryToken l) {operand : Derivation (.phrase l)}
    (ho : Taken limit operand) : Taken limit (.unary op operand) := by
  intro ts hk left hd i k
  obtain ⟨left, rfl⟩ : ∃ left', left = left' + 1 :=
    ⟨left - 1, by simp only [Derivation.depth] at hd; omega⟩
  obtain ⟨token, op, rfl, hs⟩ := op
  have ho := ho ts hk left (Nat.le_of_succ_le_succ hd) (i + 1) (k + 1)
  have hn : nested limit (left + 1) op.entry token ⟨operand.word ++ ts, i + 1, k⟩ =
      .ok operand.tree ⟨ts, i + 1 + operand.word.length, k⟩ :=
    nested_ok (by cases op <;> exact ho)
  simp only [Symbol.parser, Derivation.word, List.cons_append]
  rw [parser_unary, current_bind, Level.unaryOp?_of_spelling hs]
  refine advance_bind.trans ((bind_ok hn).trans (ok_congr ?_))
  simp only [List.length_cons]
  omega

theorem taken_name (u : Terminal .identifier) : Taken limit (.name u) := by
  rintro (_ | ⟨t, ts⟩) hk left _ i k
  · exact hk.elim
  have hp : t.kind ≠ .leftParen := fun h => absurd (hk _ (by rw [h]; rfl)) (by decide)
  change operand _ ⟨u.token :: t :: ts, i, k⟩ = _
  rw [operand, current_bind]
  simp only [u.kind_eq]
  rw [advance_bind, named, current_bind, if_neg hp]
  rfl

theorem taken_group (opening : Terminal .leftParen) {inner : Derivation (.phrase .conditional)}
    (closing : Terminal .rightParen) (h : Taken limit inner) :
    Taken limit (.group opening inner closing) := by
  intro ts _ left hd i k
  have hi := (h (closing.token :: ts) (Level.EndsAt.of_terminal closing rfl)).expression left hd
    (i + 1) k
  simp only [Derivation.word, List.cons_append, List.append_assoc]
  change operand _ ⟨opening.token :: (inner.word ++ closing.token :: ts), i, k⟩ = _
  rw [operand, current_bind]
  simp only [opening.kind_eq]
  rw [advance_bind, parenthesised, bind_ok hi, current_bind, if_pos closing.kind_eq]
  refine ok_congr ?_
  simp only [List.length_append, List.length_cons, List.length_nil]
  omega

theorem taken_call (callee : Terminal .identifier) (opening : Terminal .leftParen)
    {args : Derivation .arguments} (closing : Terminal .rightParen) (h : Taken limit args) :
    Taken limit (.call callee opening args closing) := by
  intro ts _ left hd i k
  have ha := h (closing.token :: ts) closing.kind_eq left hd (i + 1 + 1) k
  simp only [Derivation.word, List.cons_append, List.append_assoc]
  change operand _ ⟨callee.token :: opening.token :: (args.word ++ closing.token :: ts), i, k⟩ = _
  rw [operand, current_bind]
  simp only [callee.kind_eq]
  rw [advance_bind, named, current_bind, if_pos opening.kind_eq, advance_bind, call]
  refine (bind_ok ha).trans ?_
  rw [current_bind, if_pos closing.kind_eq]
  refine ok_congr ?_
  simp only [List.length_append, List.length_cons, List.length_nil]
  omega

theorem taken_noArguments : Taken limit .noArguments := by
  rintro (_ | ⟨t, ts⟩) hk left _ i k
  · exact hk.elim
  have hk : t.kind = .rightParen := hk
  change arguments _ ⟨t :: ts, i, k⟩ = _
  rw [arguments, current_bind, if_pos hk]
  rfl

theorem taken_someArguments {first : Derivation (.phrase .conditional)}
    {more : Derivation .moreArguments} (hf : Taken limit first) (hm : Taken limit more) :
    Taken limit (.someArguments first more) := by
  intro ts hk left hd i k
  have hk : Symbol.moreArguments.EndsBefore ts := by cases ts <;> exact hk
  obtain ⟨hdf, hdm⟩ := Nat.max_le.1 hd
  have hf := (hf _ (endsBefore_moreArguments more hk)).expression left hdf i k
  have hm := hm ts hk left hdm (i + first.word.length) k
  obtain ⟨u, us, hw, m, hs, -⟩ := first.starts
  have hp : u.kind ≠ .rightParen := by intro h; rw [h] at hs; cases hs
  have hc : current ⟨first.word ++ (more.word ++ ts), i, k⟩ =
      .ok u ⟨first.word ++ (more.word ++ ts), i, k⟩ := by rw [hw]; rfl
  change arguments _ ⟨(first.word ++ more.word) ++ ts, i, k⟩ = _
  rw [List.append_assoc, arguments_eq, bind_ok hc, if_neg hp, bind_ok hf, bind_ok hm]
  refine ok_congr ?_
  rw [Derivation.word, List.length_append, Nat.add_assoc]

theorem taken_noMore : Taken limit .noMore := by
  rintro (_ | ⟨t, ts⟩) hk left _ i k
  · exact hk.elim
  have hs : separator? t.kind = none := by rw [show t.kind = _ from hk]; rfl
  exact bind_ok (chain_stop hs)

theorem taken_another (comma : Terminal .comma) {argument : Derivation (.phrase .conditional)}
    {more : Derivation .moreArguments} (ha : Taken limit argument) (hm : Taken limit more) :
    Taken limit (.another comma argument more) := by
  intro ts hk left hd i k
  obtain ⟨hda, hdm⟩ := Nat.max_le.1 hd
  have ha := (ha _ (endsBefore_moreArguments more hk)).expression left hda (i + 1) k
  obtain ⟨es, he, hes⟩ :=
    eq_ok_of_bind_pure (hm ts hk left hdm (i + 1 + argument.word.length) k)
  have hs : Shrinks (Parser.expression (nested limit left)) :=
    (follows_expression (downFollows_nested limit left)).shrinks
  have hc : separator? comma.token.kind = some () := by rw [comma.kind_eq]; rfl
  change (chain separator? _ >>= fun more => pure (operands more) : Parse (List Expr))
    ⟨comma.token :: ((argument.word ++ more.word) ++ ts), i, k⟩ = _
  rw [List.append_assoc, bind_ok (by rw [chain_cons hs hc, bind_ok ha, bind_ok he]; rfl)]
  simp only [Derivation.tree, Derivation.word, ← hes]
  refine ok_congr ?_
  simp only [List.length_append, List.length_cons]
  omega

theorem taken (limit : Int) (d : Derivation σ) : Taken limit d := by
  induction d with
  | pass hl _ ih => exact taken_pass hl ih
  | chain hl _ _ ihf ihm => exact taken_chain hl ihf ihm
  | noSections => exact taken_noSections
  | oneMore op _ _ iho ihm => exact taken_oneMore op iho ihm
  | conditional _ question _ colon _ iht iha ihr =>
    exact taken_conditional question colon iht iha ihr
  | relation _ op _ ihl ihr => exact taken_relation op ihl ihr
  | unary op _ ih => exact taken_unary op ih
  | name u => exact taken_name u
  | number u | string u | wordTrue u | wordFalse u =>
    intro ts _ left _ i k
    change operand _ ⟨u.token :: ts, i, k⟩ = _
    rw [operand, current_bind]
    simp only [u.kind_eq]
    rfl
  | group opening _ closing ih => exact taken_group opening closing ih
  | call callee opening _ closing ih => exact taken_call callee opening closing ih
  | noArguments => exact taken_noArguments
  | someArguments _ _ ihf ihm => exact taken_someArguments ihf ihm
  | noMore => exact taken_noMore
  | another comma _ _ iha ihm => exact taken_another comma iha ihm

end

end Grammar

end Formulae
