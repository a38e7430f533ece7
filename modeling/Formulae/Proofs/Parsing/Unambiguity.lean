import Formulae.Proofs.Parsing.Completeness

/-!
The grammar is not ambiguous: a word has one derivation from a symbol at most. Where a phrase within
a word ends is where the parser stops, so both derivations cut the word in the same places.
-/

namespace Formulae

namespace Grammar

theorem kind_ne_endOfInput (d : Derivation σ) : ∀ t ∈ d.word, t.kind ≠ .endOfInput := by
  have binary {l : Level} (op : BinaryToken l) : op.token.kind ≠ .endOfInput := by
    intro h
    have ho := op.operator?_eq
    rw [h] at ho
    cases l <;> cases ho
  have unary {l : Level} (op : UnaryToken l) : op.token.kind ≠ .endOfInput := by
    intro h
    have ho := op.unaryOp?_eq
    rw [h] at ho
    cases l <;> cases ho
  induction d with
  | pass _ _ ih => exact ih
  | chain _ _ _ ihf ihm => simpa [or_imp, forall_and] using ⟨ihf, ihm⟩
  | oneMore op _ _ iho ihm =>
    simpa [or_imp, forall_and] using ⟨binary op, iho, ihm⟩
  | conditional _ question _ colon _ iht iha ihr =>
    simpa [or_imp, forall_and, question.kind_eq, colon.kind_eq] using
      ⟨iht, iha, ihr⟩
  | relation _ op _ ihl ihr =>
    simpa [or_imp, forall_and] using ⟨ihl, binary op, ihr⟩
  | unary op _ ih => simpa [or_imp, forall_and] using ⟨unary op, ih⟩
  | name t | number t | string t | wordTrue t | wordFalse t => simp [t.kind_eq]
  | group opening _ closing ih =>
    simpa [or_imp, forall_and, opening.kind_eq, closing.kind_eq] using ih
  | call callee opening _ closing ih =>
    simpa [or_imp, forall_and, callee.kind_eq, opening.kind_eq, closing.kind_eq]
      using ih
  | noSections | noArguments | noMore => simp
  | someArguments _ _ ihf ihm => simpa [or_imp, forall_and] using ⟨ihf, ihm⟩
  | another comma _ _ iha ihm =>
    simpa [or_imp, forall_and, comma.kind_eq] using ⟨iha, ihm⟩

theorem word_eq_of_append_eq {d d' : Derivation σ} (ts ts' : List Token) (hk : σ.EndsBefore ts)
    (hk' : σ.EndsBefore ts') (h : d.word ++ ts = d'.word ++ ts') : d.word = d'.word ∧ ts = ts' := by
  have hd := taken 0 d ts hk (max d.depth d'.depth) (Nat.le_max_left _ _) 0 0
  have hd' := taken 0 d' ts' hk' (max d.depth d'.depth) (Nat.le_max_right _ _) 0 0
  rw [h, hd'] at hd
  have hts : ts = ts' := by injection hd with _ hp; injection hp with hr; exact hr.symm
  rw [hts] at h
  exact ⟨List.append_cancel_right h, hts⟩

theorem first_eq {first first' : Derivation (.phrase l)} (ts : List Token)
    (hw : l.EndsBefore (w ++ ts)) (hw' : l.EndsBefore (w' ++ ts))
    (h : first.word ++ w = first'.word ++ w') : first.word = first'.word ∧ w = w' := by
  have h : first.word ++ (w ++ ts) = first'.word ++ (w' ++ ts) := by
    rw [← List.append_assoc, h, List.append_assoc]
  obtain ⟨hf, hw⟩ := word_eq_of_append_eq (σ := .phrase l) _ _ hw hw' h
  exact ⟨hf, List.append_cancel_right hw⟩

theorem first_eq_of_cons {first first' : Derivation (.phrase l)} (ht : l.EndsAt t.kind)
    (ht' : l.EndsAt t'.kind) (h : first.word ++ t :: w = first'.word ++ t' :: w') :
    first.word = first'.word ∧ t = t' ∧ w = w' := by
  obtain ⟨hf, hw⟩ := word_eq_of_append_eq (σ := .phrase l) (t :: w) (t' :: w') ht ht' h
  exact ⟨hf, List.cons.inj hw⟩

private def someEnd : Token := ⟨.endOfInput, "", 1, 1⟩

private theorem endsBefore_someEnd (l : Level) : l.EndsBefore [someEnd] :=
  Level.EndsAt.of_continued?_eq_none rfl

private def someClosing : Terminal .rightParen := default

theorem word_ne_append {d d' : Derivation (.phrase l)} (h : l.EndsAt t.kind) :
    d.word ≠ d'.word ++ t :: w := by
  intro hd
  have hd : d.word ++ [someEnd] = d'.word ++ t :: (w ++ [someEnd]) := by rw [hd]; simp
  obtain ⟨-, hw⟩ := word_eq_of_append_eq (σ := .phrase l) [someEnd] (t :: (w ++ [someEnd]))
    (endsBefore_someEnd l) h hd
  simp at hw

theorem Terminal.ext_token {u u' : Terminal k} (h : u.token = u'.token) : u = u' := by
  cases u; cases u'; cases h; rfl

theorem BinaryToken.ext_token {op op' : BinaryToken l} (h : op.token = op'.token) : op = op' := by
  have ho := op.operator?_eq
  rw [h, op'.operator?_eq] at ho
  cases op; cases op'; cases h; cases ho; rfl

theorem UnaryToken.ext_token {op op' : UnaryToken l} (h : op.token = op'.token) : op = op' := by
  have ho := op.unaryOp?_eq
  rw [h, op'.unaryOp?_eq] at ho
  cases op; cases op'; cases h; cases ho; rfl

theorem Terminal.kind_eq_of_token {u : Terminal k} {u' : Terminal k'} (h : u.token = u'.token) :
    k = k' := by
  rw [← u.kind_eq, ← u'.kind_eq, h]

theorem UnaryToken.level_eq_or (op : UnaryToken l) : l = .negation ∨ l = .signed := by
  obtain ⟨t, op, rfl, -⟩ := op
  cases op
  · exact .inr rfl
  · exact .inr rfl
  · exact .inl rfl

theorem Level.not_chained_of_optional {l : Level} (h : l.optional) : ¬ l.chained := by
  cases l <;> simp [optional, chained] at h ⊢

def Unique (d : Derivation σ) : Prop := ∀ d' : Derivation σ, d.word = d'.word → d = d'

theorem first_eq_of_sections {first first' : Derivation (.phrase l.next)}
    {more more' : Derivation (.sections l)}
    (h : first.word ++ more.word = first'.word ++ more'.word) :
    first.word = first'.word ∧ more.word = more'.word :=
  first_eq [someEnd] (endsBefore_sections more (endsBefore_someEnd l))
    (endsBefore_sections more' (endsBefore_someEnd l)) h

theorem first_eq_of_moreArguments {first first' : Derivation (.phrase .conditional)}
    {more more' : Derivation .moreArguments}
    (h : first.word ++ more.word = first'.word ++ more'.word) :
    first.word = first'.word ∧ more.word = more'.word :=
  first_eq [someClosing.token] (endsBefore_moreArguments more someClosing.kind_eq)
    (endsBefore_moreArguments more' someClosing.kind_eq) h

theorem word_ne_unary {d : Derivation (.phrase l.next)} (op : UnaryToken l) :
    d.word ≠ op.token :: w := by
  intro h
  obtain ⟨t, ts, hw, hs⟩ := d.starts
  have hn := hs.unaryOp?_eq_none
  rw [hw, List.cons.injEq] at h
  rw [h.1, op.unaryOp?_eq] at hn
  cases hn

theorem word_ne_nil (d : Derivation (.phrase l)) : d.word ≠ [] := by
  intro h
  obtain ⟨t, ts, hw, -⟩ := d.starts
  rw [hw] at h
  cases h

theorem unique_pass {l : Level} (hl : l.optional) {inner : Derivation (.phrase l.next)}
    (h : Unique inner) : Unique (.pass hl inner) := by
  intro d' hd
  cases d' with
  | pass _ inner' => rw [h inner' hd]
  | chain hl' => exact absurd hl' (Level.not_chained_of_optional hl)
  | conditional test question accept colon reject =>
    exact absurd hd (word_ne_append (.of_question question))
  | relation left op right => exact absurd hd (word_ne_append (.of_binaryToken op))
  | unary op operand => exact absurd hd (word_ne_unary op)
  | name | number | string | wordTrue | wordFalse | group | call => cases hl

theorem unique_chain {l : Level} (hl : l.chained) {first : Derivation (.phrase l.next)}
    {more : Derivation (.sections l)} (hf : Unique first) (hm : Unique more) :
    Unique (.chain hl first more) := by
  intro d' hd
  cases d' with
  | chain _ first' more' =>
    obtain ⟨hfirst, hmore⟩ := first_eq_of_sections hd
    rw [hf first' hfirst, hm more' hmore]
  | pass hl' => exact absurd hl (Level.not_chained_of_optional hl')
  | unary op => rcases op.level_eq_or with rfl | rfl <;> cases hl
  | conditional | relation => cases hl
  | name | number | string | wordTrue | wordFalse | group | call => cases hl

theorem unique_noSections : Unique (.noSections : Derivation (.sections l)) := by
  intro d' hd
  cases d' with
  | noSections => rfl
  | oneMore => cases hd

theorem unique_oneMore (op : BinaryToken l) {operand : Derivation (.phrase l.next)}
    {more : Derivation (.sections l)} (ho : Unique operand) (hm : Unique more) :
    Unique (.oneMore op operand more) := by
  intro d' hd
  cases d' with
  | noSections => cases hd
  | oneMore op' operand' more' =>
    obtain ⟨hop, hw⟩ := List.cons.inj hd
    obtain ⟨hoperand, hmore⟩ := first_eq_of_sections hw
    rw [BinaryToken.ext_token hop, ho operand' hoperand, hm more' hmore]

theorem unique_conditional {test : Derivation (.phrase .disjunction)} (question : Terminal .question)
    {accept : Derivation (.phrase .disjunction)} (colon : Terminal .colon)
    {reject : Derivation (.phrase .conditional)} (ht : Unique test) (ha : Unique accept)
    (hr : Unique reject) : Unique (.conditional test question accept colon reject) := by
  intro d' hd
  cases d' with
  | conditional test' question' accept' colon' reject' =>
    obtain ⟨htest, hq, hw⟩ := first_eq_of_cons (.of_question question) (.of_question question') hd
    obtain ⟨haccept, hc, hreject⟩ :=
      first_eq_of_cons (.of_terminal colon rfl) (.of_terminal colon' rfl) hw
    rw [ht test' htest, Terminal.ext_token hq, ha accept' haccept, Terminal.ext_token hc,
      hr reject' hreject]
  | pass => exact absurd hd.symm (word_ne_append (.of_question question))
  | chain hl => cases hl
  | unary op => rcases op.level_eq_or with h | h <;> cases h

theorem unique_relation {left right : Derivation (.phrase .sum)} (op : BinaryToken .relation)
    (hl : Unique left) (hr : Unique right) : Unique (.relation left op right) := by
  intro d' hd
  cases d' with
  | relation left' op' right' =>
    obtain ⟨hleft, ho, hright⟩ := first_eq_of_cons (.of_binaryToken op) (.of_binaryToken op') hd
    rw [hl left' hleft, BinaryToken.ext_token ho, hr right' hright]
  | pass => exact absurd hd.symm (word_ne_append (.of_binaryToken op))
  | chain hl => cases hl
  | unary op => rcases op.level_eq_or with h | h <;> cases h

theorem unique_unary (op : UnaryToken l) {operand : Derivation (.phrase l)} (h : Unique operand) :
    Unique (.unary op operand) := by
  intro d' hd
  cases d' with
  | unary op' operand' =>
    obtain ⟨hop, hw⟩ := List.cons.inj hd
    rw [UnaryToken.ext_token hop, h operand' hw]
  | pass _ inner => exact absurd hd.symm (word_ne_unary op)
  | chain hl => rcases op.level_eq_or with rfl | rfl <;> cases hl
  | conditional | relation => rcases op.level_eq_or with h | h <;> cases h
  | name | number | string | wordTrue | wordFalse | group | call =>
    rcases op.level_eq_or with h | h <;> cases h

theorem unique_noArguments : Unique .noArguments := by
  intro d' hd
  cases d' with
  | noArguments => rfl
  | someArguments first more =>
    exact absurd (List.append_eq_nil_iff.1 hd.symm).1 (word_ne_nil first)

theorem unique_someArguments {first : Derivation (.phrase .conditional)}
    {more : Derivation .moreArguments} (hf : Unique first) (hm : Unique more) :
    Unique (.someArguments first more) := by
  intro d' hd
  cases d' with
  | noArguments => exact absurd (List.append_eq_nil_iff.1 hd).1 (word_ne_nil first)
  | someArguments first' more' =>
    obtain ⟨hfirst, hmore⟩ := first_eq_of_moreArguments hd
    rw [hf first' hfirst, hm more' hmore]

theorem unique_noMore : Unique .noMore := by
  intro d' hd
  cases d' with
  | noMore => rfl
  | another => cases hd

theorem unique_another (comma : Terminal .comma) {argument : Derivation (.phrase .conditional)}
    {more : Derivation .moreArguments} (ha : Unique argument) (hm : Unique more) :
    Unique (.another comma argument more) := by
  intro d' hd
  cases d' with
  | noMore => cases hd
  | another comma' argument' more' =>
    obtain ⟨hc, hw⟩ := List.cons.inj hd
    obtain ⟨hargument, hmore⟩ := first_eq_of_moreArguments hw
    rw [Terminal.ext_token hc, ha argument' hargument, hm more' hmore]

def single? (t : Token) : Option (Derivation (.phrase .operand)) :=
  match h : t.kind with
  | .identifier => some (.name ⟨t, h⟩)
  | .number => some (.number ⟨t, h⟩)
  | .string => some (.string ⟨t, h⟩)
  | .wordTrue => some (.wordTrue ⟨t, h⟩)
  | .wordFalse => some (.wordFalse ⟨t, h⟩)
  | _ => none

theorem single?_of_word {d : Derivation (.phrase .operand)} (h : d.word = [t]) :
    single? t = some d := by
  cases d with
  | name u | number u | string u | wordTrue u | wordFalse u =>
    obtain ⟨⟨kind, lexeme, line, column⟩, hk⟩ := u
    cases hk
    cases h
    rfl
  | group | call => simp at h
  | pass hl | chain hl => cases hl
  | unary op => rcases op.level_eq_or with h | h <;> cases h

theorem unique_of_single {d : Derivation (.phrase .operand)} (h : d.word = [t]) : Unique d := by
  intro d' hd
  have hs := single?_of_word h
  rw [single?_of_word (hd.symm.trans h)] at hs
  exact (Option.some.inj hs).symm

theorem unique_group (opening : Terminal .leftParen) {inner : Derivation (.phrase .conditional)}
    (closing : Terminal .rightParen) (h : Unique inner) :
    Unique (.group opening inner closing) := by
  intro d' hd
  cases d' with
  | group opening' inner' closing' =>
    obtain ⟨ho, hw⟩ := List.cons.inj hd
    obtain ⟨hi, hc, -⟩ :=
      first_eq_of_cons (.of_terminal closing rfl) (.of_terminal closing' rfl) hw
    rw [Terminal.ext_token ho, h inner' hi, Terminal.ext_token hc]
  | name u' | number u' | string u' | wordTrue u' | wordFalse u' | call u' =>
    exact absurd (Terminal.kind_eq_of_token (List.cons.inj hd).1) (by decide)
  | pass hl | chain hl => cases hl
  | unary op => rcases op.level_eq_or with h | h <;> cases h

theorem unique_call (callee : Terminal .identifier) (opening : Terminal .leftParen)
    {args : Derivation .arguments} (closing : Terminal .rightParen) (h : Unique args) :
    Unique (.call callee opening args closing) := by
  intro d' hd
  cases d' with
  | call callee' opening' args' closing' =>
    obtain ⟨hc, hw⟩ := List.cons.inj hd
    obtain ⟨ho, hw⟩ := List.cons.inj hw
    obtain ⟨ha, hl⟩ := word_eq_of_append_eq (σ := .arguments) [closing.token] [closing'.token]
      closing.kind_eq closing'.kind_eq hw
    rw [Terminal.ext_token hc, Terminal.ext_token ho, h args' ha,
      Terminal.ext_token (List.cons.inj hl).1]
  | name => cases (List.cons.inj hd).2
  | number u' | string u' | wordTrue u' | wordFalse u' | group u' =>
    exact absurd (Terminal.kind_eq_of_token (List.cons.inj hd).1) (by decide)
  | pass hl | chain hl => cases hl
  | unary op => rcases op.level_eq_or with h | h <;> cases h

/-- A word has one derivation from a symbol at most. -/
theorem unique (d : Derivation σ) : Unique d := by
  induction d with
  | pass hl _ ih => exact unique_pass hl ih
  | chain hl _ _ ihf ihm => exact unique_chain hl ihf ihm
  | noSections => exact unique_noSections
  | oneMore op _ _ iho ihm => exact unique_oneMore op iho ihm
  | conditional _ question _ colon _ iht iha ihr =>
    exact unique_conditional question colon iht iha ihr
  | relation _ op _ ihl ihr => exact unique_relation op ihl ihr
  | unary op _ ih => exact unique_unary op ih
  | name u | number u | string u | wordTrue u | wordFalse u => exact unique_of_single rfl
  | group opening _ closing ih => exact unique_group opening closing ih
  | call callee opening _ closing ih => exact unique_call callee opening closing ih
  | noArguments => exact unique_noArguments
  | someArguments _ _ ihf ihm => exact unique_someArguments ihf ihm
  | noMore => exact unique_noMore
  | another comma _ _ iha ihm => exact unique_another comma iha ihm

end Grammar

end Formulae
