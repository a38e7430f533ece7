import Formulae.Proofs.Parsing.Acceptance

namespace Formulae

namespace Grammar

/-- These tokens are a phrase of a level, which stands for this expression and nests at most so
deep. -/
def Phrase (l : Level) (w : List Token) (e : Expr) (n : Nat) : Prop :=
  ∃ d : Derivation (.phrase l), d.word = w ∧ d.tree = e ∧ d.depth ≤ n

namespace Phrase

variable {l : Level} {w v : List Token} {e f : Expr} {n : Nat}

theorem up (h : Phrase l.next w e n) : Phrase l w e n := by
  obtain ⟨d, rfl, rfl, hd⟩ := h
  by_cases hc : l.chained
  · refine ⟨.chain hc d .noSections, by simp, ?_, by simpa using hd⟩
    cases l <;> rfl
  · by_cases ho : l.optional
    · exact ⟨.pass ho d, rfl, rfl, hd⟩
    · cases l <;> first | exact ⟨d, rfl, rfl, hd⟩ | simp [Level.chained, Level.optional] at hc ho

theorem lift (h : Phrase .operand w e n) (l : Level) : Phrase l w e n := by
  induction l using Level.ascend with
  | operand => exact h
  | chained l hl ih => exact up ih
  | unary op ih => exact up ih
  | relation ih => exact up ih
  | conditional ih => exact up ih

theorem outer (h : Phrase l w e n) : Phrase .conditional w e n := by
  have disjunction (h : Phrase .disjunction w e n) : Phrase .conditional w e n := up h
  have conjunction (h : Phrase .conjunction w e n) : Phrase .conditional w e n := disjunction (up h)
  have negation (h : Phrase .negation w e n) : Phrase .conditional w e n := conjunction (up h)
  have equality (h : Phrase .equality w e n) : Phrase .conditional w e n := negation (up h)
  have relation (h : Phrase .relation w e n) : Phrase .conditional w e n := equality (up h)
  have sum (h : Phrase .sum w e n) : Phrase .conditional w e n := relation (up h)
  have product (h : Phrase .product w e n) : Phrase .conditional w e n := sum (up h)
  have signed (h : Phrase .signed w e n) : Phrase .conditional w e n := product (up h)
  have power (h : Phrase .power w e n) : Phrase .conditional w e n := signed (up h)
  have operand (h : Phrase .operand w e n) : Phrase .conditional w e n := power (up h)
  cases l
  case conditional => exact h
  case disjunction => exact disjunction h
  case conjunction => exact conjunction h
  case negation => exact negation h
  case equality => exact equality h
  case relation => exact relation h
  case sum => exact sum h
  case product => exact product h
  case signed => exact signed h
  case power => exact power h
  case operand => exact operand h

theorem mono (h : Phrase l w e n) (hn : n ≤ m) : Phrase l w e m := by
  obtain ⟨d, hw, he, hd⟩ := h
  exact ⟨d, hw, he, Nat.le_trans hd hn⟩

theorem number (ht : t.kind = .number) :
    Phrase .operand [t] (.number t.lexeme t.location) n :=
  ⟨.number ⟨t, ht⟩, rfl, rfl, Nat.zero_le n⟩

theorem string (ht : t.kind = .string) :
    Phrase .operand [t] (.string t.lexeme t.location) n :=
  ⟨.string ⟨t, ht⟩, rfl, rfl, Nat.zero_le n⟩

theorem identifier (ht : t.kind = .identifier) :
    Phrase .operand [t] (.identifier t.lexeme t.location) n :=
  ⟨.name ⟨t, ht⟩, rfl, rfl, Nat.zero_le n⟩

theorem boolean (ht : t.kind = .wordTrue) : Phrase .operand [t] (.boolean true t.location) n :=
  ⟨.wordTrue ⟨t, ht⟩, rfl, rfl, Nat.zero_le n⟩

theorem wordFalse (ht : t.kind = .wordFalse) :
    Phrase .operand [t] (.boolean false t.location) n :=
  ⟨.wordFalse ⟨t, ht⟩, rfl, rfl, Nat.zero_le n⟩

theorem group (ho : opening.kind = .leftParen) (h : Phrase l w e n)
    (hc : closing.kind = .rightParen) :
    Phrase .operand (opening :: (w ++ [closing])) e (n + 1) := by
  obtain ⟨d, rfl, rfl, hd⟩ := h.outer
  exact ⟨.group ⟨opening, ho⟩ d ⟨closing, hc⟩, rfl, rfl, Nat.succ_le_succ hd⟩

theorem unary (o : UnaryToken l) (h : Phrase l w e n) :
    Phrase l (o.token :: w) (.unary o.op e o.token.location) (n + 1) := by
  obtain ⟨d, rfl, rfl, hd⟩ := h
  exact ⟨.unary o d, rfl, rfl, Nat.succ_le_succ hd⟩

theorem operation (o : BinaryToken l) (he : Phrase l.next w e n) (hf : Phrase l.next v f n) :
    Phrase l (w ++ o.token :: v) (.binary o.op e f o.token.location) n := by
  obtain ⟨d, rfl, rfl, hd⟩ := he
  obtain ⟨d', rfl, rfl, hd'⟩ := hf
  by_cases hc : l.chained
  · have hm : max d.depth (max d'.depth 0) ≤ n := Nat.max_le.2 ⟨hd, Nat.max_le.2 ⟨hd', n.zero_le⟩⟩
    refine ⟨.chain hc d (.oneMore o d' .noSections), by simp, ?_, hm⟩
    cases l <;> rfl
  · obtain rfl : l = .relation := by
      obtain ⟨t, op, rfl, -⟩ := o
      rcases op with op | op | op <;> cases op <;> first | rfl | exact absurd rfl hc
    exact ⟨.relation d o d', rfl, rfl, Nat.max_le.2 ⟨hd, hd'⟩⟩

theorem call (hn : name.kind = .identifier) (ho : opening.kind = .leftParen)
    (hc : closing.kind = .rightParen) (h : Phrase .conditional w e n) :
    Phrase .operand (name :: opening :: (w ++ [closing]))
      (.call (.identifier name.lexeme name.location) [e] name.location) (n + 1) := by
  obtain ⟨d, rfl, rfl, hd⟩ := h
  exact ⟨.call ⟨name, hn⟩ ⟨opening, ho⟩ (.someArguments d .noMore) ⟨closing, hc⟩, by simp, rfl,
    by simpa using hd⟩

theorem conditional {reject : Expr} (h : Phrase .disjunction w e (n + 1))
    (hq : question.kind = .question) (ha : Phrase .disjunction v f (n + 1))
    (hc : colon.kind = .colon) (hr : Phrase .conditional u reject n) :
    Phrase .conditional (w ++ question :: (v ++ colon :: u))
      (.conditional e f reject question.location) (n + 1) := by
  obtain ⟨d, rfl, rfl, hd⟩ := h
  obtain ⟨a, rfl, rfl, ha⟩ := ha
  obtain ⟨r, rfl, rfl, hr⟩ := hr
  refine ⟨.conditional d ⟨question, hq⟩ a ⟨colon, hc⟩ r, rfl, rfl, ?_⟩
  simp only [Derivation.depth]
  omega

end Phrase

def Listing (w : List Token) (es : List Expr) (n : Nat) : Prop :=
  ∃ d : Derivation .moreArguments, d.word = w ∧ d.tree = es ∧ d.depth ≤ n

section

variable {w v : List Token} {e : Expr} {es : List Expr} {n m : Nat}

theorem Listing.nil : Listing [] [] n := ⟨.noMore, rfl, rfl, Nat.zero_le n⟩

theorem Listing.cons (hc : comma.kind = .comma) (h : Phrase .conditional w e n)
    (hm : Listing v es m) : Listing (comma :: (w ++ v)) (e :: es) (max (n + 1) m) := by
  obtain ⟨d, rfl, rfl, hd⟩ := h
  obtain ⟨d', rfl, rfl, hd'⟩ := hm
  refine ⟨.another ⟨comma, hc⟩ d d', rfl, rfl, ?_⟩
  simp only [Derivation.depth]
  omega

theorem Phrase.callNone (hn : name.kind = .identifier) (ho : opening.kind = .leftParen)
    (hc : closing.kind = .rightParen) :
    Phrase .operand [name, opening, closing]
      (.call (.identifier name.lexeme name.location) [] name.location) n :=
  ⟨.call ⟨name, hn⟩ ⟨opening, ho⟩ .noArguments ⟨closing, hc⟩, rfl, rfl, Nat.zero_le n⟩

theorem Phrase.callSome (hn : name.kind = .identifier) (ho : opening.kind = .leftParen)
    (hc : closing.kind = .rightParen) (h : Phrase .conditional w e n) (hm : Listing v es m) :
    Phrase .operand (name :: opening :: (w ++ v ++ [closing]))
      (.call (.identifier name.lexeme name.location) (e :: es) name.location)
      (max (n + 1) m) := by
  obtain ⟨d, rfl, rfl, hd⟩ := h
  obtain ⟨d', rfl, rfl, hd'⟩ := hm
  refine ⟨.call ⟨name, hn⟩ ⟨opening, ho⟩ (.someArguments d d') ⟨closing, hc⟩, rfl, rfl, ?_⟩
  simp only [Derivation.depth]
  omega

end

end Grammar

end Formulae
