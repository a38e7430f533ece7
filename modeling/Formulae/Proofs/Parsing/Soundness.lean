import Formulae.Proofs.Parsing.Levels
import Formulae.Proofs.Parsing.Steps

namespace Formulae

namespace Grammar

open Formulae.Parser

instance : Inhabited (Terminal k) := ⟨⟨⟨k, "", 1, 1⟩, rfl⟩⟩

def Level.simplest : (l : Level) → Derivation (.phrase l)
  | .operand => .number default
  | .power => .chain rfl (simplest .operand) .noSections
  | .signed => .pass rfl (simplest .power)
  | .product => .chain rfl (simplest .signed) .noSections
  | .sum => .chain rfl (simplest .product) .noSections
  | .relation => .pass rfl (simplest .sum)
  | .equality => .chain rfl (simplest .relation) .noSections
  | .negation => .pass rfl (simplest .equality)
  | .conjunction => .chain rfl (simplest .negation) .noSections
  | .disjunction => .chain rfl (simplest .conjunction) .noSections
  | .conditional => .pass rfl (simplest .disjunction)
termination_by l => 10 - l.rank
decreasing_by all_goals decide

instance : Inhabited (Derivation (.phrase l)) := ⟨l.simplest⟩

def Begins (σ : Symbol) (w : List Token) : Prop := ∃ d : Derivation σ, w <+: d.word

def Outcome (σ : Symbol) (bound : Nat) (p : Parser) :
    EStateM.Result ParseError Parser σ.Meaning → Prop
  | .ok a q => ∃ d : Derivation σ, d.tree = a ∧ d.depth < bound ∧ p.Passes d.word q
  | .error _ q => ∃ w, p.Passes w q ∧ Begins σ w

def Follows (σ : Symbol) (bound : Nat) (x : Parse σ.Meaning) : Prop :=
  ∀ p, Outcome σ bound p (x p)

section

variable {σ τ : Symbol} {b c : Nat} {p q : Parser} {w : List Token}

theorem Begins.shorter {u : List Token} (hw : Begins σ w) (hu : u <+: w) : Begins σ u := by
  obtain ⟨d, hd⟩ := hw
  exact ⟨d, hu.trans hd⟩

theorem Outcome.pure {a : σ.Meaning} (d : Derivation σ) (ha : d.tree = a) (hd : d.depth < b)
    (hw : p.Passes d.word q) : Outcome σ b p ((Pure.pure a : Parse σ.Meaning) q) :=
  ⟨d, ha, hd, hw⟩

theorem Outcome.throw {e : ParseError} (hw : p.Passes w q) (hv : Begins σ w) :
    Outcome σ b p ((MonadExcept.throw e : Parse σ.Meaning) q) :=
  ⟨w, hw, hv⟩

theorem Outcome.current {f : Token → Parse σ.Meaning} (hw : p.Passes w q) (hv : Begins σ w)
    (hf : ∀ t ts, q.rest = t :: ts → Outcome σ b p (f t q)) :
    Outcome σ b p ((current >>= f) q) := by
  rcases q with ⟨_ | ⟨t, ts⟩, i, k⟩
  · exact ⟨w, hw, hv⟩
  · exact hf t ts rfl

theorem Outcome.advance {f : Unit → Parse σ.Meaning} (hw : p.Passes w q) (hq : q.rest = t :: ts)
    (hf : p.Passes (w ++ [t]) q.next → Outcome σ b p (f () q.next)) :
    Outcome σ b p ((advance >>= f) q) :=
  hf (hw.next hq)

theorem Follows.bind {x : Parse τ.Meaning} {f : τ.Meaning → Parse σ.Meaning} (hx : Follows τ c x)
    (hw : p.Passes w q) (hv : ∀ d : Derivation τ, Begins σ (w ++ d.word))
    (hf : ∀ (d : Derivation τ) r, d.depth < c → p.Passes (w ++ d.word) r →
      Outcome σ b p (f d.tree r)) :
    Outcome σ b p ((x >>= f) q) := by
  have := hx q
  simp only [Bind.bind, EStateM.bind]
  split
  next a r h =>
    rw [h] at this
    obtain ⟨d, rfl, hd, hr⟩ := this
    exact hf d r hd (hw.trans hr)
  next e r h =>
    rw [h] at this
    obtain ⟨u, hu, d, hd⟩ := this
    exact ⟨w ++ u, hw.trans hu, (hv d).shorter (by simpa using hd)⟩

end

section

variable {down : Down} {b : Nat} {p q : Parser}

theorem follows_sections {operand : Parse Expr} (ho : Follows (.phrase l.next) (b + 1) operand)
    (n : Nat) : Follows (.sections l) (b + 1) (sections l.operator? operand n) := by
  induction n with
  | zero =>
    intro p
    refine .current (.refl p) ⟨.noSections, by simp⟩ fun t ts _ => ?_
    exact .pure .noSections rfl (by simp) (.refl p)
  | succ n ih =>
    intro p
    refine .current (.refl p) ⟨.noSections, by simp⟩ fun t ts ht => ?_
    cases h : l.operator? t.kind with
    | none => exact .pure .noSections rfl (by simp) (.refl p)
    | some op =>
      obtain ⟨hl, hs⟩ := Level.spelling_of_operator? h
      let o : BinaryToken l := ⟨t, op, hl, hs⟩
      refine .advance (.refl p) ht fun hw => ?_
      refine ho.bind hw (fun d => ⟨.oneMore o d .noSections, ?_⟩) fun d q hd hw => ?_
      · simp [o]
      refine ih.bind hw (fun more => ⟨.oneMore o d more, ?_⟩) fun more r hm hw => ?_
      · simp [o]
      refine .pure (.oneMore o d more) rfl ?_ ?_
      · simp only [Derivation.depth]; omega
      · simpa [o] using hw

theorem follows_chain {operand : Parse Expr} (ho : Follows (.phrase l.next) (b + 1) operand) :
    Follows (.sections l) (b + 1) (chain l.operator? operand) := by
  intro p
  refine .current (.refl p) ⟨.noSections, by simp⟩ fun t ts _ => ?_
  cases l.operator? t.kind with
  | none => exact .pure .noSections rfl (by simp) (.refl p)
  | some op => exact follows_sections ho p.rest.length p

theorem follows_chained (hl : l.chained)
    (hn : Follows (.phrase l.next) (b + 1) (l.next.parser down)) :
    Follows (.phrase l) (b + 1) (l.parser down) := by
  intro p
  rw [parser_chained down hl]
  refine hn.bind (.refl p) (fun d => ⟨.chain hl d .noSections, ?_⟩) fun d q hd hw => ?_
  · simp
  refine (follows_chain hn).bind hw (fun more => ⟨.chain hl d more, ?_⟩) fun more r hm hw => ?_
  · simp
  refine .pure (.chain hl d more) rfl ?_ ?_
  · simp only [Derivation.depth]; omega
  · simpa using hw

def DownFollows (b : Nat) (down : Down) : Prop :=
  ∀ entry t, Follows (.phrase entry.level) b (down entry t)

theorem follows_pass {x : Parse Expr} (hl : l.optional)
    (hn : Follows (.phrase l.next) (b + 1) x) : Follows (.phrase l) (b + 1) x := by
  intro p
  rw [← bind_pure x]
  refine hn.bind (.refl p) (fun d => ⟨.pass hl d, List.prefix_rfl⟩) fun d q hd hw => ?_
  exact .pure (.pass hl d) rfl hd hw

theorem follows_unary (op : UnaryOp) (hd : DownFollows b down)
    (hn : Follows (.phrase op.level.next) (b + 1) (op.level.next.parser down)) :
    Follows (.phrase op.level) (b + 1) (op.level.parser down) := by
  intro p
  rw [parser_unary]
  refine .current (.refl p) ⟨default, by simp⟩ fun t ts ht => ?_
  cases h : op.level.unaryOp? t.kind with
  | none => exact follows_pass (by cases op <;> rfl) hn p
  | some o =>
    obtain ⟨hl, hs⟩ := Level.spelling_of_unaryOp? h
    let o' : UnaryToken op.level := ⟨t, o, hl, hs⟩
    have hd := hd op.entry t
    rw [op.level_entry] at hd
    refine .advance (.refl p) ht fun hw => ?_
    refine hd.bind hw (fun d => ⟨.unary o' d, ?_⟩) fun d q hd hw => ?_
    · simp [o']
    refine .pure (.unary o' d) rfl ?_ ?_
    · simp only [Derivation.depth]; omega
    · simpa [o'] using hw

theorem follows_relation (hs : Follows (.phrase .sum) (b + 1) (Parser.sum down)) :
    Follows (.phrase .relation) (b + 1) (Parser.relation down) := by
  intro p
  refine hs.bind (.refl p) (fun d => ⟨.pass rfl d, List.prefix_rfl⟩) fun left q hl hw => ?_
  refine .current hw ⟨.pass rfl left, List.prefix_rfl⟩ fun t ts ht => ?_
  cases h : relationOp? t.kind with
  | none => exact .pure (.pass rfl left) rfl hl hw
  | some op =>
    obtain ⟨hop, hsp⟩ := Level.spelling_of_operator? (l := .relation) h
    let o : BinaryToken .relation := ⟨t, op, hop, hsp⟩
    refine .advance hw ht fun hw => ?_
    refine hs.bind hw (fun d => ⟨.relation left o d, ?_⟩) fun right r hr hw => ?_
    · simp [o]
    refine .pure (.relation left o right) rfl ?_ ?_
    · simp only [Derivation.depth]; omega
    · simpa [o] using hw

theorem follows_expression (hd : DownFollows b down) :
    Follows (.phrase .conditional) b (expression down) := fun p =>
  .current (.refl p) ⟨default, by simp⟩ fun t _ _ => hd .expression t p

theorem follows_conditional (hd : DownFollows b down)
    (hs : Follows (.phrase .disjunction) (b + 1) (Parser.disjunction down)) :
    Follows (.phrase .conditional) (b + 1) (Parser.conditional down) := by
  intro p
  refine hs.bind (.refl p) (fun d => ⟨.pass rfl d, List.prefix_rfl⟩) fun test q ht hw => ?_
  refine .current hw ⟨.pass rfl test, List.prefix_rfl⟩ fun t ts htok => ?_
  split
  case isFalse => exact .pure (.pass rfl test) rfl ht hw
  case isTrue hk =>
    let question : Terminal .question := ⟨t, hk⟩
    refine .advance hw htok fun hw => ?_
    refine hs.bind hw (fun d => ⟨.conditional test question d default default, ?_⟩)
      fun accept r ha hw => ?_
    · simp [question]
    refine .current hw ⟨.conditional test question accept default default, ?_⟩ fun t ts htok => ?_
    · simp [question]
    split
    case isFalse =>
      refine .throw hw ⟨.conditional test question accept default default, ?_⟩
      simp [question]
    case isTrue hk =>
      let colon : Terminal .colon := ⟨t, hk⟩
      refine .advance hw htok fun hw => ?_
      refine (follows_expression hd).bind hw
        (fun d => ⟨.conditional test question accept colon d, ?_⟩) fun reject u hr hw => ?_
      · simp [question, colon]
      refine .pure (.conditional test question accept colon reject) rfl ?_ ?_
      · simp only [Derivation.depth]; omega
      · simpa [question, colon] using hw

theorem follows_separated (hd : DownFollows b down) (n : Nat) :
    Follows .moreArguments (b + 1)
      (do let more ← sections separator? (expression down) n; pure (operands more)) := by
  induction n with
  | zero =>
    intro p
    simp only [sections, bind_assoc]
    refine .current (.refl p) ⟨.noMore, by simp⟩ fun t ts _ => ?_
    exact .pure .noMore rfl (by simp) (.refl p)
  | succ n ih =>
    intro p
    simp only [sections, bind_assoc]
    refine .current (.refl p) ⟨.noMore, by simp⟩ fun t ts ht => ?_
    split
    case h_1 => exact .pure .noMore rfl (by simp) (.refl p)
    case h_2 op h =>
      let comma : Terminal .comma := ⟨t, kind_eq_of_separator? h⟩
      simp only [bind_assoc, pure_bind]
      refine .advance (.refl p) ht fun hw => ?_
      refine (follows_expression hd).bind hw (fun d => ⟨.another comma d .noMore, ?_⟩)
        fun d q hd hw => ?_
      · simp [comma]
      have : (do let more ← sections separator? (expression down) n
                 pure (operands ((op, t, d.tree) :: more))) =
          (do let more ← sections separator? (expression down) n; pure (operands more)) >>=
            fun es => pure (d.tree :: es) := by
        simp only [bind_assoc, pure_bind]; rfl
      rw [this]
      refine ih.bind hw (fun more => ⟨.another comma d more, ?_⟩) fun more r hm hw => ?_
      · simp [comma]
      refine .pure (.another comma d more) rfl ?_ ?_
      · simp only [Derivation.depth]; omega
      · simpa [comma] using hw

theorem follows_moreArguments (hd : DownFollows b down) :
    Follows .moreArguments (b + 1) (Symbol.parser down .moreArguments) := by
  intro p
  simp only [Symbol.parser, chain, bind_assoc]
  refine .current (.refl p) ⟨.noMore, by simp⟩ fun t ts _ => ?_
  split
  case h_1 => exact .pure .noMore rfl (by simp) (.refl p)
  case h_2 => exact follows_separated hd p.rest.length p

theorem follows_arguments (hd : DownFollows b down) :
    Follows .arguments (b + 1) (arguments down) := by
  intro p
  rw [arguments_eq]
  refine .current (.refl p) ⟨.noArguments, by simp⟩ fun t ts _ => ?_
  split
  case isTrue => exact .pure .noArguments rfl (by simp) (.refl p)
  case isFalse =>
    refine (follows_expression hd).bind (.refl p) (fun d => ⟨.someArguments d .noMore, ?_⟩)
      fun first q hf hw => ?_
    · simp
    refine (follows_moreArguments hd).bind hw (fun more => ⟨.someArguments first more, ?_⟩)
      fun more r hm hw => ?_
    · simp
    refine .pure (.someArguments first more) rfl ?_ ?_
    · simp only [Derivation.depth]; omega
    · simpa using hw

theorem outcome_parenthesised (hd : DownFollows b down) (opening : Terminal .leftParen)
    (hw : p.Passes [opening.token] q) :
    Outcome (.phrase .operand) (b + 1) p (parenthesised down opening.token q) := by
  refine (follows_expression hd).bind hw (fun d => ⟨.group opening d default, ?_⟩)
    fun inner r hi hw => ?_
  · simp
  refine .current hw ⟨.group opening inner default, by simp⟩ fun t ts ht => ?_
  split
  case isTrue hk =>
    refine .advance hw ht fun hw => ?_
    refine .pure (.group opening inner ⟨t, hk⟩) rfl ?_ ?_
    · simp only [Derivation.depth]; omega
    · simpa using hw
  case isFalse => exact .throw hw ⟨.group opening inner default, by simp⟩

theorem outcome_call (hd : DownFollows b down) (name : Terminal .identifier)
    (opening : Terminal .leftParen) (hw : p.Passes [name.token, opening.token] q) :
    Outcome (.phrase .operand) (b + 1) p (call down name.token q) := by
  refine (follows_arguments hd).bind hw (fun d => ⟨.call name opening d default, ?_⟩)
    fun args r ha hw => ?_
  · simp
  refine .current hw ⟨.call name opening args default, by simp⟩
    fun t ts ht => ?_
  split
  case isTrue hk =>
    refine .advance hw ht fun hw => ?_
    refine .pure (.call name opening args ⟨t, hk⟩) rfl ?_ ?_
    · simp only [Derivation.depth]; omega
    · simpa using hw
  case isFalse => exact .throw hw ⟨.call name opening args default, by simp⟩

theorem outcome_named (hd : DownFollows b down) (name : Terminal .identifier)
    (hw : p.Passes [name.token] q) :
    Outcome (.phrase .operand) (b + 1) p (named down name.token q) := by
  refine .current hw ⟨.name name, List.prefix_rfl⟩ fun t ts ht => ?_
  split
  case isTrue hk => exact .advance hw ht fun hw => outcome_call hd name ⟨t, hk⟩ hw
  case isFalse => exact .pure (.name name) rfl (by simp) hw

theorem follows_operand (hd : DownFollows b down) :
    Follows (.phrase .operand) (b + 1) (operand down) := by
  intro p
  refine .current (.refl p) ⟨default, by simp⟩ fun t ts ht => ?_
  cases hk : t.kind
  case identifier => exact .advance (.refl p) ht fun hw => outcome_named hd ⟨t, hk⟩ hw
  case leftParen => exact .advance (.refl p) ht fun hw => outcome_parenthesised hd ⟨t, hk⟩ hw
  case number =>
    exact .advance (.refl p) ht fun hw =>
      .pure (.number ⟨t, hk⟩) rfl (by simp) hw
  case string =>
    exact .advance (.refl p) ht fun hw =>
      .pure (.string ⟨t, hk⟩) rfl (by simp) hw
  case wordTrue =>
    exact .advance (.refl p) ht fun hw =>
      .pure (.wordTrue ⟨t, hk⟩) rfl (by simp) hw
  case wordFalse =>
    exact .advance (.refl p) ht fun hw =>
      .pure (.wordFalse ⟨t, hk⟩) rfl (by simp) hw
  all_goals exact .throw (.refl p) ⟨default, by simp⟩

theorem follows_level (hd : DownFollows b down) (l : Level) :
    Follows (.phrase l) (b + 1) (l.parser down) := by
  induction l using Level.ascend with
  | operand => exact follows_operand hd
  | chained l hl ih => exact follows_chained hl ih
  | unary op ih => exact follows_unary op hd ih
  | relation ih => exact follows_relation ih
  | conditional ih => exact follows_conditional hd ih

end

theorem downFollows_nested (limit : Int) (left : Nat) : DownFollows left (nested limit left) := by
  induction left with
  | zero => exact fun entry t p => .throw (w := []) ⟨rfl, rfl⟩ ⟨default, List.nil_prefix⟩
  | succ left ih =>
    intro entry t p
    have hb : Follows (.phrase entry.level) (left + 1) (body (nested limit left) entry) := by
      cases entry <;> exact follows_level ih _
    refine hb.bind (w := []) ⟨rfl, rfl⟩ (fun d => ⟨d, List.prefix_rfl⟩) fun d q hd hw => ?_
    exact .pure d rfl hd ⟨hw.rest_eq, hw.position_eq⟩

end Grammar

end Formulae
