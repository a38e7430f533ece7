import Formulae.Proofs.Lexing.Spacing
import Formulae.Proofs.Parsing.Layout
import Formulae.Proofs.Parsing.Phrases
import Formulae.Proofs.WellFormed

namespace Formulae

open Token (Kind)
open Grammar (Phrase Listing)

def BinaryOp.kind : BinaryOp → Kind
  | .arithmetic .add => .plus
  | .arithmetic .subtract => .minus
  | .arithmetic .multiply => .star
  | .arithmetic .divide => .slash
  | .arithmetic .remainder => .percent
  | .arithmetic .power => .caret
  | .comparison .equal => .equalEqual
  | .comparison .notEqual => .bangEqual
  | .comparison .less => .less
  | .comparison .lessEqual => .lessEqual
  | .comparison .greater => .greater
  | .comparison .greaterEqual => .greaterEqual
  | .logic .and => .wordAnd
  | .logic .or => .wordOr

def UnaryOp.kind : UnaryOp → Kind
  | .plus => .plus
  | .minus => .minus
  | .not => .wordNot

theorem BinaryOp.spelling_kind (op : BinaryOp) : op.kind.spelling = op.symbol := by
  rcases op with op | op | op <;> cases op <;> rfl

theorem UnaryOp.spelling_kind (op : UnaryOp) : op.kind.spelling = op.symbol := by
  cases op <;> rfl

def Token.mark (k : Kind) : Token := ⟨k, k.spelling, 1, 1⟩

def Token.last : Token := ⟨.endOfInput, "", 1, 1⟩

open Token (mark)

namespace Expr

def wrapped (w : List Token) : List Token := mark .leftParen :: (w ++ [mark .rightParen])

mutual

def tokens : Expr → List Token
  | .number text _ => [⟨.number, text, 1, 1⟩]
  | .string text _ => [⟨.string, text, 1, 1⟩]
  | .boolean value _ => [mark (if value then .wordTrue else .wordFalse)]
  | .identifier name _ => [⟨.identifier, name, 1, 1⟩]
  | .unary op operand _ => wrapped (mark op.kind :: operand.tokens)
  | .binary op left right _ => wrapped (left.tokens ++ mark op.kind :: right.tokens)
  | .conditional test accept reject _ =>
    wrapped (test.tokens ++ mark .question :: (accept.tokens ++ mark .colon :: reject.tokens))
  | .call callee arguments _ => callee.tokens ++ wrapped (argumentTokens arguments)
  | .extension .. => []

def argumentTokens : List Expr → List Token
  | [] => []
  | e :: es => e.tokens ++ moreTokens es

def moreTokens : List Expr → List Token
  | [] => []
  | e :: es => mark .comma :: (e.tokens ++ moreTokens es)

end

/-- The text of an expression in infix notation, with parentheses around each operation and a blank
behind each token. -/
def render (e : Expr) : String :=
  String.ofList (e.tokens.flatMap fun t => t.lexeme.toList ++ [' '])

abbrev Lexemes (w : List Token) : Prop := ∀ t ∈ w, t.lexeme.toList ∈ Lexeme.language t.kind

structure Renders (w : List Token) (e : Expr) : Prop where
  lexemes : Lexemes w
  phrase : ∃ e' n, Phrase .operand w e' n ∧ e'.unplaced = e.unplaced

structure RendersAll (w : List Token) (es : List Expr) : Prop where
  lexemes : Lexemes w
  listing : ∃ es' n, Listing w es' n ∧ unplacedAll es' = unplacedAll es

theorem lexemes_wrapped (h : Lexemes w) : Lexemes (wrapped w) := by
  refine List.forall_mem_cons.2 ⟨rfl, List.forall_mem_append.2 ⟨h, ?_⟩⟩
  exact List.forall_mem_singleton.2 rfl

theorem lexeme_binaryOp (op : BinaryOp) :
    (mark op.kind).lexeme.toList ∈ Lexeme.language (mark op.kind).kind := by
  rcases op with op | op | op <;> cases op <;> rfl

theorem lexeme_unaryOp (op : UnaryOp) :
    (mark op.kind).lexeme.toList ∈ Lexeme.language (mark op.kind).kind := by
  cases op <;> rfl

namespace Renders

variable {w v u : List Token} {e f g : Expr}

theorem wrap (hw : Lexemes w) (h : Phrase l w e' n) (he : e'.unplaced = e.unplaced) :
    Renders (wrapped w) e :=
  ⟨lexemes_wrapped hw, e', n + 1, .group rfl h rfl, he⟩

theorem number (h : text.toList ∈ Lexeme.language .number) :
    Renders [⟨.number, text, 1, 1⟩] (.number text l) :=
  ⟨List.forall_mem_singleton.2 h, _, 0, .number rfl, rfl⟩

theorem string (h : text.toList ∈ Lexeme.language .string) :
    Renders [⟨.string, text, 1, 1⟩] (.string text l) :=
  ⟨List.forall_mem_singleton.2 h, _, 0, .string rfl, rfl⟩

theorem identifier (h : name.toList ∈ Lexeme.language .identifier) :
    Renders [⟨.identifier, name, 1, 1⟩] (.identifier name l) :=
  ⟨List.forall_mem_singleton.2 h, _, 0, .identifier rfl, rfl⟩

theorem boolean (value : Bool) :
    Renders [mark (if value then .wordTrue else .wordFalse)] (.boolean value l) := by
  cases value
  · exact ⟨List.forall_mem_singleton.2 rfl, _, 0, .wordFalse rfl, rfl⟩
  · exact ⟨List.forall_mem_singleton.2 rfl, _, 0, .boolean rfl, rfl⟩

theorem unary (op : UnaryOp) (h : Renders w e) :
    Renders (wrapped (mark op.kind :: w)) (.unary op e l) := by
  obtain ⟨e', n, hp, he⟩ := h.phrase
  refine wrap (List.forall_mem_cons.2 ⟨lexeme_unaryOp op, h.lexemes⟩)
    (.unary ⟨mark op.kind, op, rfl, op.spelling_kind⟩ (hp.lift _)) ?_
  simp only [unplaced, he]

theorem binary (op : BinaryOp) (h : Renders w e) (h' : Renders v f) :
    Renders (wrapped (w ++ mark op.kind :: v)) (.binary op e f l) := by
  obtain ⟨e', n, hp, he⟩ := h.phrase
  obtain ⟨f', m, hp', hf⟩ := h'.phrase
  have hl := (hp.mono (Nat.le_max_left n m)).lift op.level.next
  have hr := (hp'.mono (Nat.le_max_right n m)).lift op.level.next
  refine wrap (List.forall_mem_append.2 ⟨h.lexemes, List.forall_mem_cons.2
    ⟨lexeme_binaryOp op, h'.lexemes⟩⟩)
    (.operation ⟨mark op.kind, op, rfl, op.spelling_kind⟩ hl hr) ?_
  simp only [unplaced, he, hf]

theorem conditional (h : Renders w e) (h' : Renders v f) (h'' : Renders u g) :
    Renders (wrapped (w ++ mark .question :: (v ++ mark .colon :: u)))
      (.conditional e f g l) := by
  obtain ⟨e', n, hp, he⟩ := h.phrase
  obtain ⟨f', m, hp', hf⟩ := h'.phrase
  obtain ⟨g', k, hp'', hg⟩ := h''.phrase
  have ht := (hp.mono (show n ≤ n + m + k + 1 by omega)).lift .disjunction
  have ha := (hp'.mono (show m ≤ n + m + k + 1 by omega)).lift .disjunction
  have hr := (hp''.mono (show k ≤ n + m + k by omega)).lift .conditional
  refine wrap (List.forall_mem_append.2 ⟨h.lexemes, List.forall_mem_cons.2 ⟨rfl,
    List.forall_mem_append.2 ⟨h'.lexemes, List.forall_mem_cons.2 ⟨rfl, h''.lexemes⟩⟩⟩⟩)
    (.conditional ht rfl ha rfl hr) ?_
  simp only [unplaced, he, hf, hg]

theorem callNone (hn : name.toList ∈ Lexeme.language .identifier) :
    Renders (⟨.identifier, name, 1, 1⟩ :: wrapped []) (.call (.identifier name m) [] l) :=
  ⟨List.forall_mem_cons.2 ⟨hn, lexemes_wrapped (List.forall_mem_nil _)⟩, _, 0,
    .callNone rfl rfl rfl, rfl⟩

theorem callSome (hn : name.toList ∈ Lexeme.language .identifier) (h : Renders w e)
    (hs : RendersAll v es) :
    Renders (⟨.identifier, name, 1, 1⟩ :: wrapped (w ++ v))
      (.call (.identifier name m) (e :: es) l) := by
  obtain ⟨e', n, hp, he⟩ := h.phrase
  obtain ⟨es', k, hm, hes⟩ := hs.listing
  refine ⟨List.forall_mem_cons.2 ⟨hn, lexemes_wrapped (List.forall_mem_append.2
    ⟨h.lexemes, hs.lexemes⟩)⟩, _, _, .callSome rfl rfl rfl hp.outer hm, ?_⟩
  simp only [unplaced, unplacedAll, he, hes]

end Renders

mutual

theorem renders_tokens : (e : Expr) → e.WellFormed → Renders e.tokens e
  | .number _ _, h => .number h.written
  | .string _ _, h => .string h.written
  | .boolean value _, _ => .boolean value
  | .identifier _ _, h => .identifier h.written
  | .unary op operand _, h => .unary op (renders_tokens operand (WellFormed.unary_iff.1 h))
  | .binary op left right _, h =>
    have h := WellFormed.binary_iff.1 h
    .binary op (renders_tokens left h.1) (renders_tokens right h.2)
  | .conditional test accept reject _, h =>
    have h := WellFormed.conditional_iff.1 h
    .conditional (renders_tokens test h.1) (renders_tokens accept h.2.1)
      (renders_tokens reject h.2.2)
  | .call callee args _, h => by
    obtain ⟨⟨name, m, rfl⟩, hn, ha⟩ := WellFormed.call_iff.1 h
    cases args with
    | nil => exact .callNone hn.written
    | cons e es =>
      rw [nodesAll, List.forall_mem_append] at ha
      exact .callSome hn.written (renders_tokens e ha.1) (rendersAll_moreTokens es ha.2)
  | .extension _ _, h => h.written.elim

theorem rendersAll_moreTokens : (es : List Expr) → (∀ n ∈ nodesAll es, n.Written) →
    RendersAll (moreTokens es) es
  | [], _ => ⟨List.forall_mem_nil _, _, 0, .nil, rfl⟩
  | e :: es, h => by
    rw [nodesAll, List.forall_mem_append] at h
    have he := renders_tokens e h.1
    have hes := rendersAll_moreTokens es h.2
    obtain ⟨e', n, hp, he'⟩ := he.phrase
    obtain ⟨es', k, hm, hes'⟩ := hes.listing
    refine ⟨List.forall_mem_cons.2 ⟨rfl, List.forall_mem_append.2 ⟨he.lexemes, hes.lexemes⟩⟩,
      _, _, .cons rfl hp.outer hm, ?_⟩
    simp only [unplacedAll, he', hes']

end

end Expr

namespace Session

open Formulae.Expr

theorem lex_render {e : Expr} (h : Lexemes e.tokens) :
    ∃ tokens, lex e.render = .ok tokens ∧
      List.Forall₂ (Token.Alike fun _ _ => True) (e.tokens ++ [Token.last]) tokens := by
  have hp : ∀ p ∈ e.tokens.map fun t => (t.kind, t.lexeme.toList),
      p.2 ∈ Lexeme.language p.1 := List.forall_mem_map.2 h
  obtain ⟨tokens, hlex, ht⟩ := lex_spaced hp
  rw [List.flatMap_map] at hlex
  refine ⟨tokens, hlex, ?_⟩
  have hs : (e.tokens ++ [Token.last]).map (fun t => (t.kind, t.lexeme.toList)) =
      tokens.map fun t => (t.kind, t.lexeme.toList) := by
    rw [ht, List.map_append]
    rfl
  rw [← List.forall₂_eq_eq_eq, List.forall₂_map_left_iff, List.forall₂_map_right_iff] at hs
  refine hs.imp fun t u h => ⟨congrArg Prod.fst h, ?_, trivial⟩
  exact String.toList_inj.1 (congrArg Prod.snd h)

/-- A session can read every well-formed expression, if its limit is large enough for it, and what
it reads is well-formed, whatever the text and its limit. -/
theorem parses_exactly_wellFormed :
    (∀ e : Expr, e.WellFormed → ∃ limit : Int, ∀ s : Session, limit ≤ s.maxParseDepth →
      ∃ e', (s.parse e.render).outcome.1 = .ok e' ∧ e'.same e) ∧
    ∀ (s : Session) (text : String) (e : Expr), (s.parse text).outcome.1 = .ok e →
      e.WellFormed := by
  refine ⟨fun e h => ?_, fun s text e h => wellFormed_of_parse h⟩
  have hr := renders_tokens e h
  obtain ⟨f, n, hp, hf⟩ := hr.phrase
  obtain ⟨d, hw, ht, hd⟩ := hp.outer
  obtain ⟨tokens, hlex, halike⟩ := lex_render hr.lexemes
  refine ⟨n + 1, fun s hs => ?_⟩
  have hparse : Formulae.parse s.maxParseDepth (e.tokens ++ [Token.last]) = .ok f := by
    rw [← hw, ← ht]
    exact parse_word (by omega) rfl []
  have ha := parse_alike halike s.maxParseDepth
  rw [hparse] at ha
  generalize hq : Formulae.parse s.maxParseDepth tokens = r at ha
  cases ha with
  | @ok _ e' he =>
    refine ⟨e', parse_eq_ok_iff.2 ⟨tokens, hlex, hq⟩, (same_iff e' e).2 ?_⟩
    rw [← unplaced_eq_of_alike f he, hf]

/-- `f(1 < x ? -"a (b" : not true, y)` -/
theorem parses_exactly_wellFormed_of_call :
    let l : Location := .nowhere
    let e : Expr := .call (.identifier "f" l)
      [.conditional (.binary (.comparison .less) (.number "1" l) (.identifier "x" l) l)
        (.unary .minus (.string "\"a (b\"" l) l) (.unary .not (.boolean true l) l) l,
        .identifier "y" l] l
    e.WellFormed ∧ e.render = "f ( ( ( 1 < x ) ? ( - \"a (b\" ) : ( not true ) ) , y ) " ∧
      ∃ limit : Int, ∀ s : Session, limit ≤ s.maxParseDepth →
        ∃ e', (s.parse e.render).outcome.1 = .ok e' ∧ e'.same e := by
  intro l e
  have he : e.WellFormed := by
    have hone : (number "1" l).WellFormed := .leaf rfl (Lexeme.mem_language_of_taken rfl)
    have hx : (identifier "x" l).WellFormed := .leaf rfl (Lexeme.mem_language_of_taken rfl)
    have hs : (string "\"a (b\"" l).WellFormed := .leaf rfl (Lexeme.mem_language_of_taken rfl)
    have htrue : (boolean true l).WellFormed := .leaf rfl trivial
    have hf : (identifier "f" l).WellFormed := .leaf rfl (Lexeme.mem_language_of_taken rfl)
    have hy : (identifier "y" l).WellFormed := .leaf rfl (Lexeme.mem_language_of_taken rfl)
    refine WellFormed.call_iff.2 ⟨⟨_, _, rfl⟩, hf, List.forall_mem_append.2 ⟨?_, hy⟩⟩
    exact WellFormed.conditional_iff.2 ⟨WellFormed.binary_iff.2 ⟨hone, hx⟩,
      WellFormed.unary_iff.2 hs, WellFormed.unary_iff.2 htrue⟩
  exact ⟨he, rfl, parses_exactly_wellFormed.1 e he⟩

end Session

end Formulae
