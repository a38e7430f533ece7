import Formulae.Expr
import Formulae.Token
import Mathlib.Data.List.Forall2

namespace Formulae

structure Token.Alike (R : Location → Location → Prop) (t u : Token) : Prop where
  kind_eq : t.kind = u.kind
  lexeme_eq : t.lexeme = u.lexeme
  location : R t.location u.location

namespace Expr

mutual

def unplaced : Expr → Expr
  | .number text _ => .number text .nowhere
  | .string text _ => .string text .nowhere
  | .boolean value _ => .boolean value .nowhere
  | .identifier name _ => .identifier name .nowhere
  | .unary op operand _ => .unary op operand.unplaced .nowhere
  | .binary op left right _ => .binary op left.unplaced right.unplaced .nowhere
  | .conditional test accept reject _ =>
    .conditional test.unplaced accept.unplaced reject.unplaced .nowhere
  | .call callee arguments _ => .call callee.unplaced (unplacedAll arguments) .nowhere
  | .extension name _ => .extension name .nowhere

def unplacedAll : List Expr → List Expr
  | [] => []
  | e :: es => e.unplaced :: unplacedAll es

end

mutual

theorem same_iff : (e f : Expr) → (e.same f ↔ e.unplaced = f.unplaced)
  | .number .., f => by cases f <;> simp [same, unplaced]
  | .string .., f => by cases f <;> simp [same, unplaced]
  | .boolean .., f => by cases f <;> simp [same, unplaced]
  | .identifier .., f => by cases f <;> simp [same, unplaced]
  | .extension .., f => by cases f <;> simp [same, unplaced]
  | .unary op operand _, f => by
    cases f with
    | unary op' operand' => simp [same, unplaced, same_iff operand operand']
    | _ => simp [same, unplaced]
  | .binary op left right _, f => by
    cases f with
    | binary op' left' right' =>
      simp [same, unplaced, same_iff left left', same_iff right right', and_assoc, and_left_comm]
    | _ => simp [same, unplaced]
  | .conditional test accept reject _, f => by
    cases f with
    | conditional test' accept' reject' =>
      simp [same, unplaced, same_iff test test', same_iff accept accept', same_iff reject reject',
        and_assoc]
    | _ => simp [same, unplaced]
  | .call callee args _, f => by
    cases f with
    | call callee' args' =>
      simp [same, unplaced, same_iff callee callee', sameAll_iff args args']
    | _ => simp [same, unplaced]

theorem sameAll_iff : (es fs : List Expr) → (sameAll es fs ↔ unplacedAll es = unplacedAll fs)
  | [], fs => by cases fs <;> simp [sameAll, unplacedAll]
  | e :: es, fs => by
    cases fs with
    | nil => simp [sameAll, unplacedAll]
    | cons f fs => simp [sameAll, unplacedAll, same_iff e f, sameAll_iff es fs]

end

/-- The same expression of the language at other places: what is called is a name, and there are no
extensions. -/
inductive Alike (R : Location → Location → Prop) : Expr → Expr → Prop
  | number (h : R l m) : Alike R (.number text l) (.number text m)
  | string (h : R l m) : Alike R (.string text l) (.string text m)
  | boolean (h : R l m) : Alike R (.boolean b l) (.boolean b m)
  | identifier (h : R l m) : Alike R (.identifier name l) (.identifier name m)
  | unary (h : R l m) (ho : Alike R e f) : Alike R (.unary op e l) (.unary op f m)
  | binary (h : R l m) (hl : Alike R e f) (hr : Alike R e' f') :
      Alike R (.binary op e e' l) (.binary op f f' m)
  | conditional (h : R l m) (ht : Alike R e f) (ha : Alike R e' f') (hr : Alike R e'' f'') :
      Alike R (.conditional e e' e'' l) (.conditional f f' f'' m)
  | call (h : R l m) (hn : R l' m') (ha : List.Forall₂ (Alike R) es fs) :
      Alike R (.call (.identifier name l') es l) (.call (.identifier name m') fs m)

variable {R : Location → Location → Prop}

theorem Alike.location {e f : Expr} (h : Alike R e f) : R e.location f.location := by
  cases h <;> assumption

mutual

theorem unplaced_eq_of_alike : (e : Expr) → Alike R e f → e.unplaced = f.unplaced
  | .number .., .number _ | .string .., .string _ | .boolean .., .boolean _
  | .identifier .., .identifier _ => rfl
  | .unary _ e _, .unary _ ho => by simp only [unplaced, unplaced_eq_of_alike e ho]
  | .binary _ e e' _, .binary _ hl hr => by
    simp only [unplaced, unplaced_eq_of_alike e hl, unplaced_eq_of_alike e' hr]
  | .conditional e e' e'' _, .conditional _ ht ha hr => by
    simp only [unplaced, unplaced_eq_of_alike e ht, unplaced_eq_of_alike e' ha,
      unplaced_eq_of_alike e'' hr]
  | .call _ es _, .call _ _ ha => by simp only [unplaced, unplacedAll_eq_of_alike es ha]

theorem unplacedAll_eq_of_alike : (es : List Expr) → List.Forall₂ (Alike R) es fs →
    unplacedAll es = unplacedAll fs
  | [], .nil => rfl
  | e :: es, .cons h hs => by
    simp only [unplacedAll, unplaced_eq_of_alike e h, unplacedAll_eq_of_alike es hs]

end

end Expr

end Formulae
