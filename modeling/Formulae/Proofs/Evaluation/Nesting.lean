import Formulae.Proofs.Evaluation.Levels
import Formulae.Proofs.Parsing.Acceptance

/-!
How many levels a formula is evaluated on: at most nine for each level of its nesting, less two,
however long its chains are. A run adds one level to the highest of its operands, so each level of
the grammar adds one at most to the next tighter one.
-/

namespace Formulae

namespace Expr

def spine : Expr → Nat
  | .binary _ left right _ => max left.spine (right.levels + 1)
  | e => e.levels + 1

def tower : Expr → Nat
  | .binary (.arithmetic .power) left right _ => max (left.levels + 1) right.tower
  | e => e.levels + 1

theorem levels_leftRun (around : List (BinaryOp × Expr × Location)) (e : Expr) :
    max ((e.leftRun around).1.levels + 1) (levelsAround (e.leftRun around).2) =
      max e.spine (levelsAround around) := by
  fun_induction leftRun around e with
  | case1 around op left right l ih => rw [ih, levelsAround, spine, Nat.max_assoc]
  | case2 around e he => rw [spine]; exact he

theorem levels_powerRun (e : Expr) :
    max (levelsAll (e.powerRun.1.map Prod.fst)) (e.powerRun.2.levels + 1) = e.tower := by
  fun_induction powerRun e with
  | case1 left right l bases exponent h ih =>
    rw [h] at ih
    rw [List.map_cons, levelsAll, tower, ← ih, Nat.max_assoc]
  | case2 e he => rw [tower, List.map_nil, levelsAll, Nat.zero_max]; exact he

theorem levels_operation (hop : op ≠ .arithmetic .power) (left right : Expr) (l : Location) :
    (binary op left right l).levels = max left.spine (right.levels + 1) := by
  rw [levels_binary hop, levels_leftRun, levelsAround, levelsAround, Nat.max_zero]

theorem levels_power (left right : Expr) (l : Location) :
    (binary (.arithmetic .power) left right l).levels = max (left.levels + 1) right.tower := by
  rw [levels, levelsAll, Nat.max_assoc, levels_powerRun]

theorem levels_le_tower (e : Expr) : e.levels ≤ e.tower := by
  fun_cases tower e with
  | case1 left right l => exact Nat.le_of_eq (levels_power left right l)
  | case2 => exact Nat.le_succ _

theorem tower_le (e : Expr) : e.tower ≤ e.levels + 1 := by
  fun_cases tower e with
  | case1 left right l => rw [levels_power]; exact Nat.le_succ _
  | case2 => exact Nat.le_refl _

theorem spine_le (e : Expr) : e.spine ≤ e.levels + 1 := by
  fun_induction spine e with
  | case1 op left right l ih =>
    by_cases hop : op = .arithmetic .power
    · subst hop
      have := levels_le_tower right
      rw [levels_power]
      omega
    · rw [levels_operation hop]
      exact Nat.le_succ _
  | case2 => exact Nat.le_refl _

end Expr

namespace Grammar

theorem level_eq_power_iff (op : BinaryOp) : op.level = .power ↔ op = .arithmetic .power := by
  rcases op with op | op | op <;> cases op <;> simp [BinaryOp.level]

section

variable {first : Expr} {more : List (BinaryOp × Token × Expr)} {bound : Nat}

theorem levels_nestLeft_le (hl : first.levels ≤ bound + 1) (hs : first.spine ≤ bound + 1)
    (hm : ∀ s ∈ more, s.1 ≠ .arithmetic .power ∧ s.2.2.levels ≤ bound) :
    (nestLeft first more).levels ≤ bound + 1 := by
  induction more generalizing first with
  | nil => exact hl
  | cons s more ih =>
    obtain ⟨op, t, e⟩ := s
    obtain ⟨⟨hop, he⟩, hm⟩ := List.forall_mem_cons.1 hm
    have hb : (Expr.binary op first e t.location).spine ≤ bound + 1 :=
      Nat.max_le.2 ⟨hs, Nat.succ_le_succ he⟩
    exact ih (Expr.levels_operation hop first e t.location ▸ hb) hb hm

theorem tower_nestRight_le (hl : first.levels ≤ bound)
    (hm : ∀ s ∈ more, s.1 = .arithmetic .power ∧ s.2.2.levels ≤ bound) :
    (nestRight first more).tower ≤ bound + 1 := by
  induction more generalizing first with
  | nil => exact Nat.le_trans (Expr.tower_le first) (Nat.succ_le_succ hl)
  | cons s more ih =>
    obtain ⟨op, t, e⟩ := s
    obtain ⟨⟨rfl, he⟩, hs⟩ := List.forall_mem_cons.1 hm
    exact Nat.max_le.2 ⟨Nat.succ_le_succ hl, ih he hs⟩

theorem levels_nest_le (hl : first.levels ≤ bound)
    (hm : ∀ s ∈ more, s.1.level = l ∧ s.2.2.levels ≤ bound) :
    (l.nest first more).levels ≤ bound + 1 := by
  by_cases hp : l = .power
  · subst hp
    refine Nat.le_trans (Expr.levels_le_tower _) (tower_nestRight_le hl fun s hs => ?_)
    exact (hm s hs).imp_left (level_eq_power_iff s.1).1
  · have hn : l.nest = nestLeft := by
      cases l <;> first | rfl | exact absurd rfl hp
    rw [hn]
    refine levels_nestLeft_le (Nat.le_succ_of_le hl)
      (Nat.le_trans (Expr.spine_le first) (Nat.succ_le_succ hl)) fun s hs => ?_
    exact (hm s hs).imp_left fun h hop => hp (h.symm.trans ((level_eq_power_iff s.1).2 hop))

end

def Level.height : Level → Nat
  | .operand => 0
  | .power => 1
  | .signed => 1
  | .product => 2
  | .sum => 3
  | .relation => 4
  | .equality => 5
  | .negation => 5
  | .conjunction => 6
  | .disjunction => 7
  | .conditional => 8

/-- The levels that a phrase is evaluated on at most if it nests so deep. A conditional nests its
last branch, so there is none without nesting. -/
def Level.budget (l : Level) : Nat → Nat
  | 0 => min l.height 7
  | nesting + 1 => 9 * nesting + 8 + l.height

theorem Level.budget_chained {l : Level} (h : l.chained) (n : Nat) :
    l.next.budget n + 1 = l.budget n := by
  cases n <;> cases l <;> first | rfl | cases h

theorem Level.budget_next_le (l : Level) (n : Nat) : l.next.budget n ≤ l.budget n := by
  have hh : l.next.height ≤ l.height := by cases l <;> decide
  cases n <;> simp only [budget] <;> omega

theorem Level.budget_relation (n : Nat) : relation.budget n = sum.budget n + 1 := by
  cases n <;> rfl

theorem Level.budget_conditional (n : Nat) : conditional.budget n = 9 * n + 7 := by
  cases n <;> rfl

def Symbol.Within (n : Nat) : (σ : Symbol) → σ.Meaning → Prop
  | .phrase l, e => e.levels ≤ l.budget n
  | .sections l, more => ∀ s ∈ more, s.1.level = l ∧ s.2.2.levels ≤ l.next.budget n
  | .arguments, es => Expr.levelsAll es ≤ Level.operand.budget n
  | .moreArguments, es => Expr.levelsAll es ≤ Level.operand.budget n

theorem Level.budget_operand (n : Nat) : operand.budget (n + 1) = conditional.budget n + 1 := by
  rw [budget_conditional]
  rfl

theorem levelsAll_cons_le (he : e.levels ≤ Level.conditional.budget n)
    (hs : Expr.levelsAll es ≤ Level.operand.budget (n + 1)) :
    Expr.levelsAll (e :: es) ≤ Level.operand.budget (n + 1) := by
  rw [Expr.levelsAll]
  exact Nat.max_le.2 ⟨Level.budget_operand n ▸ Nat.succ_le_succ he, hs⟩

theorem Derivation.within (d : Derivation σ) (h : d.depth ≤ n) : σ.Within n d.tree := by
  induction d generalizing n with
  | pass _ inner ih => exact Nat.le_trans (ih h) (Level.budget_next_le _ n)
  | chain hc first more ihf ihm =>
    simp only [depth, Nat.max_le] at h
    rw [Symbol.Within, ← Level.budget_chained hc]
    exact levels_nest_le (ihf h.1) (ihm h.2)
  | noSections => exact List.forall_mem_nil _
  | oneMore op operand more iho ihm =>
    simp only [depth, Nat.max_le] at h
    exact List.forall_mem_cons.2 ⟨⟨op.level_eq, iho h.1⟩, ihm h.2⟩
  | conditional test question accept colon reject iht iha ihr =>
    simp only [depth, Nat.max_le] at h
    obtain ⟨ht, ha, hr⟩ := h
    obtain ⟨m, rfl⟩ : ∃ m, n = m + 1 := ⟨n - 1, by omega⟩
    have ht := iht ht
    have ha := iha ha
    have hr := ihr (Nat.le_of_succ_le_succ hr)
    simp only [Symbol.Within, Level.budget_conditional, tree, Expr.levels] at ht ha hr ⊢
    simp only [Level.budget, Level.height] at ht ha
    omega
  | relation left op right ihl ihr =>
    simp only [depth, Nat.max_le] at h
    rw [Symbol.Within, Level.budget_relation]
    have hm : ∀ s ∈ [(op.op, op.token, right.tree)], s.1.level = .relation ∧
        s.2.2.levels ≤ Level.sum.budget n :=
      List.forall_mem_singleton.2 ⟨op.level_eq, ihr h.2⟩
    exact levels_nest_le (ihl h.1) hm
  | @unary l op operand ih =>
    obtain ⟨m, rfl⟩ : ∃ m, n = m + 1 := ⟨n - 1, by simp only [depth] at h; omega⟩
    have ho := ih (Nat.le_of_succ_le_succ h)
    have hb : l.budget m + 1 ≤ l.budget (m + 1) := by
      cases m <;> simp only [Level.budget] <;> omega
    simp only [Symbol.Within, tree, Expr.levels]
    exact Nat.le_trans (Nat.succ_le_succ ho) hb
  | name t | number t | string t | wordTrue t | wordFalse t =>
    simp only [Symbol.Within, tree, Expr.levels]
    exact Nat.zero_le _
  | group opening inner closing ih =>
    obtain ⟨m, rfl⟩ : ∃ m, n = m + 1 := ⟨n - 1, by simp only [depth] at h; omega⟩
    rw [Symbol.Within, Level.budget_operand]
    exact Nat.le_succ_of_le (ih (Nat.le_of_succ_le_succ h))
  | call callee opening args closing ih => rw [Symbol.Within, tree, Expr.levels]; exact ih h
  | noArguments => simp only [Symbol.Within, tree, Expr.levelsAll]; exact Nat.zero_le _
  | someArguments first more ihf ihm =>
    simp only [depth, Nat.max_le] at h
    obtain ⟨m, rfl⟩ : ∃ m, n = m + 1 := ⟨n - 1, by omega⟩
    exact levelsAll_cons_le (ihf (Nat.le_of_succ_le_succ h.1)) (ihm h.2)
  | noMore => simp only [Symbol.Within, tree, Expr.levelsAll]; exact Nat.zero_le _
  | another comma argument more iha ihm =>
    simp only [depth, Nat.max_le] at h
    obtain ⟨m, rfl⟩ : ∃ m, n = m + 1 := ⟨n - 1, by omega⟩
    exact levelsAll_cons_le (iha (Nat.le_of_succ_le_succ h.1)) (ihm h.2)

end Grammar

theorem levels_of_parse {limit : Int} (h : parse limit tokens = .ok e) :
    (e.levels : Int) + 2 ≤ 9 * limit := by
  obtain ⟨d, last, rest, rfl, -, rfl, hd⟩ := derivation_of_parse h
  have hw : d.tree.levels ≤ Grammar.Level.budget .conditional d.depth := d.within (Nat.le_refl _)
  rw [Grammar.Level.budget_conditional] at hw
  omega

end Formulae
