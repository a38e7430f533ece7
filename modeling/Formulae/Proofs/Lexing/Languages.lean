import Formulae.Lexeme
import Mathlib.Computability.Language

/-!
The languages of the kinds of tokens, and how the longest word at the front of a text is found: by
the longest word of each part, if no part could go on with the parts behind it.
-/

namespace Formulae

namespace Lexeme

open Token (Kind)

def blanks : List Char := [' ', '\t', '\r', '\n']

def digits : Language Char := {w | w ≠ [] ∧ ∀ c ∈ w, c.isDigit}

def fraction : Language Char := {['.']} * digits

def mark : Language Char := {['e'], ['E']}

def sign : Language Char := {['+'], ['-']}

def exponent : Language Char := mark * (1 + sign) * digits

def number : Language Char := digits * (1 + fraction) * (1 + exponent)

def quote : Language Char := {['"']}

def unquoted : Language Char := {w | '"' ∉ w}

def string : Language Char := quote * unquoted * quote

def word : Language Char := {w | ∃ c cs, w = c :: cs ∧ c.isAlpha ∧ ∀ d ∈ cs, d.isAlphanum}

def keywords : List Kind := [.wordOr, .wordAnd, .wordNot, .wordTrue, .wordFalse]

/-- The lexemes of a kind. All but three kinds have one at most. -/
def language : Kind → Language Char
  | .number => number
  | .string => string
  | .identifier => {w ∈ word | ∀ k ∈ keywords, w ≠ k.spelling.toList}
  | .endOfInput => 0
  | k => {k.spelling.toList}

structure Longest (k : Kind) (w cs : List Char) : Prop where
  front : w <+: cs
  mem : w ∈ language k
  length_le : ∀ k' w', w' <+: cs → w' ∈ language k' → w'.length ≤ w.length

/-- A count of the characters of the longest word at the front of any text. -/
structure Greedy (L : Language Char) (extent : List Char → Nat) : Prop where
  le_length : ∀ cs, extent cs ≤ cs.length
  mem : ∀ cs : List Char, cs.take (extent cs) ∈ L
  length_le : ∀ w ∈ L, ∀ v, w.length ≤ extent (w ++ v)

theorem Greedy.eq_length {L : Language Char} (h : Greedy L n) (hw : w ∈ L) : n w = w.length := by
  have hl := h.length_le w hw []
  rw [List.append_nil] at hl
  exact Nat.le_antisymm (h.le_length w) hl

theorem Greedy.mul {L M : Language Char} {n m : List Char → Nat} (hL : Greedy L n) (hM : Greedy M m)
    (hn : ∀ w ∈ L, ∀ u ∈ M, u ≠ [] → ∀ v, n (w ++ (u ++ v)) = w.length) :
    Greedy (L * M) fun cs => n cs + m (cs.drop (n cs)) where
  le_length cs := by
    have h := hL.le_length cs
    have h' := hM.le_length (cs.drop (n cs))
    rw [List.length_drop] at h'
    omega
  mem cs := by
    rw [List.take_add]
    exact Language.append_mem_mul (hL.mem cs) (hM.mem _)
  length_le := by
    intro w hw v
    obtain ⟨a, ha, b, hb, rfl⟩ := Language.mem_mul.1 hw
    rw [List.append_assoc, List.length_append]
    rcases eq_or_ne b [] with rfl | hb0
    · exact Nat.le_trans (hL.length_le a ha _) (Nat.le_add_right _ _)
    · rw [hn a ha b hb hb0, List.drop_left]
      exact Nat.add_le_add_left (hM.length_le b hb v) _

end Lexeme

end Formulae
