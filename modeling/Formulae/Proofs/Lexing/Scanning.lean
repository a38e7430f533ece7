import Formulae.Lexing
import Formulae.Proofs.Cursor
import Formulae.Proofs.Lexing.Extents

namespace Formulae.Token

open Lexeme (extent isBlank)

/-- The tokens of what a cursor has not passed. Its windows are the blanks and the lexemes, one in
each step. -/
def scan (line column : Nat) (c : Cursor Char) : Except LexError (List Token) :=
  match _h : c.peek 0 with
  | .ok (some char) =>
    let first := c.advance
    if char = '\n' then scan (line + 1) (0 + first.slice.length) first.commit
    else if isBlank char then scan line (column + first.slice.length) first.commit
    else
      match extent char first.rest with
      | .error stuck => .error (LexError.ofStuck char first.rest line column stuck)
      | .ok (kind, n) =>
        let last := Cursor.advance^[n] first
        match scan line (column + last.slice.length) last.commit with
        | .error e => .error e
        | .ok tokens => .ok (⟨kind, String.ofList last.slice, line, column⟩ :: tokens)
  | _ => .ok [⟨.endOfInput, "", line, column⟩]
termination_by c.rest.length
decreasing_by
  all_goals
    have hl := congrArg List.length (Cursor.rest_of_peek ‹_›)
    simp at hl ⊢
    omega

section

variable {c : Cursor Char} {kind : Kind} (h : c.InBounds) (hw : c.slice = [])
include h hw

theorem slice_first (hp : c.peek 0 = .ok (some char)) : c.advance.slice = [char] := by
  rw [h.slice_advance (Cursor.rest_of_peek hp), hw]
  rfl

theorem slice_lexeme (hp : c.peek 0 = .ok (some char)) (n : Nat) :
    (Cursor.advance^[n] c.advance).slice = char :: c.rest.tail.take n := by
  rw [h.advance.slice_iterate_advance, slice_first h hw hp, Cursor.rest_advance]
  rfl

theorem length_lexeme (hp : c.peek 0 = .ok (some char))
    (he : extent char c.rest.tail = .ok (kind, n)) :
    (Cursor.advance^[n] c.advance).slice.length = 1 + n := by
  rw [slice_lexeme h hw hp, List.length_cons, List.length_take,
    Nat.min_eq_left (Lexeme.mem_language_of_extent he).1, Nat.add_comm]

theorem scan_eq_listFrom (line column : Nat) :
    scan line column c = listFrom line column c.rest := by
  fun_induction scan line column c with
  | case1 line column c first hp ih =>
    rw [ih h.advance.commit (Cursor.slice_commit _), slice_first h hw hp, Cursor.rest_of_peek hp,
      listFrom, if_pos rfl, Cursor.rest_commit, Cursor.rest_advance]
    rfl
  | case2 line column c char hp first hn hb ih =>
    rw [ih h.advance.commit (Cursor.slice_commit _), slice_first h hw hp, Cursor.rest_of_peek hp,
      listFrom, if_neg hn, if_pos hb, Cursor.rest_commit, Cursor.rest_advance]
    rfl
  | case3 line column c char hp first hn hb stuck he =>
    rw [Cursor.rest_advance] at he
    rw [Cursor.rest_of_peek hp, listFrom, if_neg hn, if_neg hb, he, Cursor.rest_advance]
  | case4 line column c char hp first hn hb kind n he last e hs ih =>
    rw [Cursor.rest_advance] at he
    rw [ih (h.advance.iterate_advance n).commit (Cursor.slice_commit _), length_lexeme h hw hp he,
      Cursor.rest_commit, Cursor.rest_iterate_advance, Cursor.rest_advance, ← Nat.add_assoc] at hs
    rw [Cursor.rest_of_peek hp, listFrom, if_neg hn, if_neg hb, he]
    simp only [hs]
  | case5 line column c char hp first hn hb kind n he last tokens hs ih =>
    rw [Cursor.rest_advance] at he
    rw [ih (h.advance.iterate_advance n).commit (Cursor.slice_commit _), length_lexeme h hw hp he,
      Cursor.rest_commit, Cursor.rest_iterate_advance, Cursor.rest_advance, ← Nat.add_assoc] at hs
    rw [Cursor.rest_of_peek hp, listFrom, if_neg hn, if_neg hb, he, slice_lexeme h hw hp]
    simp only [hs]
  | case6 line column c hp =>
    rw [Cursor.rest_eq_nil hp, listFrom]

end

theorem lex_eq_scan (text : String) : lex text = scan 1 1 (.ofList text.toList) :=
  (scan_eq_listFrom (Cursor.inBounds_ofList text.toList) rfl 1 1).symm

/-- What the lexer does with its cursor for a lexeme of `n + 1` characters, or for a blank. -/
def pass (n : Nat) : List Cursor.Step :=
  .peek 0 :: .advance :: (List.replicate n .advance ++ [.slice, .commit])

theorem after_pass (c : Cursor Char) (n : Nat) (steps : List Cursor.Step) :
    c.after (pass n ++ steps) = (Cursor.advance^[n] c.advance).commit.after steps := by
  rw [Cursor.after_append, ← Cursor.after_advances]
  exact congrArg (·.after steps) (Cursor.after_append c.advance _ _)

theorem windows_pass (c : Cursor Char) (n : Nat) (steps : List Cursor.Step) :
    c.windows (pass n ++ steps) =
      (Cursor.advance^[n] c.advance).slice ::
        (Cursor.advance^[n] c.advance).commit.windows steps := by
  have h := Cursor.windows_append c.advance (List.replicate n .advance) (.slice :: .commit :: steps)
  rw [Cursor.windows_advances, Cursor.after_advances] at h
  rw [pass, List.cons_append, List.cons_append, List.append_assoc]
  exact h

theorem exists_windows_of_scan {line column : Nat} {c : Cursor Char} {tokens : List Token}
    (h : c.InBounds) (hw : c.slice = []) (hs : scan line column c = .ok tokens) : ∃ steps,
      (c.after steps).rest = [] ∧ (c.after steps).slice = [] ∧
        tokens.map lexeme =
          ((c.windows steps).filter (!·.all isBlank)).map String.ofList ++ [""] := by
  fun_induction scan line column c generalizing tokens
  case case1 hp ih =>
    obtain ⟨steps, hr, he, hl⟩ := ih h.advance.commit (Cursor.slice_commit _) hs
    refine ⟨pass 0 ++ steps, ?_⟩
    rw [after_pass, windows_pass, Function.iterate_zero_apply, slice_first h hw hp]
    exact ⟨hr, he, hl⟩
  case case2 hp _ _ hb ih =>
    obtain ⟨steps, hr, he, hl⟩ := ih h.advance.commit (Cursor.slice_commit _) hs
    refine ⟨pass 0 ++ steps, ?_⟩
    rw [after_pass, windows_pass, Function.iterate_zero_apply, slice_first h hw hp]
    exact ⟨hr, he, by simpa [hb] using hl⟩
  case case3 | case4 => cases hs
  case case5 hp _ _ hb _ n _ _ _ hs' ih =>
    obtain ⟨steps, hr, he, hl⟩ :=
      ih (h.advance.iterate_advance n).commit (Cursor.slice_commit _) hs'
    cases hs
    refine ⟨pass n ++ steps, ?_⟩
    rw [after_pass, windows_pass, List.filter_cons_of_pos (by simp [slice_lexeme h hw hp, hb])]
    exact ⟨hr, he, congrArg _ hl⟩
  case case6 hp =>
    cases hs
    exact ⟨[], Cursor.rest_eq_nil hp, hw, rfl⟩

/-- The windows that the lexer closes are together the text, and those that are not blank are the
lexemes. -/
theorem lex_windows {text : String} {tokens : List Token} (h : lex text = .ok tokens) :
    ∃ steps, let windows := (Cursor.ofList text.toList).windows steps
      windows.flatten = text.toList ∧
      tokens.map lexeme = (windows.filter (!·.all isBlank)).map String.ofList ++ [""] := by
  rw [lex_eq_scan] at h
  obtain ⟨steps, hr, hw, hl⟩ := exists_windows_of_scan (Cursor.inBounds_ofList _) rfl h
  refine ⟨steps, ?_, hl⟩
  have ht := (Cursor.Tracks.start text.toList).after steps
  have hf := ht.flatten_append_slice
  rw [hw, ht.toInBounds.position_eq_of_rest hr, ht.elements_eq, List.take_length] at hf
  rwa [List.append_nil, List.nil_append] at hf

end Formulae.Token
