import Formulae.Proofs.Lexing.Places

namespace Formulae

open Token (Kind)

def Location.below (n : Nat) (l : Location) : Location := { l with line := l.line.map (· + n) }

def Token.below (n : Nat) (t : Token) : Token := { t with line := t.line + n }

def LexError.below (n : Nat) : LexError → LexError
  | .unterminatedString start line column => .unterminatedString start (line + n) column
  | .unknownCharacter c line column => .unknownCharacter c (line + n) column

theorem LexError.toDiagnostic_below (n : Nat) (e : LexError) :
    (e.below n).toDiagnostic =
      { e.toDiagnostic with location := e.toDiagnostic.location.below n } := by
  cases e with
  | unterminatedString => rfl
  | unknownCharacter c line column =>
    rw [below, toDiagnostic, toDiagnostic]
    split <;> rfl

namespace Lexeme

def lexedBelow (n : Nat) : Except LexError (List Token) → Except LexError (List Token)
  | .ok tokens => .ok (tokens.map (Token.below n))
  | .error e => .error (e.below n)

theorem ofStuck_below (c : Char) (rest : List Char) (line column n : Nat) (s : Stuck) :
    (LexError.ofStuck c rest line column s).below n =
      LexError.ofStuck c rest (line + n) column s := by
  cases s <;> rfl

theorem listFrom_below (n line column : Nat) (cs : List Char) :
    Token.listFrom (line + n) column cs = lexedBelow n (Token.listFrom line column cs) := by
  fun_induction Token.listFrom line column cs with
  | case1 line column => rw [Token.listFrom]; rfl
  | case2 line column rest ih =>
    rw [Token.listFrom, if_pos rfl, Nat.add_right_comm]
    exact ih
  | case3 line column c rest hn hb ih =>
    rw [Token.listFrom, if_neg hn, if_pos hb]
    exact ih
  | case4 line column c rest hn hb s he =>
    rw [Token.listFrom, if_neg hn, if_neg hb, he]
    exact congrArg Except.error (ofStuck_below c rest line column n s).symm
  | case5 line column c rest hn hb k m he e hr ih =>
    rw [Token.listFrom, if_neg hn, if_neg hb, he]
    simp only [ih, hr, lexedBelow]
  | case6 line column c rest hn hb k m he tokens hr ih =>
    rw [Token.listFrom, if_neg hn, if_neg hb, he]
    simp only [ih, hr, lexedBelow, List.map_cons]
    rfl

section

variable {b c : Char} {k : Kind} {w cs : List Char} {n : Nat}

theorem front_of_blank (hw : w ∈ language k) (hk : k ≠ .string) (hb : b ∈ blanks)
    (hf : w <+: cs ++ b :: v) : w <+: cs := by
  rcases Nat.lt_or_ge cs.length w.length with hl | hl
  · obtain ⟨u, rfl⟩ := List.prefix_of_prefix_length_le (List.prefix_append cs (b :: v)) hf hl.le
    have hu : u ≠ [] := by
      rintro rfl
      simp at hl
    obtain ⟨d, u, rfl⟩ := List.exists_cons_of_ne_nil hu
    obtain rfl := (List.cons_prefix_cons.1 ((List.prefix_append_right_inj cs).1 hf)).1
    exact absurd (inked_of_mem_language hw hk d (by simp)) (not_inked_of_mem_blanks hb)
  · exact List.prefix_of_prefix_length_le hf (List.prefix_append cs (b :: v)) hl

theorem extent_append_blank (h : extent c cs = .ok (k, n)) (hb : b ∈ blanks) (v : List Char) :
    extent c (cs ++ b :: v) = .ok (k, n) := by
  have hl := longest_of_extent h
  have longer : c :: cs <+: c :: (cs ++ b :: v) := List.prefix_append (c :: cs) (b :: v)
  obtain ⟨k', n', he, -⟩ := extent_of_front (hl.front.trans longer) hl.mem
  have hl' := longest_of_extent he
  by_cases hk : k' = .string
  · subst hk
    obtain ⟨rfl, -⟩ := cons_mem_string.1 hl'.mem
    rw [extent_quote] at h
    split at h
    next m hs =>
      cases h
      obtain ⟨body, hbody, u, rfl, rfl⟩ := stringExtent_some hs
      rw [List.append_assoc, List.cons_append, extent_quote, stringExtent_append hbody]
    next => cases h
  · have hf : c :: (cs ++ b :: v).take n' <+: c :: cs := front_of_blank hl'.mem hk hb hl'.front
    have hu : Longest k' (c :: (cs ++ b :: v).take n') (c :: cs) :=
      ⟨hf, hl'.mem, fun k w hf hw => hl'.length_le k w (hf.trans longer) hw⟩
    obtain ⟨rfl, hw⟩ := hl.unique hu
    have hn := congrArg List.length hw
    have := (mem_language_of_extent h).1
    have := (mem_language_of_extent he).1
    simp only [List.length_cons, List.length_take] at hn
    rw [he, show n = n' by omega]

theorem unknownCharacter_append_blank (h : extent c cs = .error .unknownCharacter)
    (hb : b ∈ blanks) (v : List Char) :
    extent c (cs ++ b :: v) = .error .unknownCharacter := by
  have hq : c ≠ '"' := fun hq => nomatch (eq_unterminatedString_iff h).2 hq
  cases he : extent c (cs ++ b :: v) with
  | error s =>
    cases s with
    | unterminatedString => exact absurd ((eq_unterminatedString_iff he).1 rfl) hq
    | unknownCharacter => rfl
  | ok p =>
    obtain ⟨k, n⟩ := p
    have hl := longest_of_extent he
    have hk : k ≠ .string := by
      rintro rfl
      exact hq (cons_mem_string.1 hl.mem).1
    exact absurd hl.mem (notMem_language_of_extent h (front_of_blank hl.mem hk hb hl.front))

end

def Continues (v : List Char) (whole : Except LexError (List Token)) :
    Except LexError (List Token) → Prop
  | .ok tokens => ∃ front l column, tokens = front ++ [⟨.endOfInput, "", (l : Nat), column⟩] ∧
    whole = (Token.listFrom (l + 1) 1 v).map (front ++ ·)
  | .error (.unknownCharacter c l column) => whole = .error (.unknownCharacter c l column)
  | .error (.unterminatedString ..) => True

theorem continues_listFrom (line column : Nat) (cs v : List Char) :
    Continues v (Token.listFrom line column (cs ++ '\n' :: v))
      (Token.listFrom line column cs) := by
  have hb : '\n' ∈ blanks := by decide
  fun_induction Token.listFrom line column cs with
  | case1 line column =>
    refine ⟨[], line, column, rfl, ?_⟩
    rw [List.nil_append, Token.listFrom, if_pos rfl]
    cases Token.listFrom (line + 1) 1 v <;> rfl
  | case2 line column rest ih =>
    rw [List.cons_append, Token.listFrom, if_pos rfl]
    exact ih
  | case3 line column c rest hn hbl ih =>
    rw [List.cons_append, Token.listFrom, if_neg hn, if_pos hbl]
    exact ih
  | case4 line column c rest hn hbl s he =>
    cases s with
    | unterminatedString => trivial
    | unknownCharacter =>
      rw [List.cons_append, Token.listFrom, if_neg hn, if_neg hbl,
        unknownCharacter_append_blank he hb v]
      rfl
  | case5 line column c rest hn hbl k n he e hr ih =>
    have hle := (mem_language_of_extent he).1
    rw [hr] at ih
    rw [List.cons_append, Token.listFrom, if_neg hn, if_neg hbl, extent_append_blank he hb v]
    dsimp only
    rw [List.drop_append_of_le_length hle]
    cases e with
    | unterminatedString => trivial
    | unknownCharacter => rw [show Token.listFrom _ _ _ = _ from ih]; rfl
  | case6 line column c rest hn hbl k n he tokens hr ih =>
    have hle := (mem_language_of_extent he).1
    rw [hr] at ih
    obtain ⟨front, l, m, rfl, ih⟩ := ih
    refine ⟨_ :: front, l, m, rfl, ?_⟩
    rw [List.cons_append, Token.listFrom, if_neg hn, if_neg hbl, extent_append_blank he hb v]
    dsimp only
    rw [List.drop_append_of_le_length hle, List.take_append_of_le_length hle, ih]
    cases Token.listFrom (l + 1) 1 v <;> rfl

end Lexeme

open Lexeme

/-- Lexing takes lines to lists of tokens: those of a text and of another one on a new line behind it
are those of the first without its end, and then those of the second, as many lines further down as
the first has; so is the error of the second. A character that the first text cannot go on from
stays the error whatever is behind it. -/
theorem lex_newline (a b : String) :
    (∀ tokens, lex a = .ok tokens → ∃ front l column,
      tokens = front ++ [⟨.endOfInput, "", (l : Nat), column⟩] ∧
      ((∃ whole, lex (a ++ "\n" ++ b) = .ok whole) ↔ ∃ behind, lex b = .ok behind) ∧
      (∀ behind, lex b = .ok behind →
        lex (a ++ "\n" ++ b) = .ok (front ++ behind.map (Token.below l))) ∧
      ∀ e, lex b = .error e → ∃ e', lex (a ++ "\n" ++ b) = .error e' ∧
        e'.toDiagnostic = { e.toDiagnostic with location := e.toDiagnostic.location.below l }) ∧
    ∀ e c, lex a = .error e → e.toDiagnostic.kind = .unknownCharacter c →
      lex (a ++ "\n" ++ b) = .error e := by
  have hc := continues_listFrom 1 1 a.toList b.toList
  have hw : Token.listFrom 1 1 (a.toList ++ '\n' :: b.toList) = lex (a ++ "\n" ++ b) := by
    simp [lex]
  rw [hw, show Token.listFrom 1 1 a.toList = lex a from rfl] at hc
  refine ⟨fun tokens h => ?_, fun e c h hk => ?_⟩
  · rw [h] at hc
    obtain ⟨front, l, column, rfl, hc⟩ := hc
    rw [Nat.add_comm l 1, listFrom_below, show Token.listFrom 1 1 b.toList = lex b from rfl] at hc
    refine ⟨front, l, column, rfl, ?_, fun behind hb => ?_, fun e hb => ?_⟩
    · cases hb : lex b <;> simp [hc, hb, lexedBelow, Except.map]
    · rw [hc, hb]
      rfl
    · rw [hc, hb]
      exact ⟨e.below l, rfl, e.toDiagnostic_below l⟩
  · rw [h] at hc
    cases e with
    | unterminatedString => cases hk
    | unknownCharacter => exact hc

/-- A text that ends in the middle of what could become a number, with more of it or something else
behind it, and one that could be continued to a lexeme. -/
theorem lex_newline_of_exponent :
    let number : List Token := [⟨.number, "1", 2, 1⟩, ⟨.identifier, "e", 2, 2⟩, ⟨.plus, "+", 2, 3⟩]
    lex "\n1e+" = .ok (number ++ [⟨.endOfInput, "", 2, 4⟩]) ∧
      lex "5" = .ok [⟨.number, "5", 1, 1⟩, ⟨.endOfInput, "", 1, 2⟩] ∧
      lex ("\n1e+" ++ "\n" ++ "5") =
        .ok (number ++ [⟨.number, "5", 3, 1⟩, ⟨.endOfInput, "", 3, 2⟩]) ∧
      lex "5\n &" = .error (.unknownCharacter '&' 2 2) ∧
      (∃ e, lex ("\n1e+" ++ "\n" ++ "5\n &") = .error e ∧
        e.toDiagnostic.location = .ofPair 4 2) ∧
      lex "2 =" = .error (.unknownCharacter '=' 1 3) ∧
      lex ("2 =" ++ "\n" ++ "= 3") = .error (.unknownCharacter '=' 1 3) := by
  intro number
  have ha : lex "\n1e+" = .ok (number ++ [⟨.endOfInput, "", 2, 4⟩]) := by decide +kernel
  have hb : lex "5" = .ok [⟨.number, "5", 1, 1⟩, ⟨.endOfInput, "", 1, 2⟩] := by decide +kernel
  have he : lex "5\n &" = .error (.unknownCharacter '&' 2 2) := by decide +kernel
  have hs : lex "2 =" = .error (.unknownCharacter '=' 1 3) := by decide +kernel
  have apart (front : List Token) (l : Nat) (column : Int)
      (h : number ++ [⟨.endOfInput, "", 2, 4⟩] = front ++ [⟨.endOfInput, "", l, column⟩]) :
      number = front ∧ l = 2 := by
    refine (List.append_inj' h rfl).imp_right fun hl => ?_
    simp only [List.cons.injEq, Token.mk.injEq] at hl
    omega
  obtain ⟨front, l, column, ht, -, hok, -⟩ := (lex_newline "\n1e+" "5").1 _ ha
  obtain ⟨rfl, rfl⟩ := apart front l column ht
  obtain ⟨front, l, column, ht, -, -, herror⟩ := (lex_newline "\n1e+" "5\n &").1 _ ha
  obtain ⟨rfl, rfl⟩ := apart front l column ht
  obtain ⟨e, hw, hd⟩ := herror _ he
  exact ⟨ha, hb, hok _ hb, he, ⟨e, hw, by rw [hd]; rfl⟩, hs,
    (lex_newline "2 =" "= 3").2 _ "=" hs rfl⟩

end Formulae
