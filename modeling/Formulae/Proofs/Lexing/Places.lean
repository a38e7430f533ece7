import Formulae.Proofs.Lexing.Spacing

namespace Formulae

namespace Lexeme

structure Place where
  line : Nat
  column : Nat
  quoted : Bool

namespace Place

def next (p : Place) (c : Char) : Place :=
  if c = '\n' ∧ p.quoted = false then ⟨p.line + 1, 1, false⟩
  else ⟨p.line, p.column + 1, p.quoted != (c == '"')⟩

def behind (p : Place) (cs : List Char) : Place := cs.foldl next p

theorem behind_append (p : Place) (cs ds : List Char) :
    p.behind (cs ++ ds) = (p.behind cs).behind ds := List.foldl_append

theorem behind_of_line {cs : List Char} (line column : Nat) (quoted : Bool)
    (h : ∀ c ∈ cs, c ≠ '"' ∧ (quoted = false → c ≠ '\n')) :
    (⟨line, column, quoted⟩ : Place).behind cs = ⟨line, column + cs.length, quoted⟩ := by
  induction cs generalizing column with
  | nil => rfl
  | cons c cs ih =>
    obtain ⟨⟨hq, hn⟩, h⟩ := List.forall_mem_cons.1 h
    have hc : (⟨line, column, quoted⟩ : Place).next c = ⟨line, column + 1, quoted⟩ := by
      rw [next, if_neg fun hb => hn hb.2 hb.1, beq_eq_false_iff_ne.2 hq, Bool.bne_false]
    rw [behind, List.foldl_cons, hc, ← behind, ih (column + 1) h, List.length_cons,
      Nat.add_assoc, Nat.add_comm 1]

theorem behind_lexeme (hw : w ∈ language k) (line column : Nat) :
    (⟨line, column, false⟩ : Place).behind w = ⟨line, column + w.length, false⟩ := by
  by_cases hk : k = .string
  · subst hk
    obtain ⟨_, ⟨_, rfl, body, hb, rfl⟩, _, rfl, rfl⟩ := (hw : w ∈ string)
    have hbody := behind_of_line line (column + 1) true
      fun c hc => ⟨fun h => hb (h ▸ hc), nofun⟩
    have hopen : (⟨line, column, false⟩ : Place).behind ['"'] = ⟨line, column + 1, true⟩ := rfl
    have hclose (n : Nat) : (⟨line, n, true⟩ : Place).behind ['"'] = ⟨line, n + 1, false⟩ := rfl
    rw [behind_append, behind_append, hopen, hbody, hclose]
    simp [Nat.add_comm, Nat.add_left_comm]
  · refine behind_of_line line column false fun c hc => ?_
    have hi := inked_of_mem_language hw hk c hc
    refine ⟨?_, fun _ => ?_⟩ <;> rintro rfl <;> cases hi

def Finds (p : Place) (cs : List Char) (l : Location) (here : List Char → Prop) : Prop :=
  ∃ before after line column, cs = before ++ after ∧
    p.behind before = ⟨line, column, false⟩ ∧ l = .ofPair line column ∧ here after

theorem Finds.later {p q : Place} {here : List Char → Prop} (hq : p.behind u = q)
    (h : q.Finds cs l here) : p.Finds (u ++ cs) l here := by
  obtain ⟨before, after, line, column, rfl, hb, hl, ha⟩ := h
  refine ⟨u ++ before, after, line, column, by rw [List.append_assoc], ?_, hl, ha⟩
  rw [behind_append, hq, hb]

theorem Finds.imp {p : Place} {here here' : List Char → Prop}
    (hi : ∀ after, here after → here' after) (h : p.Finds cs l here) : p.Finds cs l here' := by
  obtain ⟨before, after, line, column, hcs, hb, hl, ha⟩ := h
  exact ⟨before, after, line, column, hcs, hb, hl, hi after ha⟩

theorem Finds.here {here : List Char → Prop} (line column : Nat) (h : here cs) :
    (⟨line, column, false⟩ : Place).Finds cs (.ofPair line column) here :=
  ⟨[], cs, line, column, rfl, rfl, rfl, h⟩

end Place

def Unread (cs left : List Char) : Prop := left ≠ [] ∧ ∃ pieces, Munch cs pieces left

def Located (p : Place) (cs : List Char) : Except LexError (List Token) → Prop
  | .ok tokens => ∀ t ∈ tokens, p.Finds cs t.location (t.lexeme.toList <+: ·)
  | .error e => p.Finds cs e.toDiagnostic.location (Unread cs)

theorem Located.later {p q : Place} {r : Except LexError (List Token)} (hq : p.behind u = q)
    (hu : ∀ left, Unread cs left → Unread (u ++ cs) left) (h : Located q cs r) :
    Located p (u ++ cs) r := by
  cases r with
  | ok tokens => exact fun t ht => (h t ht).later hq
  | error e => exact (Place.Finds.later hq h).imp hu

theorem Unread.blank (hc : c ∈ blanks) (left : List Char) :
    Unread cs left → Unread ([c] ++ cs) left
  | ⟨hl, pieces, hm⟩ => ⟨hl, pieces, .blank hc hm⟩

theorem Unread.lexeme (hc : c ∉ blanks) (he : extent c rest = .ok (k, n)) (left : List Char) :
    Unread (rest.drop n) left → Unread (c :: rest.take n ++ rest.drop n) left
  | ⟨hl, pieces, hm⟩ => by
    rw [List.cons_append, List.take_append_drop]
    exact ⟨hl, _, .of_extent hc he hm⟩

theorem location_ofStuck (c : Char) (rest : List Char) (line column : Nat) (s : Stuck) :
    (LexError.ofStuck c rest line column s).toDiagnostic.location = .ofPair line column := by
  cases s with
  | unterminatedString => rfl
  | unknownCharacter =>
    rw [LexError.ofStuck, LexError.toDiagnostic]
    split <;> rfl

theorem Located.lexeme {r : Except LexError (List Token)} (hc : c ∉ blanks)
    (he : extent c rest = .ok (k, n))
    (h : Located ⟨line, column + 1 + n, false⟩ (rest.drop n) r) :
    Located ⟨line, column, false⟩ (c :: rest) r := by
  obtain ⟨hn, hw⟩ := mem_language_of_extent he
  have hb := Place.behind_lexeme hw line column
  rw [List.length_cons, List.length_take, Nat.min_eq_left hn, Nat.add_comm n, ← Nat.add_assoc] at hb
  have hl := h.later hb (Unread.lexeme hc he)
  rwa [List.cons_append, List.take_append_drop] at hl

theorem located_listFrom (line column : Nat) (cs : List Char) :
    Located ⟨line, column, false⟩ cs (Token.listFrom line column cs) := by
  fun_induction Token.listFrom line column cs with
  | case1 line column =>
    exact List.forall_mem_singleton.2 (.here line column (List.prefix_refl []))
  | case2 line column rest ih => exact ih.later (u := ['\n']) rfl (Unread.blank (by decide))
  | case3 line column c rest hn hb ih =>
    refine ih.later (u := [c]) (Place.behind_of_line line column false ?_)
      (Unread.blank ((mem_blanks_iff c).2 hb))
    refine List.forall_mem_singleton.2 ⟨?_, fun _ => hn⟩
    rintro rfl
    cases hb
  | case4 line column c rest hn hb s he =>
    rw [Located, location_ofStuck]
    have hc : c ∉ blanks := fun hc => hb ((mem_blanks_iff c).1 hc)
    exact .here line column ⟨List.cons_ne_nil c rest, [],
      .stuck hc fun k w hf => notMem_language_of_extent he hf⟩
  | case5 line column c rest hn hb k n he e hr ih =>
    exact .lexeme (fun hc => hb ((mem_blanks_iff c).1 hc)) he (hr ▸ ih)
  | case6 line column c rest hn hb k n he tokens hr ih =>
    rw [hr] at ih
    have hc : c ∉ blanks := fun hc => hb ((mem_blanks_iff c).1 hc)
    refine List.forall_mem_cons.2 ⟨?_, Located.lexeme hc he ih⟩
    refine .here line column ?_
    rw [String.toList_ofList]
    exact List.cons_prefix_cons.2 ⟨rfl, List.take_prefix n rest⟩

end Lexeme

open Lexeme

theorem lex_endOfInput (h : lex text = .ok tokens) : ∃ t ∈ tokens, t.kind = .endOfInput := by
  obtain ⟨pieces, left, -, hr⟩ := munch_listFrom 1 1 text.toList
  rw [show Token.listFrom 1 1 text.toList = .ok tokens from h] at hr
  have hm : (Token.Kind.endOfInput, ([] : List Char)) ∈
      tokens.map fun t => (t.kind, t.lexeme.toList) := hr.2 ▸ by simp
  obtain ⟨t, ht, he⟩ := List.mem_map.1 hm
  exact ⟨t, ht, congrArg Prod.fst he⟩

/-- A location in a text: that of a token or, if the text has none, that of the character that the
lexer cannot go on from. -/
def InText (text : String) (l : Location) : Prop :=
  (⟨1, 1, false⟩ : Place).Finds text.toList l fun after =>
    match lex text with
    | .ok tokens => ∃ t ∈ tokens, t.location = l ∧ t.lexeme.toList <+: after
    | .error _ => Unread text.toList after

theorem inText_of_mem (h : lex text = .ok tokens) (ht : t ∈ tokens) : InText text t.location := by
  have hl := located_listFrom 1 1 text.toList
  rw [show Token.listFrom 1 1 text.toList = .ok tokens from h] at hl
  rw [InText, h]
  obtain ⟨before, after, line, column, ha, hb, he, hp⟩ := hl t ht
  exact ⟨before, after, line, column, ha, hb, he, t, ht, rfl, hp⟩

theorem inText_of_error (h : lex text = .error e) : InText text e.toDiagnostic.location := by
  have hl := located_listFrom 1 1 text.toList
  rw [show Token.listFrom 1 1 text.toList = .error e from h] at hl
  rw [InText, h]
  exact hl

end Formulae
