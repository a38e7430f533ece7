import Formulae.Lexing
import Formulae.Proofs.Lexing.Extents

namespace Formulae

namespace Lexeme

open Token (Kind)

theorem nil_notMem_language (k : Kind) : [] ∉ language k := by
  intro h
  cases k
  case number =>
    obtain ⟨_, ⟨a, ha, b, -, rfl⟩, d, -, hn⟩ := (h : [] ∈ number)
    exact ha.1 (List.append_eq_nil_iff.1 (List.append_eq_nil_iff.1 hn).1).1
  case string =>
    obtain ⟨_, ⟨_, rfl, b, -, rfl⟩, d, -, hn⟩ := (h : [] ∈ string)
    cases hn
  case identifier =>
    obtain ⟨⟨c, cs, hn, -⟩, -⟩ := h
    cases hn
  all_goals cases h

theorem kind_eq_of_mem_language (h : w ∈ language k) (h' : w ∈ language k') : k = k' := by
  rcases w with _ | ⟨c, w⟩
  · exact absurd h (nil_notMem_language k)
  · obtain ⟨_, n, he, -, hk⟩ := extent_of_mem_language h []
    obtain ⟨_, n', he', -, hk'⟩ := extent_of_mem_language h' []
    rw [he] at he'
    cases he'
    rw [← hk rfl, ← hk' rfl]

theorem Longest.unique (h : Longest k w cs) (h' : Longest k' w' cs) : k = k' ∧ w = w' := by
  have hl := Nat.le_antisymm (h'.length_le k w h.front h.mem) (h.length_le k' w' h'.front h'.mem)
  have hp := List.prefix_of_prefix_length_le h.front h'.front (Nat.le_of_eq hl)
  have hw : w = w' := hp.eq_of_length hl
  exact ⟨kind_eq_of_mem_language h.mem (hw ▸ h'.mem), hw⟩

theorem extent_of_front (hf : w <+: c :: cs) (hw : w ∈ language k) :
    ∃ k' n, extent c cs = .ok (k', n) ∧ w.length ≤ n + 1 := by
  obtain ⟨v, hv⟩ := hf
  rcases w with _ | ⟨d, w⟩
  · exact absurd hw (nil_notMem_language k)
  · obtain ⟨rfl, rfl⟩ := List.cons.inj hv
    obtain ⟨k', n, he, hn, -⟩ := extent_of_mem_language hw v
    exact ⟨k', n, he, Nat.succ_le_succ hn⟩

theorem longest_of_extent (h : extent c cs = .ok (k, n)) :
    Longest k (c :: cs.take n) (c :: cs) := by
  obtain ⟨hn, hm⟩ := mem_language_of_extent h
  refine ⟨List.cons_prefix_cons.2 ⟨rfl, List.take_prefix n cs⟩, hm, fun k' w' hf hw => ?_⟩
  obtain ⟨_, n', he, hl⟩ := extent_of_front hf hw
  rw [h] at he
  cases he
  rwa [List.length_cons, List.length_take, Nat.min_eq_left hn]

theorem notMem_language_of_extent (h : extent c cs = .error s) (hf : w <+: c :: cs) :
    w ∉ language k := by
  intro hw
  obtain ⟨_, _, he, -⟩ := extent_of_front hf hw
  rw [h] at he
  cases he

theorem eq_unterminatedString_iff (h : extent c cs = .error s) :
    s = .unterminatedString ↔ c = '"' := by
  unfold extent at h
  split at h
  next => cases h
  next =>
    split_ifs at h with hgt hlt heq hbang hquote hdigit halpha
    · unfold onlyEqual at h
      split at h <;> cases h
      subst heq
      decide
    · unfold onlyEqual at h
      split at h <;> cases h
      subst hbang
      decide
    · split at h <;> cases h
      exact iff_of_true rfl hquote
    · cases h
      exact iff_of_false (by decide) hquote

/-- Skipping blanks and taking the longest lexeme, over and over, gives these pieces and comes to a
place that has none. -/
inductive Munch : List Char → List (Kind × List Char) → List Char → Prop
  | done : Munch [] [] []
  | blank (h : c ∈ blanks) (m : Munch cs pieces left) : Munch (c :: cs) pieces left
  | piece (h : c ∉ blanks) (hw : Longest k w (c :: cs))
      (m : Munch ((c :: cs).drop w.length) pieces left) : Munch (c :: cs) ((k, w) :: pieces) left
  | stuck (h : c ∉ blanks) (hs : ∀ k w, w <+: c :: cs → w ∉ language k) :
      Munch (c :: cs) [] (c :: cs)

theorem Munch.unique (h : Munch cs pieces left) (h' : Munch cs pieces' left') :
    pieces = pieces' ∧ left = left' := by
  induction h generalizing pieces' left' with
  | done => cases h'; exact ⟨rfl, rfl⟩
  | blank hc m ih =>
    cases h' with
    | blank _ m' => exact ih m'
    | piece hc' => exact absurd hc hc'
    | stuck hc' => exact absurd hc hc'
  | piece hc hw m ih =>
    cases h' with
    | blank hc' => exact absurd hc' hc
    | piece _ hw' m' =>
      obtain ⟨rfl, rfl⟩ := hw.unique hw'
      obtain ⟨rfl, rfl⟩ := ih m'
      exact ⟨rfl, rfl⟩
    | stuck _ hs => exact absurd hw.mem (hs _ _ hw.front)
  | stuck hc hs =>
    cases h' with
    | blank hc' => exact absurd hc' hc
    | piece _ hw => exact absurd hw.mem (hs _ _ hw.front)
    | stuck => exact ⟨rfl, rfl⟩

theorem Munch.of_extent (hc : c ∉ blanks) (he : extent c cs = .ok (k, n))
    (m : Munch (cs.drop n) pieces left) : Munch (c :: cs) ((k, c :: cs.take n) :: pieces) left := by
  refine .piece hc (longest_of_extent he) ?_
  rwa [List.length_cons, List.length_take, Nat.min_eq_left (mem_language_of_extent he).1,
    List.drop_succ_cons]

theorem Munch.mem_language (h : Munch cs pieces left) : ∀ p ∈ pieces, p.2 ∈ language p.1 := by
  induction h with
  | done | stuck => exact List.forall_mem_nil _
  | blank _ _ ih => exact ih
  | piece _ hw _ ih => exact List.forall_mem_cons.2 ⟨hw.mem, ih⟩

def Reports (pieces : List (Kind × List Char)) (left : List Char) :
    Except LexError (List Token) → Prop
  | .ok tokens => left = [] ∧
    tokens.map (fun t => (t.kind, t.lexeme.toList)) = pieces ++ [(.endOfInput, [])]
  | .error (.unterminatedString ..) => left.head? = some '"'
  | .error (.unknownCharacter c ..) => left.head? = some c ∧ c ≠ '"'

theorem mem_blanks_iff (c : Char) : c ∈ blanks ↔ isBlank c := by simp [blanks, isBlank, or_assoc]

theorem munch_listFrom (line column : Nat) (cs : List Char) :
    ∃ pieces left, Munch cs pieces left ∧ Reports pieces left (Token.listFrom line column cs) := by
  fun_induction Token.listFrom line column cs with
  | case1 line column => exact ⟨[], [], .done, rfl, rfl⟩
  | case2 line column rest ih =>
    obtain ⟨pieces, left, hm, hr⟩ := ih
    exact ⟨pieces, left, .blank (by decide) hm, hr⟩
  | case3 line column c rest hn hb ih =>
    obtain ⟨pieces, left, hm, hr⟩ := ih
    exact ⟨pieces, left, .blank ((mem_blanks_iff c).2 hb) hm, hr⟩
  | case4 line column c rest hn hb s he =>
    refine ⟨[], c :: rest, .stuck (fun hc => hb ((mem_blanks_iff c).1 hc))
      fun k w hf => notMem_language_of_extent he hf, ?_⟩
    have hs := eq_unterminatedString_iff he
    cases s with
    | unterminatedString => rw [hs.1 rfl]; rfl
    | unknownCharacter => exact ⟨rfl, fun hc => nomatch hs.2 hc⟩
  | case5 line column c rest hn hb k n he e hr ih =>
    obtain ⟨pieces, left, hm, hp⟩ := ih
    refine ⟨_, left, .of_extent (fun hc => hb ((mem_blanks_iff c).1 hc)) he hm, ?_⟩
    rw [hr] at hp
    cases e <;> exact hp
  | case6 line column c rest hn hb k n he tokens hr ih =>
    obtain ⟨pieces, left, hm, hp⟩ := ih
    refine ⟨_, left, .of_extent (fun hc => hb ((mem_blanks_iff c).1 hc)) he hm, ?_⟩
    rw [hr] at hp
    obtain ⟨rfl, ht⟩ := hp
    exact ⟨rfl, by simp [ht]⟩

theorem Munch.interleaved (h : Munch cs pieces left) (hl : left = []) :
    ∃ gaps : List (List Char), gaps.length = pieces.length + 1 ∧
      (∀ gap ∈ gaps, ∀ c ∈ gap, c ∈ blanks) ∧
        cs = (List.zipWith (· ++ ·) gaps (pieces.map Prod.snd ++ [[]])).flatten := by
  induction h with
  | done => exact ⟨[[]], rfl, by simp, rfl⟩
  | @blank c cs pieces left hc m ih =>
    obtain ⟨_ | ⟨gap, gaps⟩, hn, hg, hcs⟩ := ih hl
    · cases hn
    · refine ⟨(c :: gap) :: gaps, hn, ?_, ?_⟩
      · rw [List.forall_mem_cons] at hg ⊢
        exact ⟨List.forall_mem_cons.2 ⟨hc, hg.1⟩, hg.2⟩
      · rw [hcs]
        cases pieces <;> rfl
  | @piece c k w cs pieces left hc hw m ih =>
    obtain ⟨gaps, hn, hg, hcs⟩ := ih hl
    refine ⟨[] :: gaps, by rw [List.length_cons, hn, List.length_cons], ?_, ?_⟩
    · exact List.forall_mem_cons.2 ⟨by simp, hg⟩
    · rw [List.map_cons, List.cons_append, List.zipWith_cons_cons, List.flatten_cons, ← hcs,
        List.nil_append]
      exact (List.prefix_iff_eq_append.1 hw.front).symm
  | stuck => cases hl

end Lexeme

open Lexeme

theorem LexError.kind_unknownCharacter (c : Char) (line column : Nat) :
    (LexError.unknownCharacter c line column).toDiagnostic.kind = .unknownCharacter c.toString := by
  rw [toDiagnostic]
  split <;> rfl

theorem LexError.kind_eq_or (e : LexError) : e.toDiagnostic.kind = .unterminatedString ∨
    ∃ c : Char, e.toDiagnostic.kind = .unknownCharacter c.toString := by
  cases e with
  | unterminatedString => exact .inl rfl
  | unknownCharacter c line column => exact .inr ⟨c, kind_unknownCharacter c line column⟩

theorem LexError.kind_eq_unknownCharacter_iff {c c' : Char} {line column : Nat} :
    (unknownCharacter c line column).toDiagnostic.kind = .unknownCharacter c'.toString ↔
      c = c' := by
  rw [kind_unknownCharacter, Diagnostic.Kind.unknownCharacter.injEq]
  refine ⟨fun h => ?_, fun h => h ▸ rfl⟩
  have hc := congrArg String.toList h
  simpa only [Char.toString_eq_singleton, String.toList_singleton, List.cons.injEq,
    and_true] using hc

namespace Lexeme.Reports

variable {r : Except LexError (List Token)}

theorem ok_iff (h : Reports pieces left r) : (∃ tokens, r = .ok tokens) ↔ left = [] := by
  rcases r with (_ | _) | tokens
  · refine iff_of_false nofun ?_
    rintro rfl
    cases h
  · refine iff_of_false nofun ?_
    rintro rfl
    cases h.1
  · exact iff_of_true ⟨tokens, rfl⟩ h.1

theorem unterminatedString_iff (h : Reports pieces left r) :
    (∃ e, r = .error e ∧ e.toDiagnostic.kind = .unterminatedString) ↔
      left.head? = some '"' := by
  rcases r with (_ | ⟨c, line, column⟩) | tokens
  · exact iff_of_true ⟨_, rfl, rfl⟩ h
  · refine iff_of_false ?_ fun hq => h.2 (Option.some.inj (h.1.symm.trans hq))
    rintro ⟨_, ⟨⟩, hk⟩
    rw [LexError.kind_unknownCharacter] at hk
    cases hk
  · obtain ⟨rfl, -⟩ := h
    exact iff_of_false nofun nofun

theorem unknownCharacter_iff (h : Reports pieces left r) (c : Char) :
    (∃ e, r = .error e ∧ e.toDiagnostic.kind = .unknownCharacter c.toString) ↔
      left.head? = some c ∧ c ≠ '"' := by
  rcases r with (_ | ⟨c', line, column⟩) | tokens
  · refine iff_of_false ?_ fun ⟨hc, hq⟩ => hq (Option.some.inj (hc.symm.trans h))
    rintro ⟨_, ⟨⟩, hk⟩
    cases hk
  · constructor
    · rintro ⟨_, ⟨⟩, hk⟩
      exact LexError.kind_eq_unknownCharacter_iff.1 hk ▸ h
    · rintro ⟨hc, -⟩
      exact ⟨_, rfl, LexError.kind_eq_unknownCharacter_iff.2 (Option.some.inj (h.1.symm.trans hc))⟩
  · obtain ⟨rfl, -⟩ := h
    exact iff_of_false nofun nofun

end Lexeme.Reports

theorem Lexeme.Munch.tokens_interleaved (hm : Munch cs pieces [])
    (ht : tokens.map (fun t : Token => (t.kind, t.lexeme.toList)) = pieces ++ [(.endOfInput, [])]) :
    ∃ gaps : List (List Char), gaps.length = tokens.length ∧
      (∀ gap ∈ gaps, ∀ c ∈ gap, c ∈ blanks) ∧
        cs = (List.zipWith (fun gap t => gap ++ t.lexeme.toList) gaps tokens).flatten := by
  obtain ⟨gaps, hn, hg, hcs⟩ := hm.interleaved rfl
  have hl := congrArg List.length ht
  have hw := congrArg (List.map Prod.snd) ht
  simp only [List.length_map, List.length_append, List.map_append, List.map_map] at hl hw
  refine ⟨gaps, hn.trans hl.symm, hg, hcs.trans ?_⟩
  rw [show pieces.map Prod.snd ++ [[]] = _ from hw.symm, List.zipWith_map_right]
  rfl

theorem lex_of_munch (h : Munch cs pieces []) :
    ∃ tokens, lex (String.ofList cs) = .ok tokens ∧
      tokens.map (fun t => (t.kind, t.lexeme.toList)) = pieces ++ [(.endOfInput, [])] := by
  obtain ⟨pieces', left, hm, hr⟩ := munch_listFrom 1 1 cs
  obtain ⟨rfl, rfl⟩ := hm.unique h
  rw [lex, String.toList_ofList]
  generalize Token.listFrom 1 1 cs = r at hr ⊢
  obtain ⟨tokens, rfl⟩ := hr.ok_iff.2 rfl
  exact ⟨tokens, rfl, hr.2⟩

theorem mem_language_of_lex (h : lex text = .ok tokens) (ht : t ∈ tokens)
    (hk : t.kind ≠ .endOfInput) : t.lexeme.toList ∈ language t.kind := by
  obtain ⟨pieces, left, hm, hr⟩ := munch_listFrom 1 1 text.toList
  rw [show Token.listFrom 1 1 text.toList = .ok tokens from h] at hr
  have hp : (t.kind, t.lexeme.toList) ∈ pieces ++ [(.endOfInput, [])] :=
    hr.2 ▸ List.mem_map_of_mem ht
  rcases List.mem_append.1 hp with hp | hp
  · exact hm.mem_language _ hp
  · exact absurd (congrArg Prod.fst (List.mem_singleton.1 hp)) hk

/-- The tokens of a text are its longest lexemes one after the other, with blanks around them; there
are none if no lexeme is at a place, and then the error says what is there. -/
theorem lex_maximal_munch (text : String) :
    ∃ pieces left, Munch text.toList pieces left ∧
      (∀ pieces' left', Munch text.toList pieces' left' → pieces' = pieces ∧ left' = left) ∧
      (∀ tokens, lex text = .ok tokens →
        tokens.map (fun t => (t.kind, t.lexeme.toList)) = pieces ++ [(.endOfInput, [])] ∧
        ∃ gaps : List (List Char), gaps.length = tokens.length ∧
          (∀ gap ∈ gaps, ∀ c ∈ gap, c ∈ blanks) ∧
          text.toList =
            (List.zipWith (fun gap t => gap ++ t.lexeme.toList) gaps tokens).flatten) ∧
      ((∃ tokens, lex text = .ok tokens) ↔ left = []) ∧
      ((∃ e, lex text = .error e ∧ e.toDiagnostic.kind = .unterminatedString) ↔
        left.head? = some '"') ∧
      (∀ c : Char, (∃ e, lex text = .error e ∧
          e.toDiagnostic.kind = .unknownCharacter c.toString) ↔ left.head? = some c ∧ c ≠ '"') ∧
      ∀ e, lex text = .error e → e.toDiagnostic.kind = .unterminatedString ∨
        ∃ c : Char, e.toDiagnostic.kind = .unknownCharacter c.toString := by
  obtain ⟨pieces, left, hm, hr⟩ := munch_listFrom 1 1 text.toList
  have hr : Reports pieces left (lex text) := hr
  refine ⟨pieces, left, hm, fun _ _ hm' => hm'.unique hm, fun tokens h => ?_, hr.ok_iff,
    hr.unterminatedString_iff, hr.unknownCharacter_iff, fun e _ => e.kind_eq_or⟩
  rw [h] at hr
  obtain ⟨rfl, ht⟩ := hr
  exact ⟨ht, hm.tokens_interleaved ht⟩

end Formulae
