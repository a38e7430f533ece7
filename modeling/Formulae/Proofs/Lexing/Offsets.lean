import Formulae.Proofs.Lexing.Places
import Mathlib.Data.Prod.Lex
import Mathlib.Order.Monotone.Basic

namespace Formulae

namespace Lexeme

open Token (Kind)

structure Piece where
  offset : Nat
  kind : Kind
  word : List Char

/-- Skipping blanks and taking the longest lexeme, over and over, a text is read up to this offset,
and these are the lexemes. -/
inductive Reads (text : List Char) : Nat → List Piece → Prop
  | start : Reads text 0 []
  | blank (r : Reads text o ps) (h : text[o]? = some c) (hc : c ∈ blanks) : Reads text (o + 1) ps
  | piece (r : Reads text o ps) (hw : Longest k w (text.drop o)) :
      Reads text (o + w.length) (ps ++ [⟨o, k, w⟩])

def InString (ps : List Piece) (o : Nat) : Prop :=
  ∃ p ∈ ps, p.kind = .string ∧ p.offset ≤ o ∧ o < p.offset + p.word.length

instance (ps : List Piece) (o : Nat) : Decidable (InString ps o) :=
  inferInstanceAs (Decidable (∃ p ∈ ps, _))

def EndsLine (text : List Char) (ps : List Piece) (o : Nat) : Prop :=
  text[o]? = some '\n' ∧ ¬ InString ps o

instance (text : List Char) (ps : List Piece) (o : Nat) : Decidable (EndsLine text ps o) :=
  inferInstanceAs (Decidable (_ ∧ _))

def lineEnds (text : List Char) (ps : List Piece) (o : Nat) : List Nat :=
  (List.range o).filter fun n => EndsLine text ps n

def lineStart (text : List Char) (ps : List Piece) (o : Nat) : Nat :=
  match (lineEnds text ps o).getLast? with
  | none => 0
  | some n => n + 1

def lineAt (text : List Char) (ps : List Piece) (o : Nat) : Nat := 1 + (lineEnds text ps o).length

def columnAt (text : List Char) (ps : List Piece) (o : Nat) : Nat := 1 + o - lineStart text ps o

def Piece.endOfText (o : Nat) : Piece := ⟨o, .endOfInput, []⟩

def Piece.token (text : List Char) (ps : List Piece) (p : Piece) : Token :=
  ⟨p.kind, String.ofList p.word, lineAt text ps p.offset, columnAt text ps p.offset⟩

section

variable {text : List Char} {ps qs : List Piece} {o n : Nat} {k : Kind} {w : List Char}

theorem lineEnds_succ (h : EndsLine text ps o) :
    lineEnds text ps (o + 1) = lineEnds text ps o ++ [o] := by
  rw [lineEnds, List.range_succ, List.filter_append, List.filter_singleton,
    decide_eq_true h]
  rfl

theorem lineEnds_add (h : ∀ i, o ≤ i → i < o + n → ¬ EndsLine text ps i) :
    lineEnds text ps (o + n) = lineEnds text ps o := by
  have hn : ((List.range n).map (o + ·)).filter (fun i => EndsLine text ps i) = [] := by
    refine List.filter_eq_nil_iff.2 fun i hi => ?_
    obtain ⟨j, hj, rfl⟩ := List.mem_map.1 hi
    have hlt := List.mem_range.1 hj
    simpa using h (o + j) (by omega) (by omega)
  rw [lineEnds, List.range_add, List.filter_append, hn, List.append_nil]
  rfl

theorem lineEnds_append (h : ∀ q ∈ qs, o ≤ q.offset) :
    lineEnds text (ps ++ qs) o = lineEnds text ps o := by
  refine List.filter_congr fun n hn => decide_eq_decide.2 (and_congr_right' (not_congr ?_))
  have hlt := List.mem_range.1 hn
  constructor
  · rintro ⟨p, hp, hk, hle, hstop⟩
    rcases List.mem_append.1 hp with hp | hp
    · exact ⟨p, hp, hk, hle, hstop⟩
    · have := h p hp
      omega
  · rintro ⟨p, hp, hin⟩
    exact ⟨p, List.mem_append_left qs hp, hin⟩

theorem lineStart_le (text : List Char) (ps : List Piece) (o : Nat) :
    lineStart text ps o ≤ o := by
  unfold lineStart
  split
  next => exact Nat.zero_le o
  next n hn => exact List.mem_range.1 (List.mem_filter.1 (List.mem_of_getLast? hn)).1

theorem lineAt_succ (h : EndsLine text ps o) : lineAt text ps (o + 1) = lineAt text ps o + 1 := by
  rw [lineAt, lineEnds_succ h, List.length_append, ← Nat.add_assoc]
  rfl

theorem columnAt_succ (h : EndsLine text ps o) : columnAt text ps (o + 1) = 1 := by
  rw [columnAt, lineStart, lineEnds_succ h, List.getLast?_concat]
  exact Nat.add_sub_cancel 1 (o + 1)

theorem lineAt_add (h : ∀ i, o ≤ i → i < o + n → ¬ EndsLine text ps i) :
    lineAt text ps (o + n) = lineAt text ps o := by
  rw [lineAt, lineEnds_add h]
  rfl

theorem columnAt_add (h : ∀ i, o ≤ i → i < o + n → ¬ EndsLine text ps i) :
    columnAt text ps (o + n) = columnAt text ps o + n := by
  have hs : lineStart text ps (o + n) = lineStart text ps o := by
    rw [lineStart, lineEnds_add h]
    rfl
  have hle := lineStart_le text ps o
  rw [columnAt, hs, columnAt]
  omega

theorem lineAt_append (h : ∀ q ∈ qs, o ≤ q.offset) :
    lineAt text (ps ++ qs) o = lineAt text ps o := by
  rw [lineAt, lineEnds_append h]
  rfl

theorem columnAt_append (h : ∀ q ∈ qs, o ≤ q.offset) :
    columnAt text (ps ++ qs) o = columnAt text ps o := by
  rw [columnAt, lineStart, lineEnds_append h]
  rfl

theorem place_strictMono (text : List Char) (ps : List Piece) :
    StrictMono fun o => toLex (lineAt text ps o, columnAt text ps o) := by
  refine strictMono_nat_of_lt_succ fun o => Prod.Lex.toLex_lt_toLex.2 ?_
  by_cases h : EndsLine text ps o
  · exact .inl (by rw [lineAt_succ h]; exact Nat.lt_succ_self _)
  · have hn : ∀ i, o ≤ i → i < o + 1 → ¬ EndsLine text ps i := by
      intro i hle hlt
      rwa [Nat.le_antisymm (Nat.le_of_lt_succ hlt) hle]
    exact .inr ⟨(lineAt_add hn).symm, by rw [columnAt_add hn]; exact Nat.lt_succ_self _⟩

theorem Reads.stop_le (r : Reads text o ps) : ∀ p ∈ ps, p.offset + p.word.length ≤ o := by
  induction r with
  | start => exact List.forall_mem_nil _
  | blank _ _ _ ih => exact fun p hp => Nat.le_succ_of_le (ih p hp)
  | piece _ _ ih =>
    refine List.forall_mem_append.2 ⟨fun p hp => ?_, ?_⟩
    · exact Nat.le_trans (ih p hp) (Nat.le_add_right _ _)
    · exact List.forall_mem_singleton.2 (Nat.le_refl _)

theorem Reads.mem_language (r : Reads text o ps) : ∀ p ∈ ps, p.word ∈ language p.kind := by
  induction r with
  | start => exact List.forall_mem_nil _
  | blank _ _ _ ih => exact ih
  | piece _ hw ih => exact List.forall_mem_append.2 ⟨ih, List.forall_mem_singleton.2 hw.mem⟩

theorem Reads.offset_lt (r : Reads text o ps) (hp : p ∈ ps) : p.offset < o := by
  have hle := r.stop_le p hp
  have hpos := List.length_pos_of_ne_nil fun hn =>
    nil_notMem_language p.kind (hn ▸ r.mem_language p hp)
  omega

theorem Reads.sorted (r : Reads text o ps) : ps.Pairwise fun p q => p.offset < q.offset := by
  induction r with
  | start => exact .nil
  | blank _ _ _ ih => exact ih
  | piece r _ ih =>
    refine List.pairwise_append.2 ⟨ih, List.pairwise_singleton _ _, fun p hp => ?_⟩
    exact List.forall_mem_singleton.2 (r.offset_lt hp)

theorem Reads.le_offset (r : Reads text o (ps ++ p :: qs)) :
    ∀ q ∈ p :: qs, p.offset ≤ q.offset := by
  have hs := (List.pairwise_append.1 r.sorted).2.1
  exact List.forall_mem_cons.2
    ⟨Nat.le_refl _, fun q hq => Nat.le_of_lt (List.rel_of_pairwise_cons hs hq)⟩

theorem Reads.le_length (r : Reads text o ps) : o ≤ text.length := by
  induction r with
  | start => exact Nat.zero_le _
  | blank _ h _ _ => exact (List.getElem?_eq_some_iff.1 h).1
  | piece _ hw ih =>
    have hl := hw.front.length_le
    rw [List.length_drop] at hl
    omega

theorem not_endsLine_of_mem (hq : ⟨o, k, w⟩ ∈ ps) (hf : w <+: text.drop o) (hw : w ∈ language k)
    (i : Nat) (hle : o ≤ i) (hlt : i < o + w.length) : ¬ EndsLine text ps i := by
  rintro ⟨hi, hs⟩
  -- in a string the newline would end no line, and in any other lexeme there is none
  have hk : k ≠ .string := fun hk => hs ⟨_, hq, hk, hle, hlt⟩
  have hm : '\n' ∈ w := by
    obtain ⟨v, hv⟩ := hf
    have hi' : (w ++ v)[i - o]? = some '\n' := by
      rw [hv, List.getElem?_drop, Nat.add_sub_of_le hle, hi]
    rw [List.getElem?_append_left (by omega)] at hi'
    exact List.mem_of_getElem? hi'
  have hi := inked_of_mem_language hw hk _ hm
  cases hi

end

structure Reached (text : List Char) (ps : List Piece) (o line column : Nat)
    (rest : List Char) : Prop where
  reads : Reads text o ps
  rest_eq : text.drop o = rest
  line_eq : lineAt text ps o = line
  column_eq : columnAt text ps o = column

namespace Reached

variable {text rest : List Char} {ps : List Piece} {o line column : Nat}

theorem start (text : List Char) : Reached text [] 0 1 1 text := ⟨.start, rfl, rfl, rfl⟩

theorem getElem?_eq (r : Reached text ps o line column (c :: rest)) : text[o]? = some c := by
  rw [← Nat.add_zero o, ← List.getElem?_drop, r.rest_eq]
  rfl

theorem drop_eq (r : Reached text ps o line column rest) (n : Nat) :
    text.drop (o + n) = rest.drop n := by
  rw [← List.drop_drop, r.rest_eq]

theorem newline (r : Reached text ps o line column ('\n' :: rest)) :
    Reached text ps (o + 1) (line + 1) 1 rest := by
  have he : EndsLine text ps o := by
    refine ⟨r.getElem?_eq, ?_⟩
    rintro ⟨p, hp, -, -, hlt⟩
    exact Nat.not_lt.2 (r.reads.stop_le p hp) hlt
  exact ⟨.blank r.reads r.getElem?_eq (by decide), r.drop_eq 1,
    by rw [lineAt_succ he, r.line_eq], columnAt_succ he⟩

theorem blank (r : Reached text ps o line column (c :: rest)) (hc : c ∈ blanks) (hn : c ≠ '\n') :
    Reached text ps (o + 1) line (column + 1) rest := by
  have he (i : Nat) (hle : o ≤ i) (hlt : i < o + 1) : ¬ EndsLine text ps i := by
    rintro ⟨hi, -⟩
    obtain rfl := Nat.le_antisymm (Nat.le_of_lt_succ hlt) hle
    exact hn (Option.some.inj (r.getElem?_eq.symm.trans hi))
  exact ⟨.blank r.reads r.getElem?_eq hc, r.drop_eq 1,
    by rw [lineAt_add he, r.line_eq], by rw [columnAt_add he, r.column_eq]⟩

theorem lexeme (r : Reached text ps o line column rest) (hw : Longest k w rest) :
    Reached text (ps ++ [⟨o, k, w⟩]) (o + w.length) line (column + w.length)
      (rest.drop w.length) := by
  have hd : Longest k w (text.drop o) := by rwa [r.rest_eq]
  have he := not_endsLine_of_mem (List.mem_append_right ps (List.mem_singleton_self _))
    hd.front hd.mem
  have hq : ∀ q ∈ [(⟨o, k, w⟩ : Piece)], o ≤ q.offset :=
    List.forall_mem_singleton.2 (Nat.le_refl o)
  refine ⟨.piece r.reads hd, r.drop_eq w.length, ?_, ?_⟩
  · rw [lineAt_add he, lineAt_append hq, r.line_eq]
  · rw [columnAt_add he, columnAt_append hq, r.column_eq]

theorem taken (r : Reached text ps o line column (c :: rest)) (he : extent c rest = .ok (k, n)) :
    Reached text (ps ++ [⟨o, k, c :: rest.take n⟩]) (o + (n + 1)) line (column + 1 + n)
      (rest.drop n) := by
  have hl := r.lexeme (longest_of_extent he)
  rwa [List.length_cons, List.length_take, Nat.min_eq_left (mem_language_of_extent he).1,
    List.drop_succ_cons, Nat.add_comm n, ← Nat.add_assoc column, Nat.add_comm 1] at hl

theorem token_eq (r : Reached text ps o line column rest) (hq : ∀ q ∈ qs, o ≤ q.offset) (k : Kind)
    (w : List Char) :
    Piece.token text (ps ++ qs) ⟨o, k, w⟩ = ⟨k, String.ofList w, line, column⟩ := by
  rw [Piece.token, lineAt_append hq, columnAt_append hq, r.line_eq, r.column_eq]

end Reached

theorem kind_ofStuck (he : extent c rest = .error s) (line column : Nat) :
    (LexError.ofStuck c rest line column s).toDiagnostic.kind =
      if c = '"' then .unterminatedString else .unknownCharacter c.toString := by
  have hs := eq_unterminatedString_iff he
  cases s with
  | unterminatedString => rw [if_pos (hs.1 rfl)]; rfl
  | unknownCharacter =>
    rw [if_neg fun hc => nomatch hs.2 hc]
    exact LexError.kind_unknownCharacter c line column

def Blames (text : List Char) (ps : List Piece) (o : Nat) (e : LexError) : Prop :=
  ∃ c, text[o]? = some c ∧ c ∉ blanks ∧ (∀ k w, w <+: text.drop o → w ∉ language k) ∧
    e.toDiagnostic.kind =
      (if c = '"' then .unterminatedString else .unknownCharacter c.toString) ∧
    e.toDiagnostic.location = .ofPair (lineAt text ps o) (columnAt text ps o)

def Placed (text : List Char) (ps qs : List Piece) (o : Nat) :
    Except LexError (List Token) → Prop
  | .ok tokens => o = text.length ∧ tokens = (qs ++ [Piece.endOfText o]).map (Piece.token text ps)
  | .error e => Blames text ps o e

theorem placed_listFrom (r : Reached text ps o line column rest) :
    ∃ o' qs, Reads text o' (ps ++ qs) ∧
      Placed text (ps ++ qs) qs o' (Token.listFrom line column rest) := by
  fun_induction Token.listFrom line column rest generalizing o ps with
  | case1 line column =>
    have he : o = text.length :=
      Nat.le_antisymm r.reads.le_length (List.drop_eq_nil_iff.1 r.rest_eq)
    refine ⟨o, [], by rw [List.append_nil]; exact r.reads, he, ?_⟩
    rw [List.nil_append, List.map_singleton, Piece.endOfText,
      r.token_eq (List.forall_mem_nil _)]
  | case2 line column rest ih => exact ih r.newline
  | case3 line column c rest hn hb ih => exact ih (r.blank ((mem_blanks_iff c).2 hb) hn)
  | case4 line column c rest hn hb s he =>
    refine ⟨o, [], by rw [List.append_nil]; exact r.reads, c, r.getElem?_eq,
      fun hc => hb ((mem_blanks_iff c).1 hc), fun k w hf => ?_, kind_ofStuck he line column, ?_⟩
    · rw [r.rest_eq] at hf
      exact notMem_language_of_extent he hf
    · rw [List.append_nil, location_ofStuck, r.line_eq, r.column_eq]
  | case5 line column c rest hn hb k n he e hr ih =>
    obtain ⟨o', qs, hreads, hp⟩ := ih (r.taken he)
    rw [List.append_assoc, List.singleton_append] at hreads hp
    rw [hr] at hp
    exact ⟨o', _, hreads, hp⟩
  | case6 line column c rest hn hb k n he tokens hr ih =>
    obtain ⟨o', qs, hreads, hp⟩ := ih (r.taken he)
    rw [List.append_assoc, List.singleton_append] at hreads hp
    rw [hr] at hp
    obtain ⟨ho, ht⟩ := hp
    refine ⟨o', _, hreads, ho, ?_⟩
    -- the lexemes found later start behind this one, so they do not move it
    rw [List.cons_append, List.map_cons, r.token_eq hreads.le_offset, ht]

theorem pairwise_token (text : List Char) (ps : List Piece) {qs : List Piece}
    (h : qs.Pairwise fun p q => p.offset < q.offset) :
    (qs.map (Piece.token text ps)).Pairwise fun t u =>
      toLex (t.line, t.column) < toLex (u.line, u.column) := by
  refine List.pairwise_map.2 (h.imp fun hlt => ?_)
  rcases Prod.Lex.toLex_lt_toLex.1 (place_strictMono text ps hlt) with hl | ⟨hl, hc⟩
  · exact Prod.Lex.toLex_lt_toLex.2 (.inl (Int.ofNat_lt.2 hl))
  · exact Prod.Lex.toLex_lt_toLex.2 (.inr ⟨congrArg Int.ofNat hl, Int.ofNat_lt.2 hc⟩)

theorem nodup_location {tokens : List Token}
    (h : tokens.Pairwise fun t u => toLex (t.line, t.column) < toLex (u.line, u.column)) :
    (tokens.map Token.location).Nodup := by
  refine List.pairwise_map.2 (h.imp fun hlt he => ?_)
  obtain ⟨hl, hc⟩ := Location.mk.inj he
  rw [Option.some.inj hl, Option.some.inj hc] at hlt
  exact lt_irrefl _ hlt

end Lexeme

open Lexeme

/-- Lines and columns are exact. Each token has those of the offset of its lexeme, the token for the
end those of the end, and so they increase; and an error has those of the character it blames. -/
theorem lex_positions_exact (text : String) :
    ∃ o ps, Reads text.toList o ps ∧
      match lex text with
      | .ok tokens => o = text.length ∧
        tokens = (ps ++ [Piece.endOfText o]).map (Piece.token text.toList ps) ∧
        (tokens.Pairwise fun t u => toLex (t.line, t.column) < toLex (u.line, u.column)) ∧
        (tokens.map Token.location).Nodup
      | .error e => Blames text.toList ps o e := by
  obtain ⟨o, ps, hr, hp⟩ := placed_listFrom (.start text.toList)
  refine ⟨o, ps, hr, ?_⟩
  change Placed text.toList ps ps o (lex text) at hp
  cases hlex : lex text with
  | error e =>
    rw [hlex] at hp
    exact hp
  | ok tokens =>
    rw [hlex] at hp
    obtain ⟨ho, ht⟩ := hp
    have hs : (ps ++ [Piece.endOfText o]).Pairwise fun p q => p.offset < q.offset :=
      List.pairwise_append.2 ⟨hr.sorted, List.pairwise_singleton _ _, fun p hp =>
        List.forall_mem_singleton.2 (hr.offset_lt hp)⟩
    have hlt := pairwise_token text.toList ps hs
    rw [← ht] at hlt
    exact ⟨ho.trans String.length_toList, ht, hlt, nodup_location hlt⟩

/-- A newline in a string starts no line. -/
example : lex "\"a\nb\" +\n x" = .ok [⟨.string, "\"a\nb\"", 1, 1⟩, ⟨.plus, "+", 1, 7⟩,
    ⟨.identifier, "x", 2, 2⟩, ⟨.endOfInput, "", 2, 3⟩] := by cbv

end Formulae
