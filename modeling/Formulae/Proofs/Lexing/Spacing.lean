import Formulae.Proofs.Lexing.Munch
import Mathlib.Order.CompletePartialOrder

namespace Formulae

namespace Lexeme

open Token (Kind)

def inked (c : Char) : Bool := !isBlank c && c != '"'

section

variable {p : Char → Bool} {L M : Language Char}

theorem one_le_run : 1 ≤ run p := by
  rintro _ rfl c hc
  cases hc

theorem add_le_run (hL : L ≤ run p) (hM : M ≤ run p) : L + M ≤ run p := by
  rintro w (hw | hw)
  · exact hL hw
  · exact hM hw

theorem mul_le_run (hL : L ≤ run p) (hM : M ≤ run p) : L * M ≤ run p := by
  rintro _ ⟨w, hw, v, hv, rfl⟩
  exact List.forall_mem_append.2 ⟨hL hw, hM hv⟩

theorem word_le_run (hp : ∀ c, c.isAlphanum → p c) : word ≤ run p := by
  rintro _ ⟨c, cs, rfl, hc, hcs⟩
  refine List.forall_mem_cons.2 ⟨hp c ?_, fun d hd => hp d (hcs d hd)⟩
  simp [Char.isAlphanum, hc]

theorem number_le_run (hp : ∀ c, c.isAlphanum → p c) (hpoint : p '.') (hplus : p '+')
    (hminus : p '-') : number ≤ run p := by
  have single {c : Char} (hc : p c) : ({[c]} : Language Char) ≤ run p := by
    rintro _ rfl
    exact List.forall_mem_singleton.2 hc
  have hdigits : digits ≤ run p := fun w hw c hc => hp c (by simp [Char.isAlphanum, hw.2 c hc])
  have hmark : mark ≤ run p := by
    rintro _ (rfl | rfl)
    · exact single (hp 'e' rfl) rfl
    · exact single (hp 'E' rfl) rfl
  have hsign : sign ≤ run p := by
    rintro _ (rfl | rfl)
    · exact single hplus rfl
    · exact single hminus rfl
  have hfraction : fraction ≤ run p := mul_le_run (single hpoint) hdigits
  have hexponent : exponent ≤ run p :=
    mul_le_run (mul_le_run hmark (add_le_run one_le_run hsign)) hdigits
  exact mul_le_run (mul_le_run hdigits (add_le_run one_le_run hfraction))
    (add_le_run one_le_run hexponent)

end

theorem inked_of_isAlphanum (c : Char) (hc : c.isAlphanum) : inked c := by
  simp [inked, isBlank, ne_of_isAlphanum hc (d := ' ') rfl, ne_of_isAlphanum hc (d := '\t') rfl,
    ne_of_isAlphanum hc (d := '\r') rfl, ne_of_isAlphanum hc (d := '\n') rfl,
    ne_of_isAlphanum hc (d := '"') rfl]

theorem not_inked_of_mem_blanks (hb : b ∈ blanks) : ¬ inked b := by
  simp [inked, (mem_blanks_iff b).1 hb]

theorem inked_of_mem_language (hw : w ∈ language k) (hk : k ≠ .string) : w ∈ run inked := by
  cases k
  case string => exact absurd rfl hk
  case number => exact number_le_run inked_of_isAlphanum rfl rfl rfl hw
  case identifier => exact word_le_run inked_of_isAlphanum hw.1
  case endOfInput => cases hw
  all_goals
    cases hw
    exact List.all_eq_true.1 rfl

theorem kind_of_quote (hw : '"' :: w ∈ language k) : k = .string := by
  obtain ⟨k', n, he, -, hk⟩ := extent_of_mem_language hw []
  rw [extent_quote] at he
  split at he <;> cases he
  exact (hk rfl).symm

theorem extent_of_blank (hw : c :: w ∈ language k) (hb : b ∈ blanks) (v : List Char) :
    extent c (w ++ b :: v) = .ok (k, w.length) := by
  obtain ⟨k', n, he, hn, -⟩ := extent_of_mem_language hw (b :: v)
  obtain ⟨-, hm⟩ := mem_language_of_extent he
  have hl : n = w.length := by
    by_cases hk : k' = .string
    · subst hk
      obtain ⟨rfl, -⟩ := cons_mem_string.1 hm
      cases kind_of_quote hw
      obtain ⟨-, body, hbody, rfl⟩ := cons_mem_string.1 hw
      rw [List.append_assoc, List.singleton_append, extent_quote, stringExtent_append hbody] at he
      cases he
      simp
    · by_contra hne
      obtain ⟨m, rfl⟩ : ∃ m, n = w.length + (m + 1) := ⟨n - w.length - 1, by omega⟩
      rw [List.take_length_add_append, List.take_succ_cons] at hm
      exact not_inked_of_mem_blanks hb (inked_of_mem_language hm hk b (by simp))
  subst hl
  rw [List.take_left] at hm
  rw [he, kind_eq_of_mem_language hm hw]

theorem notMem_blanks_of_mem_language (hw : c :: w ∈ language k) : c ∉ blanks := by
  by_cases hk : k = .string
  · subst hk
    obtain ⟨rfl, -⟩ := cons_mem_string.1 hw
    decide
  · intro hb
    exact not_inked_of_mem_blanks hb (inked_of_mem_language hw hk c List.mem_cons_self)

def sample : Kind → List Char
  | .number => ['0']
  | .string => ['"', '"']
  | .identifier => ['f']
  | k => k.spelling.toList

theorem mem_language_of_taken (h : extent c w = .ok (k, w.length)) : c :: w ∈ language k := by
  have hm := (mem_language_of_extent h).2
  rwa [List.take_length] at hm

theorem sample_mem_language (hk : k ≠ .endOfInput) : sample k ∈ language k := by
  cases k
  case endOfInput => exact absurd rfl hk
  all_goals exact mem_language_of_taken rfl

theorem mem_blanks_of_all {gap : List Char} (h : gap.all isBlank) : ∀ c ∈ gap, c ∈ blanks :=
  fun c hc => (mem_blanks_iff c).2 (List.all_eq_true.1 h c hc)

def Separates (v : List Char) : Prop := ∀ c ∈ v.head?, c ∈ blanks

theorem extent_of_separates (hw : c :: w ∈ language k) (hv : Separates v) :
    extent c (w ++ v) = .ok (k, w.length) := by
  cases v with
  | nil =>
    obtain ⟨k', n, he, hn, hk⟩ := extent_of_mem_language hw []
    have hl := (mem_language_of_extent he).1
    rw [List.append_nil] at hl
    rw [he, hk rfl, Nat.le_antisymm hl hn]
  | cons b v => exact extent_of_blank hw (hv b rfl) v

theorem Munch.lexeme (hw : w ∈ language k) (hv : Separates v) (m : Munch v pieces left) :
    Munch (w ++ v) ((k, w) :: pieces) left := by
  rcases w with _ | ⟨c, w⟩
  · exact absurd hw (nil_notMem_language k)
  · have hm := Munch.of_extent (notMem_blanks_of_mem_language hw) (extent_of_separates hw hv)
      (by rwa [List.drop_left])
    rwa [List.take_left] at hm

theorem Munch.behind_blanks (hg : ∀ c ∈ gap, c ∈ blanks) (m : Munch cs pieces left) :
    Munch (gap ++ cs) pieces left := by
  induction gap with
  | nil => exact m
  | cons c gap ih =>
    obtain ⟨hc, hg⟩ := List.forall_mem_cons.1 hg
    exact .blank hc (ih hg)

theorem Munch.spaced (hp : ∀ p ∈ pieces, p.2 ∈ language p.1) :
    Munch (pieces.flatMap fun p => p.2 ++ [' ']) pieces [] := by
  induction pieces with
  | nil => exact .done
  | cons p pieces ih =>
    obtain ⟨hw, hs⟩ := List.forall_mem_cons.1 hp
    rw [List.flatMap_cons, List.append_assoc]
    refine .lexeme hw ?_ (.blank (by decide) (ih hs))
    rintro _ ⟨⟩
    decide

structure Item where
  gap : List Char
  kind : Kind
  word : List Char
  blank : ∀ c ∈ gap, c ∈ blanks
  mem : word ∈ language kind

def Item.text (items : List Item) (trailing : List Char) : List Char :=
  items.flatMap (fun i => i.gap ++ i.word) ++ trailing

def Item.piece (i : Item) : Kind × List Char := (i.kind, i.word)

theorem Item.separates {items : List Item} (hi : ∀ i ∈ items, i.gap ≠ [])
    (ht : ∀ c ∈ trailing, c ∈ blanks) : Separates (text items trailing) := by
  cases items with
  | nil => exact fun c hc => ht c (List.mem_of_mem_head? hc)
  | cons i items =>
    obtain ⟨b, gap, hb⟩ := List.exists_cons_of_ne_nil (hi i List.mem_cons_self)
    rintro c hc
    rw [text, List.flatMap_cons, hb] at hc
    obtain rfl : b = c := Option.some.inj hc
    exact i.blank b (by rw [hb]; exact List.mem_cons_self)

theorem Munch.spacedOut {items : List Item} (hi : ∀ i ∈ items.tail, i.gap ≠ [])
    (ht : ∀ c ∈ trailing, c ∈ blanks) :
    Munch (Item.text items trailing) (items.map Item.piece) [] := by
  induction items with
  | nil =>
    have hm := Munch.behind_blanks ht .done
    rwa [List.append_nil] at hm
  | cons i items ih =>
    rw [Item.text, List.flatMap_cons, List.append_assoc, List.append_assoc]
    exact .behind_blanks i.blank (.lexeme i.mem (Item.separates hi ht)
      (ih fun j hj => hi j (List.mem_of_mem_tail hj)))

end Lexeme

open Lexeme

theorem lex_spaced (hp : ∀ p ∈ pieces, p.2 ∈ language p.1) :
    ∃ tokens, lex (String.ofList (pieces.flatMap fun p => p.2 ++ [' '])) = .ok tokens ∧
      tokens.map (fun t => (t.kind, t.lexeme.toList)) = pieces ++ [(.endOfInput, [])] :=
  lex_of_munch (.spaced hp)

theorem Lexeme.intercalate_words (pieces : List (Token.Kind × List Char)) :
    [' '].intercalate (pieces.map Prod.snd ++ [[]]) = pieces.flatMap fun p => p.2 ++ [' '] := by
  induction pieces with
  | nil => rfl
  | cons p pieces ih =>
    rw [List.map_cons, List.cons_append, List.intercalate_cons_of_ne_nil (by simp), ih,
      List.flatMap_cons]

theorem intercalate_lexemes {tokens : List Token}
    (ht : tokens.map (fun t => (t.kind, t.lexeme.toList)) = pieces ++ [(.endOfInput, [])]) :
    " ".intercalate (tokens.map Token.lexeme) =
      String.ofList (pieces.flatMap fun p => p.2 ++ [' ']) := by
  have hw := congrArg (List.map Prod.snd) ht
  rw [List.map_map, List.map_append] at hw
  rw [← String.toList_inj, String.toList_intercalate, List.map_map]
  exact (congrArg _ hw).trans ((intercalate_words pieces).trans String.toList_ofList.symm)

/-- Lexing undoes spacing out: lexemes with any blanks around them and at least one between two are
taken one by one; and so are those of a text with single spaces between them. -/
theorem lex_undoes_spacing :
    (∀ (items : List Item) (trailing : List Char), (∀ i ∈ items.tail, i.gap ≠ []) →
      (∀ c ∈ trailing, c ∈ blanks) →
        ∃ tokens, lex (String.ofList (Item.text items trailing)) = .ok tokens ∧
          tokens.map (fun t => (t.kind, t.lexeme.toList)) =
            items.map Item.piece ++ [(.endOfInput, [])]) ∧
    ∀ text tokens, lex text = .ok tokens →
      ∃ tokens', lex (" ".intercalate (tokens.map Token.lexeme)) = .ok tokens' ∧
        tokens'.map (fun t => (t.kind, t.lexeme.toList)) =
          tokens.map fun t => (t.kind, t.lexeme.toList) := by
  refine ⟨fun items trailing hi ht => lex_of_munch (.spacedOut hi ht), fun text tokens h => ?_⟩
  obtain ⟨pieces, left, hm, hr⟩ := munch_listFrom 1 1 text.toList
  rw [show Token.listFrom 1 1 text.toList = .ok tokens from h] at hr
  obtain ⟨tokens', hlex, ht'⟩ := lex_spaced hm.mem_language
  exact ⟨tokens', by rw [intercalate_lexemes hr.2, hlex], ht'.trans hr.2.symm⟩

/-- Without the blanks between them the first four would be one number. -/
theorem lex_undoes_spacing_of_exponent :
    let items : List Item := [
      ⟨['\r'], .number, ['1', '.', '5'], mem_blanks_of_all rfl, mem_language_of_taken rfl⟩,
      ⟨[' '], .identifier, ['e'], mem_blanks_of_all rfl, mem_language_of_taken rfl⟩,
      ⟨['\t'], .plus, ['+'], mem_blanks_of_all rfl, rfl⟩,
      ⟨['\n', ' '], .number, ['5'], mem_blanks_of_all rfl, mem_language_of_taken rfl⟩,
      ⟨[' '], .less, ['<'], mem_blanks_of_all rfl, rfl⟩,
      ⟨[' '], .equalEqual, ['=', '='], mem_blanks_of_all rfl, rfl⟩]
    (∀ i ∈ items.tail, i.gap ≠ []) ∧ (∀ c ∈ ['\n'], c ∈ blanks) ∧
      ∃ tokens, lex "\r1.5 e\t+\n 5 < ==\n" = .ok tokens ∧
        tokens.map (fun t => (t.kind, t.lexeme.toList)) =
          items.map Item.piece ++ [(.endOfInput, [])] := by
  intro items
  have hi : ∀ i ∈ items.tail, i.gap ≠ [] := by decide
  have ht : ∀ c ∈ ['\n'], c ∈ blanks := mem_blanks_of_all rfl
  exact ⟨hi, ht, lex_undoes_spacing.1 items ['\n'] hi ht⟩

end Formulae
