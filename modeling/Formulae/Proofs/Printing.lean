import Formulae.CommandLine.Options
import Formulae.Proofs.Decimal.Printing
import Formulae.Proofs.Lexing.Spacing
import Formulae.Proofs.Parsing.Phrases
import Formulae.Proofs.Session

namespace Formulae

open Lexeme (Munch)
open Grammar (Phrase)

variable {w : List Char} {x : Float}

theorem Lexeme.Munch.single {k : Token.Kind} (h : w ∈ language k) : Munch w [(k, w)] [] := by
  obtain ⟨c, cs, rfl⟩ := List.exists_cons_of_ne_nil fun hn => nil_notMem_language k (hn ▸ h)
  obtain ⟨k', n, he, hn, hk⟩ := extent_of_mem_language h []
  obtain rfl := hk rfl
  rw [List.append_nil] at he
  obtain rfl := Nat.le_antisymm (mem_language_of_extent he).1 hn
  have hm := Munch.of_extent (notMem_blanks_of_mem_language h) he
    (by rw [List.drop_length]; exact .done)
  rwa [List.take_length] at hm

theorem tokens_of_number
    (h : tokens.map (fun t : Token => (t.kind, t.lexeme.toList)) =
      [(.number, w), (.endOfInput, [])]) :
    ∃ t last, tokens = [t, last] ∧ t.kind = .number ∧ t.lexeme = String.ofList w ∧
      last.kind = .endOfInput := by
  obtain ⟨t, rest, rfl, ht, hr⟩ := List.map_eq_cons_iff.1 h
  obtain ⟨last, rest, rfl, hl, hr⟩ := List.map_eq_cons_iff.1 hr
  obtain rfl := List.map_eq_nil_iff.1 hr
  refine ⟨t, last, rfl, congrArg Prod.fst ht, ?_, congrArg Prod.fst hl⟩
  rw [← String.toList_inj, String.toList_ofList]
  exact congrArg Prod.snd ht

theorem lex_number (hw : w ∈ Lexeme.number) : ∃ t last,
    lex (String.ofList w) = .ok [t, last] ∧ t.kind = .number ∧ t.lexeme = String.ofList w ∧
      last.kind = .endOfInput := by
  obtain ⟨tokens, hlex, hr⟩ := lex_of_munch (Munch.single (k := .number) hw)
  obtain ⟨t, last, rfl, ht⟩ := tokens_of_number hr
  exact ⟨t, last, hlex, ht⟩

theorem lex_minus_number (hw : w ∈ Lexeme.number) : ∃ minus t last,
    lex (String.ofList ('-' :: w)) = .ok [minus, t, last] ∧ minus.kind = .minus ∧
      t.kind = .number ∧ t.lexeme = String.ofList w ∧ last.kind = .endOfInput := by
  have hm : Munch ('-' :: w) [(.minus, ['-']), (.number, w)] [] :=
    .of_extent (n := 0) (by decide) rfl (Munch.single hw)
  obtain ⟨tokens, hlex, hr⟩ := lex_of_munch hm
  obtain ⟨minus, rest, rfl, hminus, hr⟩ := List.map_eq_cons_iff.1 hr
  obtain ⟨t, last, rfl, ht⟩ := tokens_of_number hr
  exact ⟨minus, t, last, hlex, congrArg Prod.fst hminus, ht⟩

namespace Session

variable {s : Session} {context : Context}

theorem evaluate_number (hw : w ∈ Lexeme.number) (hr : Numeral.read (String.ofList w) = some x)
    (hp : 1 ≤ s.maxParseDepth) (he : 0 ≤ s.maxEvalDepth) :
    (s.evaluate context (String.ofList w)).outcome.1 = .ok (.number x) := by
  obtain ⟨t, last, hlex, ht, hw, hl⟩ := lex_number hw
  obtain ⟨d, hd, hf, hn⟩ := (Phrase.number (n := 0) ht).outer
  have hparse := parse_word (show d.depth + 1 ≤ s.maxParseDepth by omega) hl []
  rw [hd, hf] at hparse
  rw [outcome_of_parse context hlex hparse, Expr.evaluate, Expr.evalAt, if_neg (by omega), hw,
    Value.ofNumeral, hr]
  rfl

theorem evaluate_minus_number (hw : w ∈ Lexeme.number)
    (hr : Numeral.read (String.ofList w) = some x)
    (hp : 2 ≤ s.maxParseDepth) (he : 1 ≤ s.maxEvalDepth) :
    (s.evaluate context (String.ofList ('-' :: w))).outcome.1 = .ok (.number (-x)) := by
  obtain ⟨minus, t, last, hlex, hm, ht, hw, hl⟩ := lex_minus_number hw
  have hspelling : minus.kind.spelling = UnaryOp.minus.symbol := by rw [hm]; rfl
  obtain ⟨d, hd, hf, hn⟩ :=
    (Phrase.unary ⟨minus, .minus, rfl, hspelling⟩ ((Phrase.number (n := 0) ht).lift _)).outer
  have hparse := parse_word (show d.depth + 1 ≤ s.maxParseDepth by omega) hl []
  rw [hd, hf] at hparse
  rw [outcome_of_parse context hlex hparse, Expr.evaluate, Expr.evalAt, if_neg (by omega),
    Expr.evalAt, if_neg (by omega), hw, Value.ofNumeral, hr]
  rfl

end Session

theorem CommandLine.valueOf_of_read (h : Numeral.read text = some x) : valueOf text = .number x := by
  rw [valueOf, if_neg, if_neg, h]
  · rintro rfl
    cases h
  · rintro rfl
    cases h

theorem CommandLine.parseBinding_eq (name : List Char) (text : String) (hn : name ≠ [])
    (he : '=' ∉ name) :
    parseBinding (String.ofList name ++ "=" ++ text) = .ok (String.ofList name, valueOf text) := by
  have hall : ∀ c ∈ name, decide (c ≠ '=') := fun c hc =>
    decide_eq_true fun h => he (h ▸ hc)
  have hs : splitEqual (String.ofList name ++ "=" ++ text).toList = (name, some text.toList) := by
    have ht : (String.ofList name ++ "=" ++ text).toList = name ++ '=' :: text.toList := by simp
    rw [ht, splitEqual, List.takeWhile_append_of_pos hall, List.dropWhile_append_of_pos hall]
    simp
  rw [parseBinding, hs]
  dsimp only
  rw [if_neg hn, String.ofList_toList]

namespace Session

theorem evaluate_write {s : Session} (context : Context) {negative : Bool} {m k : Nat}
    (hv : Double.view x = .finite negative m k) (hp : 2 ≤ s.maxParseDepth)
    (he : 1 ≤ s.maxEvalDepth) :
    (s.evaluate context (Numeral.write x)).outcome.1 =
      .ok (.number (Double.unsignedZero x)) := by
  obtain ⟨hf, -⟩ := Double.finite_of_view hv
  obtain ⟨w, q, hw, hc, hx⟩ := Numeral.write_of_finite hv
  have hr := Numeral.read_signed hw hf hc false
  rw [Numeral.signed_false] at hr
  rw [hx, Double.unsignedZero_of_finite hv]
  cases negative && decide (m ≠ 0) with
  | false =>
    rw [Numeral.signed_false]
    exact evaluate_number hw.lexeme hr (by omega) (by omega)
  | true =>
    rw [Numeral.signed_true, ← Double.neg_ofIndex hf.index_le]
    exact evaluate_minus_number hw.lexeme hr hp he

/-- Every number is read from what is printed for it, and an option binds it so; what is printed for
a finite number is a formula with its value. Zero is printed without its sign. -/
theorem printed_reads_back (x : Float) :
    Numeral.read (Value.number x).describe = some (Double.unsignedZero x) ∧
    CommandLine.parseBinding ("n=" ++ (Value.number x).describe) =
      .ok ("n", .number (Double.unsignedZero x)) ∧
    ((∃ negative m k, Double.view x = .finite negative m k) →
      (({} : Session).evaluate .noBindings (Value.number x).describe).outcome.1 =
        .ok (.number (Double.unsignedZero x))) := by
  have hr := Numeral.read_write x
  refine ⟨hr, ?_, ?_⟩
  · have hb := CommandLine.parseBinding_eq ['n'] (Numeral.write x) (by decide) (by decide)
    rw [CommandLine.valueOf_of_read hr] at hb
    exact hb
  · rintro ⟨negative, m, k, hv⟩
    exact evaluate_write .noBindings hv (by decide) (by decide)

/-- The double next below zero. -/
theorem printed_reads_back_of_least :
    let x := Double.ofIndex true 1
    Double.view x = .finite true 1 0 ∧ (Value.number x).describe = "-5e-324" ∧
      Numeral.read "-5e-324" = some x ∧
      CommandLine.parseBinding "n=-5e-324" = .ok ("n", .number x) ∧
      (({} : Session).evaluate .noBindings "-5e-324").outcome.1 = .ok (.number x) := by
  intro x
  have hv : Double.view x = .finite true 1 0 := by decide +kernel
  have hd : (Value.number x).describe = "-5e-324" := by decide +kernel
  have hz : Double.unsignedZero x = x := Double.unsignedZero_of_view_ne (by rw [hv]; nofun)
  obtain ⟨hr, hb, he⟩ := printed_reads_back x
  have he := he ⟨_, _, _, hv⟩
  rw [hd, hz] at hr hb he
  exact ⟨hv, hd, hr, hb, he⟩

end Session

end Formulae
