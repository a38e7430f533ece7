import Formulae.Proofs.Decimal.Numerals
import Formulae.Proofs.Printing
import Formulae.Text.Integer
import Mathlib.Data.List.DropRight

/-!
The texts that become numbers. A host that reads numbers is more lenient: it takes blanks around
them, underscores among the digits and the digits of every script. What is not lenient is left if
such texts are turned away before.
-/

namespace Formulae

namespace Text

def isSpace (c : Char) : Bool := isBlank c || (0x1c ≤ c.toNat && c.toNat ≤ 0x1f)

def trim (p : Char → Bool) (cs : List Char) : List Char := (cs.dropWhile p).rdropWhile p

def asciiDigit (c : Char) : Char :=
  match digitValue? c with
  | some n => n.digitChar
  | none => c

def joinDigits : List Char → Option (List Char)
  | [] => some []
  | '_' :: _ => none
  | d :: '_' :: c :: cs =>
    if d.isDigit ∧ c.isDigit then (joinDigits (c :: cs)).map (d :: ·) else none
  | c :: cs => (joinDigits cs).map (c :: ·)

theorem strip_eq_trim (cs : List Char) : strip cs = trim isBlank cs := rfl

section

variable {p r : Char → Bool} {cs : List Char}

theorem trim_eq_self_iff : trim p cs = cs ↔
    (∀ h : cs ≠ [], ¬ p (cs.head h)) ∧ ∀ h : cs ≠ [], ¬ p (cs.getLast h) := by
  have hd : cs.dropWhile p = cs ↔ ∀ h : cs ≠ [], ¬ p (cs.head h) := by
    cases cs <;> simp [List.dropWhile_eq_self_iff]
  rw [← List.rdropWhile_eq_self_iff, ← hd]
  constructor
  · intro h
    have hs : cs.dropWhile p <:+ cs := List.dropWhile_suffix p
    have hp : trim p cs <+: cs.dropWhile p := List.rdropWhile_prefix p _
    have hl := hp.length_le
    rw [h] at hl
    have he := hs.eq_of_length (Nat.le_antisymm hs.length_le hl)
    rw [trim, he] at h
    exact ⟨he, h⟩
  · rintro ⟨hd, hr⟩
    rw [trim, hd, hr]

theorem trim_of_imp (h : ∀ c, r c → p c) (hp : trim p cs = cs) : trim r cs = cs := by
  rw [trim_eq_self_iff] at hp ⊢
  exact ⟨fun hn hc => hp.1 hn (h _ hc), fun hn hc => hp.2 hn (h _ hc)⟩

theorem trim_of_forall (h : ∀ c ∈ cs, ¬ p c) : trim p cs = cs :=
  trim_eq_self_iff.2 ⟨fun _ => h _ (List.head_mem _), fun _ => h _ (List.getLast_mem _)⟩

theorem joinDigits_of_notMem (h : '_' ∉ cs) : joinDigits cs = some cs := by
  fun_induction joinDigits cs with
  | case1 => rfl
  | case2 => simp at h
  | case3 => simp at h
  | case4 => simp at h
  | case5 c cs _ _ ih => rw [ih fun hc => h (List.mem_cons_of_mem _ hc)]; rfl

end

theorem forall_ascii {P : Char → Prop} (h : ∀ n < 128, P (Char.ofNat n)) (c : Char)
    (hc : c.toNat < 128) : P c := by
  have := h c.toNat hc
  rwa [Char.ofNat_toNat] at this

theorem asciiDigit_of_ascii (c : Char) (hc : c.toNat < 128) : asciiDigit c = c :=
  forall_ascii (P := fun c => asciiDigit c = c) (by decide +kernel) c hc

end Text

namespace Numeral

open Text (isSpace trim asciiDigit joinDigits)

/-- The number that a lenient host reads. -/
def readLenient (text : String) : Option Float := do
  let cs ← joinDigits ((Text.strip text.toList).map asciiDigit)
  read (String.ofList cs)

/-- A text that can be left to a lenient host. -/
def Plain (cs : List Char) : Prop :=
  (∀ c ∈ cs, c.toNat < 128) ∧ trim isSpace cs = cs ∧ '_' ∉ cs

theorem readLenient_of_plain {text : String} (h : Plain text.toList) :
    readLenient text = read text := by
  obtain ⟨hascii, htrim, hunder⟩ := h
  have hmap : text.toList.map asciiDigit = text.toList := by
    conv => rhs; rw [← List.map_id text.toList]
    exact List.map_congr_left fun c hc => Text.asciiDigit_of_ascii c (hascii c hc)
  have hs : Text.strip text.toList = text.toList := by
    rw [Text.strip_eq_trim]
    exact Text.trim_of_imp (fun c hc => by rw [isSpace, hc, Bool.true_or]) htrim
  rw [readLenient, hs, hmap, Text.joinDigits_of_notMem hunder]
  rw [Option.bind_eq_bind, Option.bind_some, String.ofList_toList]

def Common (c : Char) : Prop := c.isAlphanum ∨ c = '+' ∨ c = '-' ∨ c = '.'

theorem common_of_isDigit {c : Char} (h : c.isDigit) : Common c :=
  .inl (by rw [Char.isAlphanum, h, Bool.or_true])

theorem ascii_of_common {c : Char} (h : Common c) : c.toNat < 128 := by
  rcases h with h | rfl | rfl | rfl
  · simp only [Char.isAlphanum, Char.isAlpha, Char.isUpper, Char.isLower, Char.isDigit,
      Bool.or_eq_true, Bool.and_eq_true, decide_eq_true_eq, UInt32.le_iff_toNat_le, ge_iff_le] at h
    have : c.toNat = c.val.toNat := rfl
    have : 'Z'.val.toNat = 90 := rfl
    have : 'z'.val.toNat = 122 := rfl
    have : '9'.val.toNat = 57 := rfl
    omega
  all_goals decide

instance (c : Char) : Decidable (Common c) :=
  inferInstanceAs (Decidable (c.isAlphanum ∨ c = '+' ∨ c = '-' ∨ c = '.'))

theorem not_isSpace_of_common (c : Char) (h : Common c) : ¬ isSpace c ∧ c ≠ '_' :=
  Text.forall_ascii (P := fun c => Common c → ¬ isSpace c ∧ c ≠ '_') (by decide +kernel) c
    (ascii_of_common h) h

theorem plain_of_common {cs : List Char} (h : ∀ c ∈ cs, Common c) : Plain cs :=
  ⟨fun c hc => ascii_of_common (h c hc),
    Text.trim_of_forall fun c hc => (not_isSpace_of_common c (h c hc)).1,
    fun hc => (not_isSpace_of_common _ (h _ hc)).2 rfl⟩

section

variable {s w rest cs : List Char}

theorem Sign.common (h : Sign s negative) : ∀ c ∈ s, Common c := by
  cases h with
  | none => exact List.forall_mem_nil _
  | plus => exact List.forall_mem_singleton.2 (by decide)
  | minus => exact List.forall_mem_singleton.2 (by decide)

theorem Power.common (h : Power rest e) : ∀ c ∈ rest, Common c := by
  cases h with
  | none => exact List.forall_mem_nil _
  | written hc hs hd =>
    refine List.forall_mem_cons.2 ⟨?_, List.forall_mem_append.2 ⟨hs.common, fun c hc => ?_⟩⟩
    · rcases hc with rfl | rfl <;> exact .inl rfl
    · exact common_of_isDigit (hd.2 c hc)

theorem Denotes.common (h : Denotes w q) : ∀ c ∈ w, Common c := by
  obtain ⟨hw, ht, -, he⟩ := h
  have hw : ∀ c ∈ _, Common c := fun c hc => common_of_isDigit (hw c hc)
  refine List.forall_mem_append.2 ⟨List.forall_mem_append.2 ⟨hw, ?_⟩, he.common⟩
  cases ht with
  | none => exact List.forall_mem_nil _
  | point hd =>
    exact List.forall_mem_cons.2 ⟨by decide, fun c hc => common_of_isDigit (hd c hc)⟩

theorem common_of_toLower {c : Char} (h : c.toLower.isAlpha) : Common c := by
  have ha : c.isAlpha := by
    by_cases hu : c.isUpper
    · rw [Char.isAlpha, hu, Bool.true_or]
    · rwa [Char.toLower_eq_of_not_isUpper hu] at h
  exact .inl (by rw [Char.isAlphanum, ha, Bool.true_or])

theorem common_of_named (h : w ∈ named ["inf", "infinity", "nan"]) : ∀ c ∈ w, Common c := by
  have hall : ∀ c ∈ w.map Char.toLower, c.isAlpha := by
    rcases map_toLower_of_mem_named h with hw | hw | hw <;> rw [hw] <;>
      exact List.all_eq_true.1 rfl
  exact fun c hc => common_of_toLower (hall _ (List.mem_map_of_mem hc))

theorem Means.common (h : Means cs x) : ∀ c ∈ cs, Common c := by
  cases h with
  | decimal hs hw => exact List.forall_mem_append.2 ⟨hs.common, hw.common⟩
  | infinity hs hw =>
    exact List.forall_mem_append.2 ⟨hs.common, common_of_named (named_mono (by decide) hw)⟩
  | nan hs hw =>
    exact List.forall_mem_append.2 ⟨hs.common, common_of_named (named_mono (by decide) hw)⟩

theorem Means.plain (h : Means cs x) : Plain cs := plain_of_common h.common

end

instance (cs : List Char) : Decidable (Plain cs) :=
  inferInstanceAs (Decidable ((∀ c ∈ cs, c.toNat < 128) ∧ trim isSpace cs = cs ∧ '_' ∉ cs))

/-- The numbers that a lenient host reads, but in plain texts only. -/
def readPlain (text : String) : Option Float :=
  if Plain text.toList then readLenient text else none

theorem read_eq_readPlain (text : String) : read text = readPlain text := by
  unfold readPlain
  split
  next h => exact (readLenient_of_plain h).symm
  next h =>
    cases hr : read text with
    | none => rfl
    | some x => exact absurd (read_iff.1 hr).plain h

example : readLenient "\t1_000.5 " = read "1000.5" ∧ read "\t1_000.5 " = none := by decide +kernel

theorem isSome_read_iff (text : String) : (read text).isSome ↔ text.toList ∈ numerals := by
  rw [Option.isSome_iff_exists, mem_numerals_iff]
  exact exists_congr fun x => read_iff

end Numeral

open Numeral (Means numerals)

theorem Value.applyUnary_plus_string (text : String) :
    (∀ v, applyUnary .plus (.string text) = .ok v ↔ ∃ x, Means text.toList x ∧ v = .number x) ∧
    (∀ e, applyUnary .plus (.string text) = .error e ↔
      text.toList ∉ numerals ∧ e = .invalidNumber text) := by
  have hsome := Numeral.isSome_read_iff text
  change (∀ v, ofNumeral text = .ok v ↔ _) ∧ ∀ e, ofNumeral text = .error e ↔ _
  simp only [← Numeral.read_iff, ← hsome, ofNumeral]
  cases Numeral.read text with
  | none => simp [eq_comm]
  | some x => simp [eq_comm]

theorem CommandLine.valueOf_eq_number_iff (text : String) (x : Float) :
    valueOf text = .number x ↔ Means text.toList x := by
  rw [← Numeral.read_iff]
  constructor
  · intro h
    unfold valueOf at h
    split_ifs at h
    split at h
    next hr => cases h; exact hr
    next => cases h
  · exact valueOf_of_read

theorem CommandLine.valueOf_of_notMem {text : String} (h : text.toList ∉ numerals) :
    valueOf text = if text = "true" then .boolean true else if text = "false" then .boolean false
      else .string text := by
  rw [← Numeral.isSome_read_iff, Bool.not_eq_true, Option.isSome_eq_false_iff,
    Option.isNone_iff_eq_none] at h
  rw [valueOf, h]

/-- The texts that become numbers are those of the grammar, and they become what they stand for:
wherever a number is read, behind a plus sign and in a binding of the command line. A more lenient
host that is asked about plain texts only reads the same. -/
theorem texts_of_numbers (text : String) :
    ((Numeral.read text).isSome ↔ text.toList ∈ numerals) ∧
    (∀ x, Numeral.read text = some x ↔ Means text.toList x) ∧
    Numeral.read text = Numeral.readPlain text ∧
    (∀ v, Value.applyUnary .plus (.string text) = .ok v ↔
      ∃ x, Means text.toList x ∧ v = .number x) ∧
    (∀ e, Value.applyUnary .plus (.string text) = .error e ↔
      text.toList ∉ numerals ∧ e = .invalidNumber text) ∧
    ∀ name : List Char, name ≠ [] → '=' ∉ name → ∃ v,
      CommandLine.parseBinding (String.ofList name ++ "=" ++ text) = .ok (String.ofList name, v) ∧
      (∀ x, v = .number x ↔ Means text.toList x) ∧
      (text.toList ∉ numerals → v =
        if text = "true" then .boolean true else if text = "false" then .boolean false
        else .string text) := by
  obtain ⟨hok, herror⟩ := Value.applyUnary_plus_string text
  exact ⟨Numeral.isSome_read_iff text, fun _ => Numeral.read_iff, Numeral.read_eq_readPlain text,
    hok, herror, fun name hn he => ⟨_, CommandLine.parseBinding_eq name text hn he,
      CommandLine.valueOf_eq_number_iff text, CommandLine.valueOf_of_notMem⟩⟩

/-- `-1e400`, which overflows, and `1_000`, which is the text of no number. -/
theorem texts_of_numbers_of_overflow :
    Means "-1e400".toList (Double.infinity true) ∧
    CommandLine.parseBinding "n=-1e400" = .ok ("n", .number (Double.infinity true)) ∧
    CommandLine.parseBinding "n=1_000" = .ok ("n", .string "1_000") ∧
    Value.applyUnary .plus (.string "1_000") = .error (.invalidNumber "1_000") := by
  obtain ⟨-, hmeans, -, -, -, hbinding⟩ := texts_of_numbers "-1e400"
  obtain ⟨hsome, -, -, -, herror, hbinding'⟩ := texts_of_numbers "1_000"
  have hm : Means "-1e400".toList (Double.infinity true) := (hmeans _).1 (by decide +kernel)
  have hn : "1_000".toList ∉ numerals := fun h => absurd (hsome.2 h) (by decide +kernel)
  obtain ⟨v, hv, hnumber, -⟩ := hbinding ['n'] (by decide) (by decide)
  obtain ⟨v', hv', -, hother⟩ := hbinding' ['n'] (by decide) (by decide)
  rw [(hnumber _).2 hm] at hv
  rw [hother hn, if_neg (by decide), if_neg (by decide)] at hv'
  exact ⟨hm, hv, hv', (herror _).2 ⟨hn, rfl⟩⟩

end Formulae
