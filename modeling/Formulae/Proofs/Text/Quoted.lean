import Formulae.Text.Quoted
import Mathlib.Tactic.SplitIfs

namespace Formulae.Text

def hexDigit? (c : Char) : Option Nat := "0123456789abcdef".toList.idxOf? c

def escapedByte? : Char → Option UInt8
  | '\\' => some 0x5c
  | '\'' => some 0x27
  | '"' => some 0x22
  | 'n' => some 0x0a
  | 'r' => some 0x0d
  | 't' => some 0x09
  | _ => none

def bytesUntil (quote : Char) : List Char → Option (List UInt8)
  | [] => none
  | '\\' :: 'x' :: high :: low :: cs => do
    let high ← hexDigit? high
    let low ← hexDigit? low
    let bytes ← bytesUntil quote cs
    return UInt8.ofNat (16 * high + low) :: bytes
  | '\\' :: c :: cs => do
    let b ← escapedByte? c
    let bytes ← bytesUntil quote cs
    return b :: bytes
  | c :: cs =>
    if c = quote then if cs = [] then some [] else none
    else if c.toNat < 0x80 then do
      let bytes ← bytesUntil quote cs
      return UInt8.ofNat c.toNat :: bytes
    else none

/-- The bytes that a literal stands for. -/
def bytesOfLiteral (text : String) : Option (List UInt8) :=
  match text.toList with
  | 'b' :: quote :: cs => if quote = '\'' ∨ quote = '"' then bytesUntil quote cs else none
  | _ => none

theorem quoteFor_eq (cs : List Char) : quoteFor cs = '\'' ∨ quoteFor cs = '"' := by
  unfold quoteFor
  split
  · exact .inr rfl
  · exact .inl rfl

theorem hexDigit?_digitChar : ∀ d < 16, hexDigit? (Nat.digitChar d) = some d := by decide

theorem hex_two : ∀ n < 256, hex 2 n = [Nat.digitChar (n / 16), Nat.digitChar (n % 16)] := by
  decide +kernel

section

variable {quote : Char} {b : UInt8}

theorem bytesUntil_hex (cs : List Char) :
    bytesUntil quote ('\\' :: 'x' :: (hex 2 b.toNat ++ cs)) =
      (bytesUntil quote cs).map (b :: ·) := by
  have hb : b.toNat < 256 := b.toNat_lt
  have hhigh := hexDigit?_digitChar (b.toNat / 16) (by omega)
  have hlow := hexDigit?_digitChar (b.toNat % 16) (by omega)
  rw [hex_two _ hb, List.cons_append, List.cons_append, List.nil_append, bytesUntil, hhigh, hlow]
  change (bytesUntil quote cs).bind _ = _
  rw [Nat.div_add_mod, UInt8.ofNat_toNat, Option.map_eq_bind]
  rfl

theorem bytesUntil_backslash {c : Char} (h : escapedByte? c = some b) (cs : List Char) :
    bytesUntil quote ('\\' :: c :: cs) = (bytesUntil quote cs).map (b :: ·) := by
  have hx : c ≠ 'x' := by
    rintro rfl
    cases h
  rw [bytesUntil, h, Option.map_eq_bind]
  · rfl
  · exact fun _ _ _ hc _ => hx hc

theorem bytesUntil_plain {c : Char} (hq : c ≠ quote) (hs : c ≠ '\\') (h : c.toNat < 0x80)
    (cs : List Char) :
    bytesUntil quote (c :: cs) = (bytesUntil quote cs).map (UInt8.ofNat c.toNat :: ·) := by
  rw [bytesUntil, if_neg hq, if_pos h, Option.map_eq_bind]
  · rfl
  · exact fun _ _ _ hc _ => hs hc
  · exact fun _ _ hc _ => hs hc

theorem bytesUntil_escape (hq : quote = '\'' ∨ quote = '"') (b : UInt8) (cs : List Char) :
    bytesUntil quote (escape isPlainByte quote (Char.ofNat b.toNat) ++ cs) =
      (bytesUntil quote cs).map (b :: ·) := by
  have hchar : ∀ b : Fin 256, (Char.ofNat b).toNat = b := by decide +kernel
  have hc : (Char.ofNat b.toNat).toNat = b.toNat := hchar b.toFin
  generalize Char.ofNat b.toNat = c at *
  have hb : UInt8.ofNat c.toNat = b := by rw [hc, UInt8.ofNat_toNat]
  unfold escape
  split_ifs with hquote hn hr ht hp
  · refine bytesUntil_backslash ?_ cs
    subst hb
    rcases hquote with rfl | rfl
    · rcases hq with rfl | rfl <;> rfl
    · rfl
  · exact bytesUntil_backslash (hb ▸ hn ▸ rfl) cs
  · exact bytesUntil_backslash (hb ▸ hr ▸ rfl) cs
  · exact bytesUntil_backslash (hb ▸ ht ▸ rfl) cs
  · obtain ⟨hne, hs⟩ := not_or.1 hquote
    have hlt : c.toNat < 0x80 := by
      simp only [isPlainByte, Bool.and_eq_true, decide_eq_true_eq] at hp
      omega
    exact hb ▸ bytesUntil_plain hne hs hlt cs
  · rw [numericEscape, hc, if_pos b.toNat_lt]
    exact bytesUntil_hex cs

theorem bytesUntil_enclosed (hq : quote = '\'' ∨ quote = '"') (bytes : List UInt8) :
    bytesUntil quote ((bytes.map fun b => Char.ofNat b.toNat).flatMap (escape isPlainByte quote) ++
      [quote]) = some bytes := by
  induction bytes with
  | nil => rcases hq with rfl | rfl <;> rfl
  | cons b bytes ih =>
    rw [List.map_cons, List.flatMap_cons, List.append_assoc, bytesUntil_escape hq, ih]
    rfl

end

theorem bytesOfLiteral_quotedBytes (bytes : List UInt8) :
    bytesOfLiteral (quotedBytes bytes) = some bytes := by
  have hq := quoteFor_eq (bytes.map fun b => Char.ofNat b.toNat)
  rw [bytesOfLiteral, quotedBytes, String.toList_ofList, enclose, List.cons_append]
  exact (if_pos hq).trans (bytesUntil_enclosed hq bytes)

end Formulae.Text
