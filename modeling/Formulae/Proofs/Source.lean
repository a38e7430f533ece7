import Formulae.Proofs.Text.Quoted
import Formulae.Source
import Mathlib.Data.List.Induction
import Mathlib.Order.Bounds.Basic

namespace Formulae

namespace Text

def encodeUtf8 (text : String) : List UInt8 := text.toList.flatMap String.utf8EncodeChar

def wellFormedFronts (bytes : List UInt8) : Set Nat :=
  {n | ∃ text, encodeUtf8 text <+: bytes ∧ (encodeUtf8 text).length = n}

theorem fromUTF8?_eq_some_iff {bytes : ByteArray} {text : String} :
    String.fromUTF8? bytes = some text ↔ text.toByteArray = bytes := by
  unfold String.fromUTF8?
  split
  next h =>
    rw [Option.some_inj, ← String.toByteArray_inj, eq_comm]
    rfl
  next h =>
    refine iff_of_false nofun ?_
    rintro rfl
    exact h text.isValidUTF8

theorem toByteArray_encodeUtf8 (text : String) :
    (encodeUtf8 text).toByteArray = text.toByteArray := String.utf8Encode_toList

theorem fromUTF8?_toByteArray {bytes : List UInt8} {text : String} :
    String.fromUTF8? bytes.toByteArray = some text ↔ encodeUtf8 text = bytes := by
  rw [fromUTF8?_eq_some_iff, ← List.toByteArray_inj, toByteArray_encodeUtf8]

section

variable {bytes : List UInt8} {n : Nat} {c : Char}

theorem utf8DecodeChar?_append (front rest : List UInt8) (c : Char) :
    (front ++ (String.utf8EncodeChar c ++ rest)).toByteArray.utf8DecodeChar? front.length =
      some c := by
  rw [ByteArray.utf8DecodeChar?_eq_utf8DecodeChar?_extract, List.toByteArray_append,
    ByteArray.extract_append_eq_right (by simp) (by simp), List.toByteArray_append]
  exact ByteArray.utf8DecodeChar?_utf8EncodeChar_append

theorem take_of_utf8DecodeChar? (h : bytes.toByteArray.utf8DecodeChar? n = some c) :
    (bytes.drop n).take c.utf8Size = String.utf8EncodeChar c := by
  rw [ByteArray.utf8DecodeChar?_eq_utf8DecodeChar?_extract] at h
  have he := String.toByteArray_utf8EncodeChar_of_utf8DecodeChar?_eq_some h
  have hl := congrArg (fun b : ByteArray => b.data.toList) he
  simpa [List.take_of_length_le] using hl.symm

theorem le_wellFormedEnd (bytes : ByteArray) (n : Nat) : n ≤ wellFormedEnd bytes n := by
  fun_induction wellFormedEnd bytes n with
  | case1 n c _ ih => exact Nat.le_trans (Nat.le_add_right _ _) ih
  | case2 n _ => exact Nat.le_refl n

theorem wellFormedEnd_eq_self {bytes : ByteArray} (h : bytes.utf8DecodeChar? n = none) :
    wellFormedEnd bytes n = n := by
  rw [wellFormedEnd]
  split
  next hc =>
    rw [h] at hc
    cases hc
  next => rfl

theorem wellFormedEnd_behind (cs : List Char) (rest : List UInt8) :
    wellFormedEnd (cs.flatMap String.utf8EncodeChar ++ rest).toByteArray 0 =
      wellFormedEnd (cs.flatMap String.utf8EncodeChar ++ rest).toByteArray
        (cs.flatMap String.utf8EncodeChar).length := by
  induction cs using List.reverseRecOn generalizing rest with
  | nil => rfl
  | append_singleton cs c ih =>
    rw [List.flatMap_append, List.flatMap_singleton, List.append_assoc, ih, wellFormedEnd]
    split
    next d hd =>
      rw [utf8DecodeChar?_append] at hd
      cases hd
      rw [List.length_append, String.length_utf8EncodeChar]
    next hd =>
      rw [utf8DecodeChar?_append] at hd
      cases hd

theorem wellFormedEnd_mem (h : n ∈ wellFormedFronts bytes) :
    wellFormedEnd bytes.toByteArray n ∈ wellFormedFronts bytes := by
  fun_induction wellFormedEnd bytes.toByteArray n with
  | case1 n c hc ih =>
    obtain ⟨text, ⟨rest, rfl⟩, rfl⟩ := h
    have hd := take_of_utf8DecodeChar? hc
    rw [List.drop_left] at hd
    refine ih ⟨text.push c, ?_, ?_⟩
    · have hp : encodeUtf8 (text.push c) = encodeUtf8 text ++ rest.take c.utf8Size := by
        rw [hd]
        simp [encodeUtf8]
      rw [hp]
      exact List.prefix_append_right_inj _ |>.2 (List.take_prefix _ _)
    · simp [encodeUtf8]
  | case2 n _ => exact h

theorem wellFormedEnd_isGreatest (bytes : List UInt8) :
    IsGreatest (wellFormedFronts bytes) (wellFormedEnd bytes.toByteArray 0) := by
  constructor
  · exact wellFormedEnd_mem ⟨"", by simp [encodeUtf8], by simp [encodeUtf8]⟩
  · rintro n ⟨text, ⟨rest, rfl⟩, rfl⟩
    rw [encodeUtf8, wellFormedEnd_behind]
    exact le_wellFormedEnd _ _

end

end Text

namespace Source

open Text (encodeUtf8 wellFormedFronts)

/-- Asked for so many bytes each time, a source gives these in pieces that are not empty, and then
an empty one. -/
inductive Delivers (size : Int) : Source → List UInt8 → Prop
  | memory (bytes : List UInt8) (h : 0 < size) : Delivers size (.memory bytes) bytes
  | pieces (list rest : List (List UInt8)) (h : ∀ piece ∈ list, piece ≠ [])
      (hr : rest.headD [] = []) : Delivers size (.pieces (list ++ rest)) list.flatten

theorem flatten_cut (size : Nat) (bytes : List UInt8) : (cut size bytes).flatten = bytes := by
  fun_induction cut size bytes with
  | case1 => rfl
  | case2 b bs ih => rw [List.flatten_cons, ih, List.cons_append, List.take_append_drop]

theorem deliveries_pieces {list rest : List (List UInt8)} (h : ∀ piece ∈ list, piece ≠ [])
    (hr : rest.headD [] = []) (size : Int) : (pieces (list ++ rest)).deliveries size = list := by
  have hrest : rest.takeWhile (fun piece => decide (piece ≠ [])) = [] := by
    cases rest with
    | nil => rfl
    | cons piece rest => exact List.takeWhile_cons_of_neg (by simpa using hr)
  rw [deliveries, List.takeWhile_append_of_pos fun piece hp => decide_eq_true (h piece hp), hrest,
    List.append_nil]

theorem Delivers.bytes_eq {size : Int} {source : Source} {data : List UInt8}
    (h : Delivers size source data) : source.bytes size = data := by
  cases h with
  | memory _ hs =>
    rw [bytes, deliveries]
    split
    next h =>
      obtain rfl := h.resolve_left (by omega)
      rfl
    next => rw [if_neg (by omega), flatten_cut]
  | pieces _ _ h hr => rw [bytes, deliveries_pieces h hr]

end Source

open Text (encodeUtf8 wellFormedFronts)

section

variable {bytes : List UInt8}

theorem decode_eq_ok_iff {text : String} : decode bytes = .ok text ↔ encodeUtf8 text = bytes := by
  rw [← Text.fromUTF8?_toByteArray, decode, Text.decodeUtf8]
  cases String.fromUTF8? bytes.toByteArray with
  | some text' => rw [Except.ok.injEq, Option.some_inj]
  | none => exact iff_of_false nofun nofun

theorem decode_of_no_text (h : ¬ ∃ text, encodeUtf8 text = bytes) :
    ∃ n, IsGreatest (wellFormedFronts bytes) n ∧ decode bytes = .error ⟨n, bytes.drop n⟩ := by
  have hn : String.fromUTF8? bytes.toByteArray = none :=
    Option.eq_none_iff_forall_ne_some.2 fun text ht => h ⟨text, Text.fromUTF8?_toByteArray.1 ht⟩
  refine ⟨_, Text.wellFormedEnd_isGreatest bytes, ?_⟩
  rw [decode, Text.decodeUtf8, hn]

/-- However a source delivers bytes, it is read as the text that they encode. If they encode none,
the error tells how long the longest front of them is that does, and what it shows is a literal for
the bytes from there on, four at most. -/
theorem Source.read_exactly_utf8 {size : Int} {source : Source} (h : source.Delivers size bytes) :
    (∀ size' source', Delivers size' source' bytes → source'.read size' = source.read size) ∧
      (∀ text, source.read size = .ok text ↔ encodeUtf8 text = bytes) ∧
      ((¬ ∃ text, encodeUtf8 text = bytes) → ∃ n, IsGreatest (wellFormedFronts bytes) n ∧
        source.read size = .error ⟨n, bytes.drop n⟩ ∧
        (ReadError.mk n (bytes.drop n)).toDiagnostic.kind = .read ∧
        (ReadError.mk n (bytes.drop n)).toDiagnostic.message =
          s!"Input is not valid UTF-8 at byte {n}" ∧
        (ReadError.mk n (bytes.drop n)).toDiagnostic.received =
          some s!"Bytes: {Text.quotedBytes ((bytes.drop n).take 4)}" ∧
        Text.bytesOfLiteral (Text.quotedBytes ((bytes.drop n).take 4)) =
          some ((bytes.drop n).take 4)) := by
  have hread {size : Int} {source : Source} (h : source.Delivers size bytes) :
      source.read size = decode bytes := congrArg decode h.bytes_eq
  refine ⟨fun size' source' h' => (hread h').trans (hread h).symm, fun text => ?_, fun hn => ?_⟩
  · rw [hread h, decode_eq_ok_iff]
  · obtain ⟨n, hg, he⟩ := decode_of_no_text hn
    exact ⟨n, hg, (hread h).trans he, rfl, rfl, rfl, Text.bytesOfLiteral_quotedBytes _⟩

/-- A euro sign in pieces and half a surrogate. -/
theorem Source.read_exactly_utf8_of_surrogate :
    let source : Source := .pieces [[0x61, 0xe2], [0x82], [0xac, 0xed, 0xa0], [], [0x62]]
    let bytes : List UInt8 := [0x61, 0xe2, 0x82, 0xac, 0xed, 0xa0]
    source.Delivers 2 bytes ∧ (¬ ∃ text, encodeUtf8 text = bytes) ∧
      IsGreatest (wellFormedFronts bytes) 4 ∧ source.read 2 = .error ⟨4, [0xed, 0xa0]⟩ ∧
      (ReadError.mk 4 [0xed, 0xa0]).toDiagnostic.kind = .read ∧
      (ReadError.mk 4 [0xed, 0xa0]).toDiagnostic.message =
        "Input is not valid UTF-8 at byte 4" ∧
      (ReadError.mk 4 [0xed, 0xa0]).toDiagnostic.received = some "Bytes: b'\\xed\\xa0'" ∧
      Text.bytesOfLiteral "b'\\xed\\xa0'" = some [0xed, 0xa0] := by
  intro source bytes
  have hd : source.Delivers 2 bytes :=
    .pieces [[0x61, 0xe2], [0x82], [0xac, 0xed, 0xa0]] [[], [0x62]] (by decide) rfl
  have hend : Text.wellFormedEnd bytes.toByteArray 0 = 4 := by
    refine (Text.wellFormedEnd_behind ['a', '€'] [0xed, 0xa0]).trans ?_
    exact Text.wellFormedEnd_eq_self (by decide)
  have hg : IsGreatest (wellFormedFronts bytes) 4 := hend ▸ Text.wellFormedEnd_isGreatest bytes
  have hn : ¬ ∃ text, encodeUtf8 text = bytes := by
    rintro ⟨text, ht⟩
    have hl := hg.2 ⟨text, ht ▸ List.prefix_refl _, congrArg List.length ht⟩
    exact absurd hl (by decide)
  obtain ⟨n, hn', he, hkind, hmessage, hreceived, hshown⟩ := (read_exactly_utf8 hd).2.2 hn
  obtain rfl : n = 4 := hn'.unique hg
  exact ⟨hd, hn, hg, he, hkind, hmessage, hreceived, hshown⟩

end

end Formulae
