import Mathlib.Data.List.Basic

/-!
Expressions in prefix notation as text: atoms, and parentheses around a head and items with a blank
before each. The text tells them apart, as every one of them shows where it ends.
-/

namespace Formulae

inductive Sexp
  | atom (word : List Char)
  | node (head : List Char) (items : List Sexp)

namespace Sexp

mutual

def print : Sexp → List Char
  | .atom word => word
  | .node head items => '(' :: (head ++ (printAll items ++ [')']))

def printAll : List Sexp → List Char
  | [] => []
  | item :: items => ' ' :: (item.print ++ printAll items)

end

def isPlain (c : Char) : Bool := !(c = ' ' || c = '(' || c = ')' || c = '"')

inductive Atom : List Char → Prop
  | plain (hne : w ≠ []) (h : ∀ c ∈ w, isPlain c) : Atom w
  | quoted (h : ∀ c ∈ w, c ≠ '"') : Atom ('"' :: (w ++ ['"']))

mutual

def Proper : Sexp → Prop
  | .atom word => Atom word
  | .node head items => (∀ c ∈ head, isPlain c) ∧ ProperAll items

def ProperAll : List Sexp → Prop
  | [] => True
  | item :: items => item.Proper ∧ ProperAll items

end

def Behind (r : List Char) : Prop := ∀ c ∈ r.head?, c = ' ' ∨ c = ')'

theorem Behind.not_isPlain (h : Behind r) : ∀ c ∈ r.head?, ¬ isPlain c := by
  intro c hc
  obtain rfl | rfl := h c hc <;> decide

theorem behind_printAll (items : List Sexp) (r : List Char) :
    Behind (printAll items ++ ')' :: r) := by
  cases items with
  | nil => rintro _ ⟨⟩; exact .inr rfl
  | cons => rintro _ ⟨⟩; exact .inl rfl

theorem word_unique {p : Char → Prop} {w v r s : List Char} (hw : ∀ c ∈ w, p c)
    (hv : ∀ c ∈ v, p c) (hr : ∀ c ∈ r.head?, ¬ p c) (hs : ∀ c ∈ s.head?, ¬ p c)
    (h : w ++ r = v ++ s) : w = v ∧ r = s := by
  induction w generalizing v with
  | nil =>
    cases v with
    | nil => exact ⟨rfl, h⟩
    | cons d v =>
      obtain rfl : r = d :: (v ++ s) := h
      exact absurd (hv d List.mem_cons_self) (hr d rfl)
  | cons c w ih =>
    cases v with
    | nil =>
      obtain rfl : c :: (w ++ r) = s := h
      exact absurd (hw c List.mem_cons_self) (hs c rfl)
    | cons d v =>
      obtain ⟨rfl, he⟩ := List.cons.inj h
      obtain ⟨hc, hw⟩ := List.forall_mem_cons.1 hw
      obtain ⟨-, hv⟩ := List.forall_mem_cons.1 hv
      obtain ⟨rfl, hrs⟩ := ih hw hv he
      exact ⟨rfl, hrs⟩

theorem plain_ne_cons (hne : w ≠ []) (hw : ∀ c ∈ w, isPlain c) (hm : isPlain m = false) :
    w ++ r ≠ m :: v := by
  obtain ⟨c, w, rfl⟩ := List.exists_cons_of_ne_nil hne
  intro h
  obtain ⟨rfl, -⟩ := List.cons.inj h
  have hc := hw c List.mem_cons_self
  rw [hm] at hc
  cases hc

theorem Atom.ne_paren (h : Atom w) (v : List Char) : w ++ r ≠ '(' :: v := by
  cases h with
  | plain hne hw => exact plain_ne_cons hne hw rfl
  | quoted => exact fun he => nomatch (List.cons.inj he).1

theorem Atom.unique (h : Atom w) (h' : Atom v) (hr : Behind r) (hs : Behind s)
    (he : w ++ r = v ++ s) : w = v ∧ r = s := by
  cases h with
  | plain hne hw =>
    cases h' with
    | plain _ hv => exact word_unique hw hv hr.not_isPlain hs.not_isPlain he
    | quoted => exact absurd he (plain_ne_cons hne hw rfl)
  | quoted hw =>
    cases h' with
    | plain hne hv => exact absurd he.symm (plain_ne_cons hne hv rfl)
    | quoted hv =>
      have ht := (List.cons.inj he).2
      simp only [List.append_eq, List.append_assoc, List.singleton_append] at ht
      obtain ⟨rfl, hrs⟩ := word_unique hw hv (by simp) (by simp) ht
      exact ⟨rfl, (List.cons.inj hrs).2⟩

mutual

/-- In front of anything that may stand behind it, an expression is told by its text. -/
theorem print_unique : (x y : Sexp) → x.Proper → y.Proper → Behind r → Behind s →
    x.print ++ r = y.print ++ s → x = y ∧ r = s
  | .atom w, .atom v, hx, hy, hr, hs, h => by
    obtain ⟨rfl, hrs⟩ := Atom.unique hx hy hr hs h
    exact ⟨rfl, hrs⟩
  | .atom w, .node .., hx, _, _, _, h => (Atom.ne_paren hx _ h).elim
  | .node .., .atom v, _, hy, _, _, h => (Atom.ne_paren hy _ h.symm).elim
  | .node head items, .node head' items', hx, hy, _, _, h => by
    have ht := (List.cons.inj h).2
    simp only [List.append_eq, List.append_assoc, List.singleton_append] at ht
    obtain ⟨rfl, hi⟩ := word_unique hx.1 hy.1 (behind_printAll items _).not_isPlain
      (behind_printAll items' _).not_isPlain ht
    obtain ⟨rfl, hrs⟩ := printAll_unique items items' hx.2 hy.2 hi
    exact ⟨rfl, hrs⟩

theorem printAll_unique : (xs ys : List Sexp) → ProperAll xs → ProperAll ys →
    printAll xs ++ ')' :: r = printAll ys ++ ')' :: s → xs = ys ∧ r = s
  | [], [], _, _, h => ⟨rfl, (List.cons.inj h).2⟩
  | [], _ :: _, _, _, h => nomatch (List.cons.inj h).1
  | _ :: _, [], _, _, h => nomatch (List.cons.inj h).1
  | x :: xs, y :: ys, hx, hy, h => by
    have ht := (List.cons.inj h).2
    simp only [List.append_eq, List.append_assoc] at ht
    obtain ⟨rfl, hi⟩ := print_unique x y hx.1 hy.1 (behind_printAll xs _) (behind_printAll ys _) ht
    obtain ⟨rfl, hrs⟩ := printAll_unique xs ys hx.2 hy.2 hi
    exact ⟨rfl, hrs⟩

end

theorem print_injective {x y : Sexp} (hx : x.Proper) (hy : y.Proper) (h : x.print = y.print) :
    x = y :=
  (print_unique (r := []) (s := []) x y hx hy nofun nofun (by rw [h])).1

end Sexp

end Formulae
