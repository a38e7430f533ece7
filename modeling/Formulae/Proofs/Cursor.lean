import Formulae.Cursor
import Mathlib.Data.List.Iterate

namespace Formulae.Cursor

def after (c : Cursor α) (steps : List Step) : Cursor α :=
  steps.foldl (fun c s => (c.run s).2) c

def closed (c : Cursor α) : Step → List (List α)
  | .commit => [c.slice]
  | _ => []

/-- The windows that the commits among these steps close, as they are right before. -/
def windows (c : Cursor α) : List Step → List (List α)
  | [] => []
  | s :: steps => c.closed s ++ (c.run s).2.windows steps

theorem after_append (c : Cursor α) (steps steps' : List Step) :
    c.after (steps ++ steps') = (c.after steps).after steps' :=
  List.foldl_append

theorem windows_append (c : Cursor α) (steps steps' : List Step) :
    c.windows (steps ++ steps') = c.windows steps ++ (c.after steps).windows steps' := by
  induction steps generalizing c with
  | nil => rfl
  | cons s steps ih =>
    rw [List.cons_append, windows, ih, ← List.append_assoc]
    rfl

theorem after_advances (c : Cursor α) (n : Nat) :
    c.after (List.replicate n .advance) = advance^[n] c := by
  induction n generalizing c with
  | zero => rfl
  | succ n ih => exact ih c.advance

theorem windows_advances (c : Cursor α) (n : Nat) :
    c.windows (List.replicate n .advance) = [] := by
  induction n generalizing c with
  | zero => rfl
  | succ n ih => exact ih c.advance

theorem peek_natCast (c : Cursor α) (n : Nat) :
    c.peek n = .ok c.elements[c.position + n]? := by
  have h : (0 : Int) ≤ c.position + n := Int.natCast_nonneg (c.position + n)
  rw [peek, if_pos h]
  rfl

def rest (c : Cursor α) : List α := c.elements.drop c.position

theorem peek_eq_rest (c : Cursor α) (n : Nat) : c.peek n = .ok c.rest[n]? := by
  rw [peek_natCast, rest, List.getElem?_drop]

theorem rest_of_peek {c : Cursor α} (h : c.peek 0 = .ok (some e)) :
    c.rest = e :: c.rest.tail := by
  have hr : some e = c.rest[0]? := Except.ok.inj (h.symm.trans (c.peek_eq_rest 0))
  generalize c.rest = es at hr
  cases es with
  | nil => cases hr
  | cons => cases hr; rfl

theorem rest_eq_nil {c : Cursor α} (h : ∀ e, c.peek 0 ≠ .ok (some e)) : c.rest = [] := by
  cases hr : c.rest with
  | nil => rfl
  | cons e es => exact absurd ((c.peek_eq_rest 0).trans (by rw [hr]; rfl)) (h e)

theorem rest_of_peek_none {c : Cursor α} (h : c.peek 0 = .ok none) : c.rest = [] :=
  rest_eq_nil fun e he => by cases h.symm.trans he

theorem advance_of_end {c : Cursor α} (h : c.position = c.elements.length) : c.advance = c :=
  if_pos h

theorem advance_of_ne {c : Cursor α} (h : c.position ≠ c.elements.length) :
    c.advance = { c with position := c.position + 1 } :=
  if_neg h

@[simp] theorem rest_advance (c : Cursor α) : c.advance.rest = c.rest.tail := by
  by_cases he : c.position = c.elements.length
  · rw [advance_of_end he, rest, he, List.drop_length]
    rfl
  · rw [advance_of_ne he, rest, rest, List.tail_drop]

@[simp] theorem rest_iterate_advance (c : Cursor α) (n : Nat) :
    (advance^[n] c).rest = c.rest.drop n := by
  induction n with
  | zero => rfl
  | succ n ih => rw [Function.iterate_succ_apply', rest_advance, ih, List.tail_drop]

@[simp] theorem rest_commit (c : Cursor α) : c.commit.rest = c.rest := rfl

@[simp] theorem slice_commit (c : Cursor α) : c.commit.slice = [] :=
  List.drop_eq_nil_of_le (List.length_take_le _ _)

structure InBounds (c : Cursor α) : Prop where
  start_le : c.windowStart ≤ c.position
  position_le : c.position ≤ c.elements.length

theorem inBounds_ofList (elements : List α) : InBounds (ofList elements) :=
  ⟨Nat.le_refl 0, Nat.zero_le _⟩

namespace InBounds

variable {c : Cursor α}

theorem lt_length (h : InBounds c) (hne : c.position ≠ c.elements.length) :
    c.position < c.elements.length :=
  Nat.lt_of_le_of_ne h.position_le hne

theorem advance (h : InBounds c) : InBounds c.advance := by
  by_cases he : c.position = c.elements.length
  · rwa [advance_of_end he]
  · rw [advance_of_ne he]
    exact ⟨Nat.le_succ_of_le h.start_le, h.lt_length he⟩

theorem iterate_advance (h : InBounds c) (n : Nat) : InBounds (Cursor.advance^[n] c) := by
  induction n with
  | zero => exact h
  | succ n ih =>
    rw [Function.iterate_succ_apply']
    exact ih.advance

theorem commit (h : InBounds c) : InBounds c.commit := ⟨Nat.le_refl _, h.position_le⟩

theorem position_eq_of_rest (h : InBounds c) (hr : c.rest = []) :
    c.position = c.elements.length :=
  Nat.le_antisymm h.position_le (List.drop_eq_nil_iff.1 hr)

theorem slice_advance (h : InBounds c) (hr : c.rest = e :: es) :
    c.advance.slice = c.slice ++ [e] := by
  have he : c.position ≠ c.elements.length := by
    intro he
    rw [rest, he, List.drop_length] at hr
    cases hr
  have hlt := h.lt_length he
  have hg : c.elements[c.position] = e := by
    rw [rest, List.drop_eq_getElem_cons hlt] at hr
    exact (List.cons.inj hr).1
  rw [advance_of_ne he, slice, slice, List.take_succ_eq_append_getElem hlt, hg,
    List.drop_append_of_le_length]
  rw [List.length_take, Nat.min_eq_left h.position_le]
  exact h.start_le

theorem slice_iterate_advance (h : InBounds c) (n : Nat) :
    (Cursor.advance^[n] c).slice = c.slice ++ c.rest.take n := by
  induction n generalizing c with
  | zero => rw [List.take_zero, List.append_nil]; rfl
  | succ n ih =>
    rw [Function.iterate_succ_apply, ih h.advance, rest_advance]
    cases hr : c.rest with
    | nil =>
      rw [advance_of_end (h.position_eq_of_rest hr), List.tail_nil, List.take_nil, List.take_nil]
    | cons e es =>
      rw [h.slice_advance hr, List.append_assoc]
      rfl

end InBounds

/-- What is known of a cursor that has been advanced `k` times and whose closed windows are `ws`. -/
structure Tracks (elements : List α) (k : Nat) (ws : List (List α)) (c : Cursor α) : Prop
    extends InBounds c where
  elements_eq : c.elements = elements
  position_eq : c.position = min elements.length k
  flatten_eq : ws.flatten = elements.take c.windowStart

namespace Tracks

variable {elements : List α} {c : Cursor α}

theorem start (elements : List α) : Tracks elements 0 [] (ofList elements) where
  toInBounds := inBounds_ofList elements
  elements_eq := rfl
  position_eq := (Nat.min_zero _).symm
  flatten_eq := rfl

theorem flatten_append_slice (h : Tracks elements k ws c) :
    ws.flatten ++ c.slice = elements.take c.position := by
  have ht : elements.take c.windowStart = (elements.take c.position).take c.windowStart := by
    rw [List.take_take, Nat.min_eq_left h.start_le]
  rw [h.flatten_eq, ht, slice, h.elements_eq, List.take_append_drop]

theorem advance (h : Tracks elements k ws c) : Tracks elements (k + 1) ws c.advance := by
  have hp := h.position_eq
  have hle := h.position_le
  by_cases he : c.position = c.elements.length
  · rw [advance_of_end he]
    rw [h.elements_eq] at he
    exact ⟨h.toInBounds, h.elements_eq, by omega, h.flatten_eq⟩
  · have hb := h.toInBounds.advance
    rw [advance_of_ne he] at hb ⊢
    rw [h.elements_eq] at he hle
    exact ⟨hb, h.elements_eq, by simp only; omega, h.flatten_eq⟩

theorem commit (h : Tracks elements k ws c) : Tracks elements k (ws ++ [c.slice]) c.commit where
  toInBounds := h.toInBounds.commit
  elements_eq := h.elements_eq
  position_eq := h.position_eq
  flatten_eq := by
    rw [List.flatten_append, List.flatten_singleton]
    exact h.flatten_append_slice

theorem step (h : Tracks elements k ws c) (s : Step) :
    Tracks elements (k + [s].count .advance) (ws ++ c.closed s) (c.run s).2 := by
  cases s with
  | peek n => exact (List.append_nil ws).symm ▸ h
  | slice => exact (List.append_nil ws).symm ▸ h
  | advance => exact (List.append_nil ws).symm ▸ h.advance
  | commit => exact h.commit

theorem after (h : Tracks elements k ws c) (steps : List Step) :
    Tracks elements (k + steps.count .advance) (ws ++ c.windows steps) (c.after steps) := by
  induction steps generalizing k ws c with
  | nil => exact (List.append_nil ws).symm ▸ h
  | cons s steps ih =>
    have hs := ih (h.step s)
    rw [Nat.add_assoc, ← List.count_append, List.append_assoc] at hs
    exact hs

end Tracks

/-- Whatever one does with a cursor, step by step: its window begins in front of its position and
its position is within the sequence, as far on as it was advanced. Looking gives the element that
many places on and changes nothing, and the closed windows followed by the open one are all that it
has passed. -/
theorem windows_partition (elements : List α) (steps : List Step) :
    let c := (ofList elements).after steps
    (0 ≤ c.windowStart ∧ c.windowStart ≤ c.position ∧ c.position ≤ elements.length) ∧
    c.position = min elements.length (steps.count .advance) ∧
    (∀ n : Nat, c.run (.peek n) = (.ok (.element elements[c.position + n]?), c) ∧
      ((c.run (.peek n)).1 = .ok (.element none) ↔ elements.length ≤ c.position + n)) ∧
    c.run .slice = (.ok (.window c.slice), c) ∧
    ((ofList elements).windows steps).flatten ++ c.slice = elements.take c.position := by
  intro c
  have h : Tracks elements (0 + steps.count .advance) ((ofList elements).windows steps) c :=
    (Tracks.start elements).after steps
  rw [Nat.zero_add] at h
  have hpeek (n : Nat) : c.run (.peek n) = (.ok (.element elements[c.position + n]?), c) := by
    rw [run, peek_natCast, h.elements_eq]
    rfl
  refine ⟨⟨Nat.zero_le _, h.start_le, h.elements_eq ▸ h.position_le⟩, h.position_eq,
    fun n => ⟨hpeek n, ?_⟩, rfl, h.flatten_append_slice⟩
  rw [hpeek, ← List.getElem?_eq_none_iff]
  simp only [Except.ok.injEq, Answer.element.injEq]

example : (ofList [7, 8, 9]).windows [.advance, .commit, .peek 1, .advance, .advance, .slice,
    .advance, .commit, .commit] = [[7], [8, 9], []] := rfl

end Formulae.Cursor
