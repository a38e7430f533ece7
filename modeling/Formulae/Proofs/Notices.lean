import Formulae.Notice

namespace Formulae

namespace Location

def isKnown (l : Location) : Bool := l.line.isSome && l.column.isSome

theorem exists_eq_ofPair {l : Location} (h : l.isKnown) : ∃ line column, l = ofPair line column := by
  rcases l with ⟨_ | line, _ | column⟩
  case some.some => exact ⟨line, column, rfl⟩
  all_goals cases h

theorem orElse_of_ne_nowhere {l : Location} (h : l ≠ nowhere) (m : Location) : l.orElse m = l := by
  rcases l with ⟨_ | line, _ | column⟩
  case none.none => exact absurd rfl h
  all_goals rfl

theorem nowhere_orElse (m : Location) : nowhere.orElse m = if m.isKnown then m else nowhere := by
  rcases m with ⟨_ | line, _ | column⟩ <;> rfl

theorem foldl_orElse_of_ne_nowhere {l : Location} (h : l ≠ nowhere) (ms : List Location) :
    ms.foldl orElse l = l := by
  induction ms with
  | nil => rfl
  | cons m ms ih => rw [List.foldl_cons, orElse_of_ne_nowhere h, ih]

theorem foldl_nowhere_orElse (ms : List Location) :
    ms.foldl orElse nowhere = (ms.find? isKnown).getD nowhere := by
  induction ms with
  | nil => rfl
  | cons m ms ih =>
    rw [List.foldl_cons, nowhere_orElse, List.find?_cons]
    cases hm : m.isKnown with
    | false => exact ih
    | true =>
      have hne : m ≠ nowhere := by rintro rfl; cases hm
      exact foldl_orElse_of_ne_nowhere hne ms

end Location

namespace Diagnostic

def remarks (d : Diagnostic) : List String :=
  detail "Received" d.received ++ detail "Expected" d.expected ++ detail "Context" d.context ++
    detail "Suggestion" d.suggestion ++ detail "Example" d.sample

theorem text_eq (d : Diagnostic) :
    d.text = "\n".intercalate
      (s!"Error: {d.message}" :: (locationLine d.location ++ d.remarks)) := by
  simp only [text, lines, remarks, List.append_assoc, List.cons_append]

theorem locationLine_of_not_isKnown {l : Location} (h : ¬ l.isKnown) : locationLine l = [] := by
  rcases l with ⟨_ | line, _ | column⟩
  case some.some => exact absurd rfl h
  all_goals rfl

theorem foldl_locate (d : Diagnostic) (ls : List Location) :
    ls.foldl locate d = { d with location := ls.foldl Location.orElse d.location } := by
  induction ls generalizing d with
  | nil => rfl
  | cons l ls ih => exact ih (d.locate l)

end Diagnostic

namespace Notice

theorem locate_ofDiagnostic (d : Diagnostic) (l : Location) :
    (ofDiagnostic d).locate l = ofDiagnostic (d.locate l) := by
  obtain ⟨kind, message, received, expected, context, suggestion, sample, location⟩ := d
  rcases location with ⟨_ | line, _ | column⟩
  case none.none => rcases l with ⟨_ | line, _ | column⟩ <;> rfl
  all_goals rfl

theorem foldl_locate_ofDiagnostic (d : Diagnostic) (ls : List Location) :
    ls.foldl locate (ofDiagnostic d) = ofDiagnostic (ls.foldl Diagnostic.locate d) := by
  induction ls generalizing d with
  | nil => rfl
  | cons l ls ih => rw [List.foldl_cons, locate_ofDiagnostic, ih, List.foldl_cons]

/-- Whatever locations a notice is offered, one by one: what it was made with stays, the first
location that it has or that is known stays too, and the text is the one for what it holds now, with
a line for the location if line and column are both there. -/
theorem first_location_wins (kind : Diagnostic.Kind) (details : Diagnostic.Details)
    (ls : List Location) :
    let made := ofDetails kind details
    let n := ls.foldl locate made
    let first := s!"Error: {details.message}"
    (made.diagnostic.location ≠ .nowhere →
      n.diagnostic.location = made.diagnostic.location) ∧
    (made.diagnostic.location = .nowhere →
      n.diagnostic.location = (ls.find? Location.isKnown).getD .nowhere) ∧
    n.diagnostic = { made.diagnostic with location := n.diagnostic.location } ∧
    n.text = n.diagnostic.text ∧
    (∀ line column, n.diagnostic.location = .ofPair line column →
      n.text = "\n".intercalate
        (first :: s!"Location: line {line}, column {column}" :: made.diagnostic.remarks)) ∧
    ((∀ line column, n.diagnostic.location ≠ .ofPair line column) →
      n.text = "\n".intercalate (first :: made.diagnostic.remarks)) := by
  intro made n first
  let d := Diagnostic.ofDetails kind details
  have hn : n = ofDiagnostic { d with location := ls.foldl Location.orElse d.location } :=
    (foldl_locate_ofDiagnostic d ls).trans (congrArg ofDiagnostic (d.foldl_locate ls))
  have htext : n.text = "\n".intercalate
      (first :: (Diagnostic.locationLine n.diagnostic.location ++ d.remarks)) := by
    rw [hn]
    exact Diagnostic.text_eq { d with location := ls.foldl Location.orElse d.location }
  have hlocation : n.diagnostic.location = ls.foldl Location.orElse d.location := by rw [hn]; rfl
  refine ⟨fun h => ?_, fun h => ?_, ?_, ?_, fun line column h => ?_, fun h => ?_⟩
  · rw [hlocation]
    exact Location.foldl_orElse_of_ne_nowhere h ls
  · rw [hlocation, show d.location = .nowhere from h]
    exact Location.foldl_nowhere_orElse ls
  · rw [hn]
    rfl
  · rw [hn]
    rfl
  · rw [htext, h]
    rfl
  · have hk : ¬ n.diagnostic.location.isKnown := fun hk =>
      let ⟨line, column, he⟩ := Location.exists_eq_ofPair hk
      h line column he
    rw [htext, Diagnostic.locationLine_of_not_isKnown hk]
    rfl

/-- An unexpected token without its column keeps its line only; without its place it takes the first
one that is whole. What is empty has no line. -/
theorem first_location_wins_of_token :
    let two : Token := ⟨.number, "2", 1, 3⟩
    let details : Diagnostic.Details :=
      { message := "no operator", received := "Token: 2", expected := "", context := "behind 1",
        suggestion := "Write an operator", sample := "1 + 2" }
    let half := ofDetails (.unexpectedToken two) { details with column := some none }
    let bare := ofDetails (.unexpectedToken two)
      { details with line := some none, column := some none }
    let ls : List Location := [⟨some 8, none⟩, .ofPair 4 5, .ofPair 6 7]
    (half.diagnostic.location ≠ .nowhere ∧
      (ls.foldl locate half).diagnostic.location = ⟨some 1, none⟩ ∧
      (ls.foldl locate half).text = "\n".intercalate ["Error: no operator", "Received: Token: 2",
        "Context: behind 1", "Suggestion: Write an operator", "Example: 1 + 2"]) ∧
    (bare.diagnostic.location = .nowhere ∧
      (ls.foldl locate bare).diagnostic.location = .ofPair 4 5 ∧
      (ls.foldl locate bare).text = "\n".intercalate ["Error: no operator",
        "Location: line 4, column 5", "Received: Token: 2", "Context: behind 1",
        "Suggestion: Write an operator", "Example: 1 + 2"]) := by
  intro two details half bare ls
  have hhalf : half.diagnostic.location ≠ .nowhere := by decide
  have hbare : bare.diagnostic.location = .nowhere := rfl
  obtain ⟨hkept, -, -, -, -, hplain⟩ :=
    first_location_wins (.unexpectedToken two) { details with column := some none } ls
  have hhalved : ∀ line column, (ls.foldl locate half).diagnostic.location ≠ .ofPair line column := by
    rw [hkept hhalf]
    rintro line column ⟨⟩
  obtain ⟨-, hfirst, -, -, htext, -⟩ := first_location_wins (.unexpectedToken two)
    { details with line := some none, column := some none } ls
  exact ⟨⟨hhalf, hkept hhalf, (hplain hhalved).trans rfl⟩, hbare, hfirst hbare,
    (htext 4 5 (hfirst hbare)).trans rfl⟩

end Notice

end Formulae
