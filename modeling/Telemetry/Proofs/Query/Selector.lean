import Telemetry.Proofs.Query.Rendering

/-!
Selectors as a program writes them.

A selector is written as the name of the metric, and in braces a matcher `label="value"` for each of
its labels, with commas between them. Inside the quotes a backslash goes before each quote and each
backslash. This is one of the renderings of the query that has nothing but a metric and labels, the
one without any blanks, so the reader gives the selector back (`parse_selectorText`).
-/

set_option autoImplicit false

namespace Telemetry.Query

open Text (Spaced)

/-- A label with its value, as it stands between braces. -/
def matcher (e : String × String) : List Char := e.1.toList ++ '=' :: quoted '"' e.2.toList

/-- The matchers of some labels, with commas between them. -/
def matchers (es : List (String × String)) : List Char := [','].intercalate (es.map matcher)

/-- A selector as it is written. -/
def selectorText (metric : String) (labels : Labels) : String :=
  String.ofList (metric.toList ++ '{' :: (matchers labels.entries ++ ['}']))

/-! ## Its tokens -/

/-- Tokens with a sign between their lists, as one text. -/
theorem flatten_intercalate (separator : List Char) (tss : List (List (List Char))) :
    ([separator].intercalate tss).flatten = separator.intercalate (tss.map List.flatten) := by
  induction tss with
  | nil => rfl
  | cons ts tss ih =>
    rcases tss with _ | ⟨us, tss⟩
    · simp
    · rw [List.intercalate_cons_cons, List.map_cons, List.map_cons, List.intercalate_cons_cons,
        ← List.map_cons, ← ih]
      simp

/-- The tokens of constraints make their text. -/
theorem flatten_matchersTokens (es : List (String × String)) :
    (matchersTokens (es.map fun e => ('"', e))).flatten = matchers es := by
  have hmatcher (e : String × String) : (matcherTokens '"' e).flatten = matcher e := by
    simp [matcherTokens, matcher]
  rw [matchersTokens, flatten_intercalate, matchers, List.map_map, List.map_map]
  exact congrArg _ (List.map_congr_left fun e _ => hmatcher e)

/-- The tokens of a selector, with nothing between them. -/
theorem spaced_selectorText (metric : String) (labels : Labels) :
    Spaced (metric.toList :: (['{'] ::
      (matchersTokens (labels.entries.map fun e => ('"', e)) ++ [['}']])))
      (selectorText metric labels).toList := by
  have h := Spaced.flatten (metric.toList :: (['{'] ::
    (matchersTokens (labels.entries.map fun e => ('"', e)) ++ [['}']])))
  simpa [selectorText, flatten_matchersTokens] using h

/-- **A selector is read back**, whatever its values hold. -/
theorem parse_selectorText {metric : String} {labels : Labels}
    (hmetric : isMetricName metric.toList = true)
    (hlabels : ∀ e ∈ labels.entries, isLabelName e.1.toList = true) :
    parse (selectorText metric labels) = .ok { metric, labels } := by
  let query : Query := { metric, labels }
  have hq : query.WellFormed :=
    { metric := .inl hmetric
      labels := fun k hk => by
        obtain ⟨e, he, rfl⟩ := List.mem_map.1 hk
        exact hlabels e he
      function := nofun
      range := nofun
      aggregation := nofun }
  have hselector : SelectorTokens query _ := .mk (labelsTokens_doubleQuotes labels) (.omitted rfl)
  have hcall : CallTokens query _ := .selector rfl hselector
  rw [List.append_nil] at hcall
  obtain ⟨hparse, htrim⟩ := parse_of_spaced (spaced_selectorText metric labels)
    (isToken_callTokens hq hcall) hcall.ne_nil
  rw [hparse, expression_of_callTokens hq hcall htrim]

end Telemetry.Query
