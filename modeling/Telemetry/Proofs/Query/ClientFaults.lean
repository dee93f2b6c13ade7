import Telemetry.Http.Api
import Telemetry.Proofs.Query.Overreach
import Telemetry.Proofs.Query.Selector
import Telemetry.Store.Read

/-!
Whose fault an error of a query is.

Reading, checking and planning refuse a query as the client's own doing. The store refuses one thing
alone: a bound whose nanoseconds fit no word. That is a wrong argument too, but the evaluation
reports every error of its source as one of its own, which counts as a failure of the service. So
there is one fault of a client that is taken for one of the service (`AsksBeyondWords`), and no
other; the statuses of responses follow.
-/

set_option autoImplicit false

namespace Telemetry

open Fallible
open Time (Instant Duration)

/-! ## What the store refuses -/

/-- Whether both bounds of what is asked of a source fit a word. -/
def Query.Fetch.Representable (f : Query.Fetch) : Prop :=
  Text.Integer.fitsSigned64 f.start.toNanos = true ∧
    Text.Integer.fitsSigned64 f.stop.toNanos = true

namespace Store

/-- A request whose window fits words is answered. -/
theorem fetch_of_representable (s : Store) {f : Query.Fetch} (h : f.Representable) :
    ∃ rows, s.fetch false f = .ok rows := by
  simp only [fetch, Instant.toWord_eq_ok h.1, Instant.toWord_eq_ok h.2, Bool.false_eq_true,
    if_false]
  exact ⟨_, rfl⟩

/-- The store refuses bounds of which one fits no word, and names that one. -/
theorem fetch_of_not_representable (s : Store) {f : Query.Fetch} (h : ¬ f.Representable) :
    ∃ t, Text.Integer.fitsSigned64 t.toNanos = false ∧
      s.fetch false f = .error (.invalidArgument (.unrepresentable t)) := by
  cases hstart : Text.Integer.fitsSigned64 f.start.toNanos with
  | false =>
    refine ⟨f.start, hstart, ?_⟩
    simp only [fetch, Instant.toWord_eq_error hstart, Bool.false_eq_true, if_false]
    rfl
  | true =>
    have hstop := Bool.eq_false_iff.2 fun hstop => h ⟨hstart, hstop⟩
    refine ⟨f.stop, hstop, ?_⟩
    simp only [fetch, Instant.toWord_eq_ok hstart, Instant.toWord_eq_error hstop,
      Bool.false_eq_true, if_false]
    rfl

end Store

/-! ## Queries

The source fails where a bound does not fit a word. It says so as an error of the client, which
the evaluation wraps into one of its own. -/

namespace Query

/-- Whether a query is planned, and then asks for rows between bounds of which one fits no word. -/
def AsksBeyondWords (text : String) (window : Window) : Prop :=
  ∃ query p, Passes text query ∧ plan query window = .ok p ∧ ¬ p.fetch.Representable

variable {text : String} {window : Window}

/-- An error of a query is the client's own doing, or its arithmetic has no result, or it asks
beyond words; and then it is reported as one of the evaluation. -/
theorem execute_error_cases {s : Store} {e : Error} (h : s.execute false text window = .error e) :
    e.IsRequestFault ∨
    (AsksBeyondWords text window ∧ ∃ query t, parse text = .ok query ∧
      Text.Integer.fitsSigned64 t.toNanos = false ∧
      e = .evaluation query.metric (.invalidArgument (.unrepresentable t))) := by
  replace h : FailsWith (s.fetch false) false text window e := execute_eq_error_iff.1 h
  cases h with
  | reading h => exact .inl (parse_fails text e h)
  | checking hparse h => exact .inl (.inl (Catalog.validate_fails _ _ e h))
  | planning hpasses h => exact .inl (plan_fails _ _ e h)
  | @fetching query p e hpasses hplan h =>
    have hbeyond : ¬ p.fetch.Representable := by
      intro hwords
      obtain ⟨rows, hrows⟩ := s.fetch_of_representable hwords
      cases h.symm.trans hrows
    obtain ⟨t, ht, herror⟩ := s.fetch_of_not_representable hbeyond
    cases h.symm.trans herror
    exact .inr ⟨⟨query, p, hpasses, hplan, hbeyond⟩, query, t, hpasses.parsed, ht, rfl⟩
  | finishing hpasses hplan hfetch h => exact .inl (Plan.finish_fails _ _ e h)
  | cancelling hpasses hplan hfetch hfinish h => cases h

/-- A query that asks beyond words is not taken for the client's own doing. -/
theorem execute_of_asksBeyondWords (s : Store) (h : AsksBeyondWords text window) :
    ∃ e, s.execute false text window = .error e ∧ e ≠ .beyondRange ∧ e.isClientFault = false := by
  obtain ⟨query, p, hpasses, hplan, hbeyond⟩ := h
  obtain ⟨t, -, herror⟩ := s.fetch_of_not_representable hbeyond
  exact ⟨_, execute_eq_error_iff.2 (.fetching hpasses hplan herror), nofun, rfl⟩

/-- Bounds are refused as the client's own doing, or their arithmetic has no result. -/
theorem Bounds.resolve_fails (b : Bounds) (now : Instant) (clock : Clock) :
    OnlyFails Error.IsRequestFault (b.resolve now clock) := by
  have hback (t : Instant) (d : Duration) :
      OnlyFails Error.IsRequestFault (t.back d) := by
    rw [Instant.back, onlyFails_bind]
    exact ⟨toSigned_fails d, fun n _ e he => .inr (Instant.minus_eq_error_iff.1 he).1⟩
  have htext (t : Instant) (text : String) :
      OnlyFails Error.IsRequestFault (Instant.ofText t text) := by
    rw [Instant.ofText]
    split
    · simp
    · split
      · exact hback t _
      · simp
      · simp
  have hstep : OnlyFails Error.IsRequestFault b.checkStep := by
    rw [checkStep]
    split <;> simp [duration_fails]
  have hstop : OnlyFails Error.IsRequestFault (b.stopAt now clock) := by
    rw [stopAt]
    split <;> simp [htext]
  have hlookback : OnlyFails Error.IsRequestFault b.lookback := by
    rw [lookback]
    split <;> simp [duration_fails]
  have hstart (stop : Instant) : OnlyFails Error.IsRequestFault (b.startAt clock stop) := by
    rw [startAt]
    split <;> simp [htext, hlookback, hback]
  have hbetween (start stop : Instant) :
      OnlyFails Error.IsRequestFault (Window.between start stop) := by
    rw [Window.between]
    split <;> simp
  -- each of the steps fails with faults of the request only, so the whole does
  rw [resolve_eq]
  simp only [onlyFails_bind, hstep, hstop, hstart, hbetween, implies_true, and_self]

end Query

/-! ## Responses

The status is decided by the error. Those that are the client's own doing have status 400, and the
others 500. -/

namespace Http.Api

open Query (AsksBeyondWords)

variable {s : Store} {now : Instant} {clock : Query.Clock} {text : String} {b : Query.Bounds}

/-- A fault of the client has the status of one. -/
theorem statusOf_eq_400 {e : Error} (h : e.isClientFault = true) : statusOf e = 400 := by
  rw [statusOf, if_pos h]

/-- A request is answered unless the arithmetic of its bounds has no result. -/
theorem evaluate_cases (s : Store) (now : Instant) (clock : Query.Clock) (text : String)
    (b : Query.Bounds) :
    (b.resolve now clock = .error .beyondRange ∧
      evaluate s now clock text b = .error .beyondRange) ∨
    ∃ r, evaluate s now clock text b = .ok r := by
  rw [evaluate]
  split
  next hresolve => exact .inl ⟨hresolve, rfl⟩
  next => exact .inr ⟨_, rfl⟩
  next =>
    right
    split <;> exact ⟨_, rfl⟩

/-- What the endpoint answers, by where the request ends. -/
theorem status_of_evaluate {r : Response} (h : evaluate s now clock text b = .ok r) :
    (∃ e, b.resolve now clock = .error e ∧ r.status = 400) ∨
    ∃ window, b.resolve now clock = .ok window ∧
      ((∃ result, s.execute false text window = .ok result ∧ r.status = 200) ∨
       (∃ e, s.execute false text window = .error e ∧ e.isClientFault = true ∧ r.status = 400) ∨
       (s.execute false text window = .error .beyondRange ∧ r.status = 500) ∨
       (AsksBeyondWords text window ∧ r.status = 500)) := by
  rw [evaluate] at h
  split at h
  next => cases h
  next e hne hresolve =>
    cases h
    have hclient := (b.resolve_fails now clock e hresolve).resolve_right hne
    exact .inl ⟨e, hresolve, statusOf_eq_400 hclient⟩
  -- with a window, the outcome of the query decides on the status
  next window hresolve =>
    refine .inr ⟨window, hresolve, ?_⟩
    split at h
    next hexecute =>
      cases h
      exact .inr (.inr (.inl ⟨hexecute, rfl⟩))
    next e hne hexecute =>
      cases h
      rcases Query.execute_error_cases hexecute with hfault | ⟨hasks, query, t, -, -, rfl⟩
      · have hclient := hfault.resolve_right hne
        exact .inr (.inl ⟨e, hexecute, hclient, statusOf_eq_400 hclient⟩)
      · exact .inr (.inr (.inr ⟨hasks, rfl⟩))
    next result hexecute =>
      cases h
      exact .inl ⟨result, hexecute, rfl⟩

/-- The endpoint says that it failed exactly where a query asks beyond words, or has no result. -/
theorem status_eq_500_iff {r : Response} (h : evaluate s now clock text b = .ok r) :
    r.status = 500 ↔ ∃ window, b.resolve now clock = .ok window ∧
      (AsksBeyondWords text window ∨ s.execute false text window = .error .beyondRange) := by
  constructor
  · intro h500
    rcases status_of_evaluate h with ⟨e, -, hr⟩ | ⟨window, hresolve, hcases⟩
    · omega
    · rcases hcases with ⟨result, -, hr⟩ | ⟨e, -, -, hr⟩ | ⟨hexecute, -⟩ | ⟨hasks, -⟩
      · omega
      · omega
      · exact ⟨window, hresolve, .inr hexecute⟩
      · exact ⟨window, hresolve, .inl hasks⟩
  · rintro ⟨window, hresolve, hcause⟩
    -- both causes are errors that are not the client's, and no other status is given for these
    have hfails : ∃ e, s.execute false text window = .error e ∧ e.isClientFault = false := by
      rcases hcause with hasks | hexecute
      · obtain ⟨e, hexecute, -, hclient⟩ := Query.execute_of_asksBeyondWords s hasks
        exact ⟨e, hexecute, hclient⟩
      · exact ⟨_, hexecute, rfl⟩
    obtain ⟨e, hexecute, hclient⟩ := hfails
    rcases status_of_evaluate h with ⟨_, hrefused, -⟩ | ⟨window', hresolve', hcases⟩
    · cases hresolve.symm.trans hrefused
    · cases hresolve.symm.trans hresolve'
      rcases hcases with ⟨_, hok, -⟩ | ⟨e', hexecute', hclient', -⟩ | ⟨-, hr⟩ | ⟨-, hr⟩
      · cases hexecute.symm.trans hok
      · cases hexecute.symm.trans hexecute'
        cases hclient.symm.trans hclient'
      · exact hr
      · exact hr

end Http.Api

/-! ## The whole path -/

namespace Query

/-- **Which faults of clients are taken for failures of the service.** Apart from arithmetic without
a result, the error of a query is not the client's own doing exactly if the query asks for rows
beyond words; it then holds the wrong argument as its cause. Every request is answered unless the
arithmetic of its bounds has no result. One with such a query, or with one whose arithmetic has no
result, is answered with status 500, and no other one is: its status is 400 if something is wrong
with it, and otherwise 200. -/
theorem faults_of_clients (s : Store) (text : String) :
    (∀ window,
      (∃ e, s.execute false text window = .error e ∧ e ≠ .beyondRange ∧ e.isClientFault = false) ↔
        AsksBeyondWords text window) ∧
    (∀ window e, s.execute false text window = .error e → e ≠ .beyondRange →
      e.isClientFault = false → ∃ query t, parse text = .ok query ∧
        Text.Integer.fitsSigned64 t.toNanos = false ∧
        e = .evaluation query.metric (.invalidArgument (.unrepresentable t))) ∧
    ∀ (b : Bounds) (now : Instant) (clock : Clock),
      (b.resolve now clock = .error .beyondRange ∧
        Http.Api.evaluate s now clock text b = .error .beyondRange) ∨
      ∃ r, Http.Api.evaluate s now clock text b = .ok r ∧
        (r.status = 500 ↔ ∃ window, b.resolve now clock = .ok window ∧
          (AsksBeyondWords text window ∨ s.execute false text window = .error .beyondRange)) ∧
        (r.status = 500 ∨ r.status = 400 ∨ r.status = 200) := by
  refine ⟨fun window => ⟨?_, execute_of_asksBeyondWords s⟩, fun window e hexecute hne hclient => ?_,
    fun b now clock => (Http.Api.evaluate_cases s now clock text b).imp_right fun ⟨r, hr⟩ =>
      ⟨r, hr, Http.Api.status_eq_500_iff hr, ?_⟩⟩
  · rintro ⟨e, hexecute, hne, hclient⟩
    -- an error that is not the client's comes from words that are too short
    rcases execute_error_cases hexecute with hfault | ⟨hasks, -⟩
    · rw [hfault.resolve_right hne] at hclient
      cases hclient
    · exact hasks
  · rcases execute_error_cases hexecute with hfault | ⟨-, hcause⟩
    · rw [hfault.resolve_right hne] at hclient
      cases hclient
    · exact hcause
  · rcases Http.Api.status_of_evaluate hr with ⟨_, -, h⟩ | ⟨_, -, ⟨_, -, h⟩ | ⟨_, -, -, h⟩ | h | h⟩
    · exact .inr (.inl h)
    · exact .inr (.inr h)
    · exact .inr (.inl h)
    · exact .inl h.2
    · exact .inl h.2

/-- Bounds of a window that begins with the year 1. -/
def earlyBounds : Bounds :=
  { start := some "0001-01-01T00:00:00Z", stop := some "1970-01-01T00:00:00Z" }

/-- The window of these bounds. -/
def earlyWindow : Window := ⟨.ofNanos (-62135596800000000000), .epoch, by decide⟩

/-- The bounds below are a window. -/
theorem resolve_earlyBounds (now : Instant) (clock : Clock) :
    earlyBounds.resolve now clock = .ok earlyWindow := by
  rfl

/-- The selector of `up` asks for rows of that window, and so beyond words. -/
theorem up_asksBeyondWords : AsksBeyondWords (selectorText "up" Dictionary.empty) earlyWindow := by
  have hparse : parse (selectorText "up" Dictionary.empty) =
      .ok { metric := "up", labels := Dictionary.empty } :=
    parse_selectorText (by decide) (by simp [Dictionary.empty])
  exact ⟨_, _, ⟨hparse, rfl, rfl⟩, rfl, fun h => absurd h.1 (by decide)⟩

/-- The theorem for a start in the year 1: the client is at fault, and is told that the server
was. -/
theorem faults_of_up :
    (∃ e, Store.empty.execute false (selectorText "up" Dictionary.empty) earlyWindow = .error e ∧
      e ≠ .beyondRange ∧ e.isClientFault = false ∧
      ∃ query t, parse (selectorText "up" Dictionary.empty) = .ok query ∧
        Text.Integer.fitsSigned64 t.toNanos = false ∧
        e = .evaluation query.metric (.invalidArgument (.unrepresentable t))) ∧
    ∃ r, Http.Api.evaluate Store.empty .epoch epochClock (selectorText "up" Dictionary.empty)
        earlyBounds = .ok r ∧ r.status = 500 := by
  obtain ⟨hasks, hcause, hstatus⟩ :=
    faults_of_clients Store.empty (selectorText "up" Dictionary.empty)
  have hresolve := resolve_earlyBounds .epoch epochClock
  obtain ⟨e, hexecute, hne, hclient⟩ := (hasks earlyWindow).2 up_asksBeyondWords
  refine ⟨⟨e, hexecute, hne, hclient, hcause _ e hexecute hne hclient⟩, ?_⟩
  rcases hstatus earlyBounds .epoch epochClock with ⟨hover, -⟩ | ⟨r, hr, h500, -⟩
  · cases hresolve.symm.trans hover
  · exact ⟨r, hr, h500.2 ⟨_, hresolve, .inl up_asksBeyondWords⟩⟩

/-- So not every fault of a client is reported as one. -/
theorem client_fault_reported_as_failure :
    ¬ ∀ (s : Store) (text : String) (b : Bounds) (now : Instant) (clock : Clock) (window : Window),
      b.resolve now clock = .ok window →
      ∀ e, s.execute false text window = .error e → e ≠ .beyondRange → e.isClientFault = true := by
  intro h
  obtain ⟨e, hexecute, hne, hclient⟩ := execute_of_asksBeyondWords Store.empty up_asksBeyondWords
  have htrue := h _ _ _ .epoch epochClock _ (resolve_earlyBounds _ _) e hexecute hne
  cases hclient.symm.trans htrue

end Query

end Telemetry
