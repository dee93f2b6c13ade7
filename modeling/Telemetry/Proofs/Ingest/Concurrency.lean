import Mathlib.Logic.Relation
import Telemetry.Proofs.Ingest.Batch

/-!
Submitters and the writer, step by step and in any order.

Submitters put their requests into a queue of limited capacity. The writer takes the first one, and
more as long as there are any and its batch is not full; then it writes the batch, and it answers
its requests one after another. In between other requests may enter the queue at any time. What is
proved is that nobody can tell how requests were divided into batches: in the order of the queue
each request leaves in the store what its units leave there one by one, and its submitter hears of
its own dropped units only.

The invariant is `Accounted`: what was sent is what has been written followed by what still waits,
the store has the records of the former, and these have their answers, given or still to be given.
-/

set_option autoImplicit false

namespace Telemetry.Ingest

open Time (Instant)
open Otlp (WriteUnit)
open Store (Accepts storedForms)
open Relation (ReflTransGen)

variable {ι : Type}

/-! ## States -/

/-- The units of one submission, and who waits for its answer. -/
structure Request (ι : Type) where
  submitter : ι
  units : Submission

/-- The answer that a request deserves: the number of its dropped units. -/
def Request.answer (r : Request ι) : ι × Nat := (r.submitter, dropped r.units)

/-- What the writer is about to do. -/
inductive Phase (ι : Type) where
  /-- It waits for a request. -/
  | idle
  /-- It has taken some requests and has not written them. -/
  | collecting (batch : List (Request ι))
  /-- It has written them and has not yet given these answers. -/
  | answering (replies : List (ι × Nat))

/-- The store, the queue and the writer, and the history of both ends of the queue. -/
structure State (ι : Type) where
  store : Store
  queue : List (Request ι) := []
  phase : Phase ι := .idle
  /-- The requests that ever entered the queue, in this order. -/
  sent : List (Request ι) := []
  /-- The answers that were given, in this order. -/
  answers : List (ι × Nat) := []

namespace State

/-- The requests that have been sent and not written, in the order of the queue. -/
def waiting (s : State ι) : List (Request ι) :=
  match s.phase with
  | .collecting batch => batch ++ s.queue
  | .idle | .answering _ => s.queue

/-- The answers that are still to be given. -/
def replies (s : State ι) : List (ι × Nat) :=
  match s.phase with
  | .answering replies => replies
  | .idle | .collecting _ => []

/-- Before a batch is begun, the requests that wait are those of the queue. -/
theorem waiting_idle {s : State ι} (h : s.phase = .idle) : s.waiting = s.queue := by
  rw [waiting, h]

/-- While a batch is collected, its requests wait as well. -/
theorem waiting_collecting {s : State ι} {batch : List (Request ι)}
    (h : s.phase = .collecting batch) : s.waiting = batch ++ s.queue := by
  rw [waiting, h]

/-- A batch that was written does not wait any more. -/
theorem waiting_answering {s : State ι} {replies : List (ι × Nat)}
    (h : s.phase = .answering replies) : s.waiting = s.queue := by
  rw [waiting, h]

/-- Before a batch is begun, nobody is about to be answered. -/
theorem replies_idle {s : State ι} (h : s.phase = .idle) : s.replies = [] := by
  rw [replies, h]

/-- Nor while it is collected. -/
theorem replies_collecting {s : State ι} {batch : List (Request ι)}
    (h : s.phase = .collecting batch) : s.replies = [] := by
  rw [replies, h]

/-- Once it is written, its requests are about to be answered. -/
theorem replies_answering {s : State ι} {replies : List (ι × Nat)}
    (h : s.phase = .answering replies) : s.replies = replies := by
  rw [State.replies, h]

/-- Whether nothing is left to be done. -/
def Settled (s : State ι) : Prop := s.phase = .idle ∧ s.queue = []

end State

/-- The number of units of some requests. -/
def unitCount (batch : List (Request ι)) : Nat := (batch.flatMap (·.units)).length

/-! ## Steps

The writer's own steps are apart from those of the submitters, since it is the writer alone that
has to come to an end. A submitter may send at any time at which the queue has room. -/

/-- A step of the writer. -/
inductive WriterStep (batchSize : Nat) : State ι → State ι → Prop
  | receive {s : State ι} {first : Request ι} {queue : List (Request ι)}
      (hphase : s.phase = .idle) (hqueue : s.queue = first :: queue) :
      WriterStep batchSize s { s with queue, phase := .collecting [first] }
  | take {s : State ι} {batch : List (Request ι)} {next : Request ι} {queue : List (Request ι)}
      (hphase : s.phase = .collecting batch) (hqueue : s.queue = next :: queue)
      (hroom : unitCount batch < batchSize) :
      WriterStep batchSize s { s with queue, phase := .collecting (batch ++ [next]) }
  | write {s : State ι} {batch : List (Request ι)} (now : Instant)
      (hphase : s.phase = .collecting batch) (hdone : s.queue = [] ∨ batchSize ≤ unitCount batch) :
      WriterStep batchSize s
        { s with
          store := (writeBatch now s.store (batch.map (·.units))).1
          phase := .answering ((batch.map (·.submitter)).zip
            (writeBatch now s.store (batch.map (·.units))).2) }
  | answer {s : State ι} {reply : ι × Nat} {replies : List (ι × Nat)}
      (hphase : s.phase = .answering (reply :: replies)) :
      WriterStep batchSize s
        { s with phase := .answering replies, answers := s.answers ++ [reply] }
  | rest {s : State ι} (hphase : s.phase = .answering []) :
      WriterStep batchSize s { s with phase := .idle }

/-- How many requests the queue holds at most, and how many units a batch takes at least before it
is full. -/
structure Limits where
  capacity : Nat
  batchSize : Nat

/-- A step of a submitter or of the writer. Each submission waits for an answer of its own. -/
inductive Step (limits : Limits) : State ι → State ι → Prop
  | send {s : State ι} (r : Request ι) (hroom : s.queue.length < limits.capacity)
      (hnew : r.submitter ∉ s.sent.map (·.submitter)) :
      Step limits s { s with queue := s.queue ++ [r], sent := s.sent ++ [r] }
  | writer {s s' : State ι} (h : WriterStep limits.batchSize s s') : Step limits s s'

/-- The states that are reached from a store, an empty queue and an idle writer. -/
def Reachable (limits : Limits) (initial : Store) (s : State ι) : Prop :=
  ReflTransGen (Step limits) { store := initial } s

/-! ## Written, answered and waiting requests

The invariant holds of an idle writer with an empty queue, and each of the steps preserves it: a
request enters at the end of what has been sent, moves from the queue into a batch, from a batch
into the store, and its answer from the replies to the answers. -/

/-- The records that requests leave in the store, in the order of their units. -/
def recordsOf (requests : List (Request ι)) : List Record :=
  keptRecords (requests.flatMap (·.units))

theorem recordsOf_append (rs rs' : List (Request ι)) :
    recordsOf (rs ++ rs') = recordsOf rs ++ recordsOf rs' := by
  rw [recordsOf, List.flatMap_append, keptRecords, List.flatMap_append]
  rfl

/-- The invariant: where the requests are of which some have been written. -/
structure Accounted (initial : Store) (written : List (Request ι)) (s : State ι) : Prop where
  sent : s.sent = written ++ s.waiting
  contents : s.store.contents = initial.contents.append (recordsOf written)
  answered : s.answers ++ s.replies = written.map Request.answer
  distinct : (s.sent.map (·.submitter)).Nodup

/-- The counts of a written batch, paired with those who wait for them, are their answers. -/
theorem zip_writeBatch_counts (now : Instant) (store : Store) (batch : List (Request ι)) :
    (batch.map (·.submitter)).zip (writeBatch now store (batch.map (·.units))).2 =
      batch.map Request.answer := by
  rw [writeBatch_counts, List.map_map, List.zip_map']
  rfl

/-- A step of the writer preserves the invariant. Only the writing of a batch adds to what has been
written. -/
theorem Accounted.writerStep {batchSize : Nat} {initial : Store} {written : List (Request ι)}
    {s s' : State ι} (h : Accounted initial written s) (hstep : WriterStep batchSize s s') :
    ∃ written', written <+: written' ∧ Accounted initial written' s' := by
  obtain ⟨hsent, hcontents, hanswered, hdistinct⟩ := h
  -- only writing touches the store; the other steps move requests from one phase to the next
  cases hstep with
  | receive hphase hqueue =>
    rw [State.waiting_idle hphase, hqueue] at hsent
    rw [State.replies_idle hphase] at hanswered
    exact ⟨written, List.prefix_rfl, hsent, hcontents, hanswered, hdistinct⟩
  | take hphase hqueue hroom =>
    rw [State.waiting_collecting hphase, hqueue, List.append_cons] at hsent
    rw [State.replies_collecting hphase] at hanswered
    exact ⟨written, List.prefix_rfl, hsent, hcontents, hanswered, hdistinct⟩
  -- the batch has been written by now, and its answers are due
  | @write batch now hphase hdone =>
    rw [State.waiting_collecting hphase, ← List.append_assoc] at hsent
    rw [State.replies_collecting hphase, List.append_nil] at hanswered
    refine ⟨written ++ batch, List.prefix_append _ _, hsent, ?_, ?_, hdistinct⟩
    · show (writeBatch now s.store (batch.map (·.units))).1.contents = _
      rw [contents_writeBatch, hcontents, Store.Contents.append_append, recordsOf_append,
        ← List.flatMap_def, ← recordsOf]
    · show s.answers ++ List.zip _ _ = _
      rw [zip_writeBatch_counts, hanswered, List.map_append]
  | answer hphase =>
    rw [State.waiting_answering hphase] at hsent
    rw [State.replies_answering hphase, List.append_cons] at hanswered
    exact ⟨written, List.prefix_rfl, hsent, hcontents, hanswered, hdistinct⟩
  | rest hphase =>
    rw [State.waiting_answering hphase] at hsent
    rw [State.replies_answering hphase] at hanswered
    exact ⟨written, List.prefix_rfl, hsent, hcontents, hanswered, hdistinct⟩

/-- A request that is sent waits behind all others. -/
theorem waiting_send (s : State ι) (r : Request ι) :
    ({ s with queue := s.queue ++ [r], sent := s.sent ++ [r] } : State ι).waiting =
      s.waiting ++ [r] := by
  rw [State.waiting, State.waiting]
  cases s.phase with
  | idle => rfl
  | collecting batch => exact (List.append_assoc _ _ _).symm
  | answering replies => rfl

/-- Every step preserves the invariant. -/
theorem Accounted.step {limits : Limits} {initial : Store} {written : List (Request ι)}
    {s s' : State ι} (h : Accounted initial written s) (hstep : Step limits s s') :
    ∃ written', written <+: written' ∧ Accounted initial written' s' := by
  cases hstep with
  | send r hroom hnew =>
    refine ⟨written, List.prefix_rfl, ?_, h.contents, h.answered, ?_⟩
    · rw [waiting_send, ← List.append_assoc, ← h.sent]
    · show ((s.sent ++ [r]).map (·.submitter)).Nodup
      rw [List.map_append, List.map_singleton, List.nodup_append]
      refine ⟨h.distinct, List.pairwise_singleton _ _, ?_⟩
      -- the new submitter is none of those that have sent before
      rintro who hwho other hother rfl
      exact hnew (List.mem_singleton.1 hother ▸ hwho)
  | writer hwriter => exact h.writerStep hwriter

/-- In every reachable state all requests are accounted for. -/
theorem Reachable.accounted {limits : Limits} {initial : Store} {s : State ι}
    (h : Reachable limits initial s) : ∃ written, Accounted initial written s := by
  induction h with
  | refl =>
    exact ⟨[], rfl, initial.contents.append_nil.symm, rfl, List.nodup_nil⟩
  | tail _ hstep ih =>
    obtain ⟨written, hwritten⟩ := ih
    obtain ⟨written', -, hwritten'⟩ := hwritten.step hstep
    exact ⟨written', hwritten'⟩

/-! ## Answers and what they promise

Whoever has an answer finds the records of all other units of the request in the store, at once
and at any later time, because the writer writes a batch before it gives the answers. -/

/-- Whether the records of a unit are in a store, one behind the other, among those that came to
some contents. -/
def ShowsUnit (initial : Store) (s : Store) (unit : WriteUnit) : Prop :=
  ∃ earlier later,
    s.contents = initial.contents.append (earlier ++ storedForms unit ++ later)

/-- The units of written requests are in the store. -/
theorem Accounted.showsUnit {initial : Store} {written : List (Request ι)} {s : State ι}
    (h : Accounted initial written s) {r : Request ι} (hr : r ∈ written) {unit : WriteUnit}
    (hunit : unit ∈ r.units) : ShowsUnit initial s.store unit := by
  obtain ⟨before, after, hwritten⟩ := List.append_of_mem
    (List.mem_flatMap.2 ⟨r, hr, hunit⟩ : unit ∈ written.flatMap (·.units))
  refine ⟨keptRecords before, keptRecords after, ?_⟩
  rw [h.contents, recordsOf, hwritten, keptRecords, List.flatMap_append, List.flatMap_cons,
    ← List.append_assoc]
  rfl

/-- An answer that was given is the answer of a request that has been written. -/
theorem Accounted.mem_written {initial : Store} {written : List (Request ι)} {s : State ι}
    (h : Accounted initial written s) {reply : ι × Nat} (hreply : reply ∈ s.answers) :
    ∃ r ∈ written, reply = r.answer := by
  have hmem : reply ∈ written.map Request.answer := by
    rw [← h.answered]
    exact List.mem_append_left _ hreply
  obtain ⟨r, hr, heq⟩ := List.mem_map.1 hmem
  exact ⟨r, hr, heq.symm⟩

/-- Nobody is answered twice. -/
theorem Accounted.nodup_answers {initial : Store} {written : List (Request ι)} {s : State ι}
    (h : Accounted initial written s) : (s.answers.map Prod.fst).Nodup := by
  have hall : ((s.answers ++ s.replies).map Prod.fst).Nodup := by
    have hdistinct := h.distinct
    rw [h.sent, List.map_append] at hdistinct
    rw [h.answered, List.map_map]
    exact (List.nodup_append.1 hdistinct).1
  rw [List.map_append] at hall
  exact (List.nodup_append.1 hall).1

/-- Where nothing is left to be done everything that was sent has been written and answered. -/
theorem Accounted.of_settled {initial : Store} {written : List (Request ι)} {s : State ι}
    (h : Accounted initial written s) (hsettled : s.Settled) :
    s.sent = written ∧ s.answers = written.map Request.answer := by
  obtain ⟨hphase, hqueue⟩ := hsettled
  have hsent := h.sent
  have hanswered := h.answered
  rw [State.waiting_idle hphase, hqueue, List.append_nil] at hsent
  rw [State.replies_idle hphase, List.append_nil] at hanswered
  exact ⟨hsent, hanswered⟩

/-! ## The writer comes to an end

Each step of the writer lowers the number of steps that its requests still need, so whatever the
submitters have sent, it comes to a state in which all is answered. -/

/-- How much work the writer has: more for a request in the queue than in a batch, and more there
than when it is written. -/
def State.work (s : State ι) : Nat :=
  4 * s.queue.length +
    match s.phase with
    | .idle => 0
    | .collecting batch => batch.length + 2
    | .answering replies => replies.length + 1

/-- Each step of the writer leaves less work, so it comes to an end. -/
theorem WriterStep.work_lt {batchSize : Nat} {s s' : State ι} (h : WriterStep batchSize s s') :
    s'.work < s.work := by
  -- a request that is taken moves one phase ahead, and so does one that is written and one that
  -- is answered
  cases h with
  | receive hphase hqueue =>
    simp only [State.work, hphase, hqueue, List.length_cons, List.length_nil]
    omega
  | take hphase hqueue hroom =>
    simp only [State.work, hphase, hqueue, List.length_cons, List.length_append, List.length_nil]
    omega
  | write now hphase hdone =>
    simp only [State.work, hphase, List.length_zip, List.length_map]
    omega
  | answer hphase =>
    simp only [State.work, hphase, List.length_cons]
    omega
  | rest hphase =>
    simp only [State.work, hphase, List.length_nil]
    omega

/-- The writer is never stuck: as long as something is left to be done, it can do something. -/
theorem exists_writerStep (batchSize : Nat) {s : State ι} (h : ¬ s.Settled) :
    ∃ s', WriterStep batchSize s s' := by
  cases hphase : s.phase with
  | idle =>
    cases hqueue : s.queue with
    | nil => exact absurd ⟨hphase, hqueue⟩ h
    | cons first queue => exact ⟨_, .receive hphase hqueue⟩
  | collecting batch =>
    cases hqueue : s.queue with
    | nil => exact ⟨_, .write .epoch hphase (.inl hqueue)⟩
    | cons next queue =>
      by_cases hroom : unitCount batch < batchSize
      · exact ⟨_, .take hphase hqueue hroom⟩
      · exact ⟨_, .write .epoch hphase (.inr (Nat.not_lt.1 hroom))⟩
  | answering replies =>
    cases replies with
    | nil => exact ⟨_, .rest hphase⟩
    | cons reply replies => exact ⟨_, .answer hphase⟩

/-- Left alone, the writer settles everything. -/
theorem exists_settled (batchSize : Nat) (s : State ι) :
    ∃ s', ReflTransGen (WriterStep batchSize) s s' ∧ s'.Settled := by
  -- each step leaves less work, and there is one unless nothing is left to be done
  induction hwork : s.work using Nat.strongRecOn generalizing s with
  | _ work ih =>
    by_cases hsettled : s.Settled
    · exact ⟨s, .refl, hsettled⟩
    · obtain ⟨next, hstep⟩ := exists_writerStep batchSize hsettled
      obtain ⟨s', hrun, hs'⟩ := ih next.work (hwork ▸ hstep.work_lt) next rfl
      exact ⟨s', .head hstep hrun, hs'⟩

/-! ## The queue that is drained

`drain` is what the writer does with a queue into which nothing else is sent meanwhile. -/

theorem unitCount_singleton (r : Request ι) : unitCount [r] = r.units.length := by
  rw [unitCount, List.flatMap_singleton]

theorem unitCount_append (batch : List (Request ι)) (r : Request ι) :
    unitCount (batch ++ [r]) = unitCount batch + r.units.length := by
  rw [unitCount, List.flatMap_append, List.length_append, ← unitCount, ← unitCount,
    unitCount_singleton]

/-- The writer takes the requests that `takeMore` takes. -/
theorem run_takeMore (batchSize : Nat) (store : Store) (sent : List (Request ι))
    (answers : List (ι × Nat)) (batch queue : List (Request ι)) :
    ∃ more left, queue = more ++ left ∧
      takeMore batchSize (unitCount batch) (queue.map (·.units)) =
        (more.map (·.units), left.map (·.units)) ∧
      (left = [] ∨ batchSize ≤ unitCount (batch ++ more)) ∧
      ReflTransGen (WriterStep batchSize) ⟨store, queue, .collecting batch, sent, answers⟩
        ⟨store, left, .collecting (batch ++ more), sent, answers⟩ := by
  induction queue generalizing batch with
  | nil =>
    refine ⟨[], [], rfl, rfl, .inl rfl, ?_⟩
    rw [List.append_nil]
  | cons next queue ih =>
    rw [List.map_cons, takeMore]
    by_cases hroom : unitCount batch < batchSize
    -- there is room for one more, and then for those that the longer batch has room for
    · obtain ⟨more, left, hqueue, htake, hdone, hrun⟩ := ih (batch ++ [next])
      rw [unitCount_append] at htake
      rw [if_pos hroom, htake]
      rw [← List.append_cons] at hdone hrun
      exact ⟨next :: more, left, congrArg _ hqueue, rfl, hdone,
        .head (.take rfl rfl hroom) hrun⟩
    · refine ⟨[], next :: queue, rfl, if_neg hroom, .inr ?_, ?_⟩
      · rw [List.append_nil]
        exact Nat.not_lt.1 hroom
      · rw [List.append_nil]

/-- The writer gives all answers that are to be given. -/
theorem run_answering (batchSize : Nat) (store : Store) (queue sent : List (Request ι))
    (answers replies : List (ι × Nat)) :
    ReflTransGen (WriterStep batchSize) ⟨store, queue, .answering replies, sent, answers⟩
      ⟨store, queue, .idle, sent, answers ++ replies⟩ := by
  induction replies generalizing answers with
  | nil =>
    rw [List.append_nil]
    exact .single (.rest rfl)
  | cons reply replies ih =>
    rw [List.append_cons]
    exact .head (.answer rfl) (ih _)

/-- The writer takes, writes and answers one batch. -/
theorem run_batch (now : Instant) (batchSize : Nat) (store : Store) (first : Request ι)
    (queue sent : List (Request ι)) (answers : List (ι × Nat)) :
    ∃ more left, queue = more ++ left ∧
      takeMore batchSize first.units.length (queue.map (·.units)) =
        (more.map (·.units), left.map (·.units)) ∧
      ReflTransGen (WriterStep batchSize) ⟨store, first :: queue, .idle, sent, answers⟩
        ⟨(writeBatch now store ((first :: more).map (·.units))).1, left, .idle, sent,
          answers ++ ((first :: more).map (·.submitter)).zip
            (writeBatch now store ((first :: more).map (·.units))).2⟩ := by
  obtain ⟨more, left, hqueue, htake, hdone, hcollect⟩ :=
    run_takeMore batchSize store sent answers [first] queue
  rw [unitCount_singleton] at htake
  have hreceive : WriterStep batchSize ⟨store, first :: queue, .idle, sent, answers⟩
      ⟨store, queue, .collecting [first], sent, answers⟩ := .receive rfl rfl
  have hwrite : WriterStep batchSize
      ⟨store, left, .collecting (first :: more), sent, answers⟩ _ := .write now rfl hdone
  have hanswer := run_answering batchSize
    (writeBatch now store ((first :: more).map (·.units))).1 left sent answers
    (((first :: more).map (·.submitter)).zip
      (writeBatch now store ((first :: more).map (·.units))).2)
  exact ⟨more, left, hqueue, htake, .head hreceive (hcollect.trans (.head hwrite hanswer))⟩

/-- The writer drains the queue. -/
theorem run_drain (now : Instant) (batchSize : Nat) (store : Store)
    (queue sent : List (Request ι)) (answers : List (ι × Nat)) :
    ReflTransGen (WriterStep batchSize) ⟨store, queue, .idle, sent, answers⟩
      ⟨(drain now batchSize store (queue.map (·.units))).1, [], .idle, sent,
        answers ++ (queue.map (·.submitter)).zip
          (drain now batchSize store (queue.map (·.units))).2⟩ := by
  -- the queue is shorter by a whole batch each time
  induction hlength : queue.length using Nat.strongRecOn generalizing store queue answers with
  | _ length ih =>
    cases queue with
    | nil =>
      rw [List.map_nil, drain, List.map_nil, List.zip_nil_left, List.append_nil]
    | cons first queue =>
      obtain ⟨more, left, rfl, htake, hrun⟩ :=
        run_batch now batchSize store first queue sent answers
      generalize hwritten : writeBatch now store ((first :: more).map (·.units)) = written at hrun
      have hdrain : drain now batchSize store ((first :: (more ++ left)).map (·.units)) =
          ((drain now batchSize written.1 (left.map (·.units))).1,
            written.2 ++ (drain now batchSize written.1 (left.map (·.units))).2) := by
        rw [List.map_cons, drain, htake, ← List.map_cons, hwritten]
      -- each request of the batch has its count, so the two lists are zipped in two parts
      have hlen : ((first :: more).map (·.submitter)).length = written.2.length := by
        rw [← hwritten, writeBatch_counts, List.length_map, List.length_map, List.length_map]
      have hshorter : left.length < length := by
        rw [← hlength, List.length_cons, List.length_append]
        omega
      have hleft := ih left.length hshorter written.1 left
        (answers ++ ((first :: more).map (·.submitter)).zip written.2) rfl
      rw [List.append_assoc, ← List.zip_append hlen, ← List.map_append] at hleft
      rw [hdrain]
      exact hrun.trans hleft

/-! ## Batching is invisible -/

/-- **Batching is invisible.** Whatever the limits are, and in whatever order submitters and the
writer take their steps: the store has the records of the requests that have been written, unit by
unit in the order of the queue without the units that are not accepted; an answer is the number of
the dropped units of its request, whose other units are in the store by then; nobody is answered
twice; and the writer goes on until each request has been answered, when the contents of the store
are those of an insertion of all units one by one. -/
theorem batching_is_invisible {limits : Limits} {initial : Store} {s : State ι}
    (h : Reachable limits initial s) :
    (∃ written, s.sent = written ++ s.waiting ∧
      s.answers ++ s.replies = written.map Request.answer ∧
      s.store.contents = initial.contents.append
        (((written.flatMap (·.units)).filter fun unit => Accepts unit).flatMap storedForms)) ∧
    (∀ reply ∈ s.answers, ∃ r ∈ s.sent, reply = (r.submitter, dropped r.units) ∧
      ∀ unit ∈ r.units, Accepts unit → ShowsUnit initial s.store unit) ∧
    (s.answers.map Prod.fst).Nodup ∧
    (¬ s.Settled → ∃ s', WriterStep limits.batchSize s s') ∧
    (∀ s', WriterStep limits.batchSize s s' → s'.work < s.work) ∧
    (s.Settled →
      s.answers = s.sent.map (fun r => (r.submitter, dropped r.units)) ∧
      ∀ writes : List (Instant × List Record), writes.map Prod.snd = s.sent.flatMap (·.units) →
        s.store.contents = (initial.insertEach writes).contents) := by
  obtain ⟨written, hwritten⟩ := h.accounted
  refine ⟨⟨written, hwritten.sent, hwritten.answered, ?_⟩, ?_, hwritten.nodup_answers,
    exists_writerStep limits.batchSize, fun s' => WriterStep.work_lt, ?_⟩
  · rw [hwritten.contents, recordsOf, keptRecords_eq_filter]
  · intro reply hreply
    obtain ⟨r, hr, heq⟩ := hwritten.mem_written hreply
    refine ⟨r, ?_, heq, fun unit hunit _ => hwritten.showsUnit hr hunit⟩
    rw [hwritten.sent]
    exact List.mem_append_left _ hr
  · intro hsettled
    obtain ⟨hsent, hanswers⟩ := hwritten.of_settled hsettled
    refine ⟨hsent ▸ hanswers, fun writes hwrites => ?_⟩
    rw [Store.contents_insertEach, hwritten.contents, recordsOf, ← hsent, ← hwrites, keptRecords,
      List.flatMap_map]

/-- A span that no store accepts. -/
def refusedSpan : Telemetry.Span where
  traceId := "1"
  spanId := "2"
  parentSpanId := none
  service := "api"
  operation := "call"
  start := .epoch
  duration := -1
  status := .unset
  attributes := .empty

/-- Of two requests in one batch one has a unit that is refused, and only this one hears of it. -/
theorem two_requests_in_one_batch :
    ∃ s : State Bool, s.Settled ∧ s.answers = [(false, 0), (true, 1)] ∧
      s.store.contents = ⟨[], [{ refusedSpan with duration := 1 }], []⟩ := by
  let kept : WriteUnit := [.span { refusedSpan with duration := 1 }]
  let limits : Limits := ⟨2, 8⟩
  have hsent : Reachable (ι := Bool) limits .empty _ :=
    (ReflTransGen.single (Step.send ⟨false, [kept]⟩ (by decide) (by decide))).tail
      (Step.send ⟨true, [[.span refusedSpan]]⟩ (by decide) (by decide))
  have hcollected := (hsent.tail (.writer (.receive rfl rfl))).tail
    (.writer (.take rfl rfl (by decide)))
  have hwritten := hcollected.tail (.writer (.write .epoch rfl (.inl rfl)))
  have hanswered := (hwritten.tail (.writer (.answer rfl))).tail (.writer (.answer rfl))
  have hreached : Reachable (ι := Bool) limits .empty _ := hanswered.tail (.writer (.rest rfl))
  have hall := batching_is_invisible hreached
  obtain ⟨hanswers, hcontents⟩ := hall.2.2.2.2.2 ⟨rfl, rfl⟩
  refine ⟨_, ⟨rfl, rfl⟩, hanswers.trans rfl, ?_⟩
  exact hcontents [(.epoch, kept), (.epoch, [.span refusedSpan])] rfl

end Telemetry.Ingest
