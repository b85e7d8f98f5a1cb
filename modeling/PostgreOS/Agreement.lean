/-
A call on a shared connection gets the answer to its own request.

At every moment at most one request is under way, and all bytes on the wire belong to
it. When an output writer fails, the stream is shut down or its lock is poisoned, and no
request is written any more.
-/

import PostgreOS.Connection

namespace PostgreOS.Protocol

open Library.Frames Library.Transition

def wireBytes (frames : List (Response × Bytes)) : Bytes :=
  frames.flatMap Prod.snd

def Connection.Broken (state : Connection) : Prop :=
  state.shutdown = true ∨ state.poisoned = true

/-- The daemon has written all but these frames of the request that it has read last. -/
def Connection.Owes (state : Connection) (frames : List (Response × Bytes)) : Prop :=
  (state.daemon = .ended ∧ frames = []) ∨
    (state.requests = [] ∧ ∃ goesOn, state.daemon = .next frames goesOn)

/-- The request of the holder is on its way to the daemon. -/
structure Connection.Sent (codecs : Codecs) (state : Connection) (holder : Holder) : Prop where
  nothing : state.responses = []
  unwritten : holder.written = []
  numbered : holder.number ≠ none
  request : state.daemon = .ended ∨ (state.daemon = .idle ∧ holder.number = some state.log.length ∧
    writeFrame codecs.request MAX_FRAME_SIZE holder.request = .ok state.requests)

/-- The daemon has read the request of the holder, and the holder has got some data. -/
structure Connection.Answering (codecs : Codecs) (state : Connection) (holder : Holder) : Prop where
  progress : ∃ (earlier : List (Request × List Response)) (chunks : List Bytes)
    (pending remaining : List (Response × Bytes)),
    state.log = earlier ++ [(holder.request, chunks.map Response.data ++ pending.map Prod.fst)] ∧
      holder.number = some earlier.length ∧ holder.written = chunks.flatten ∧
      (holder.request.operation.streaming = false → chunks = []) ∧
      state.responses = wireBytes pending ∧ Framed codecs.response (pending ++ remaining) ∧
      Answer holder.request.operation.streaming ((pending ++ remaining).map Prod.fst) ∧
      state.Owes remaining

/-- Whose bytes are on the wire. -/
inductive Connection.Wire (codecs : Codecs) (state : Connection) : Prop
  | broken (isBroken : state.Broken) (unsent : ∀ holder ∈ state.holder, holder.number = none)
      (locked : state.shutdown = true ∨ state.holder = none)
      (finished : state.daemon = .ended ∨ state.requests = [])
  | quiet (sound : ¬ state.Broken) (unsent : ∀ holder ∈ state.holder, holder.number = none)
      (nothing : state.responses = [])
      (finished : state.daemon = .ended ∨
        (state.daemon = .idle ∧ state.requests = [] ∧ state.log.length = state.sent.length))
  | sent (sound : ¬ state.Broken) (holder : Holder) (held : state.holder = some holder)
      (way : state.Sent codecs holder)
  | answering (sound : ¬ state.Broken) (holder : Holder) (held : state.holder = some holder)
      (way : state.Answering codecs holder)

/-- `response.result.map_err(|error| ClientError::Remote(error.message))`. -/
def clientResult : Except RemoteError Output → Except ClientError Output :=
  Except.mapError fun error => .remote error.message

/-- The errors of a call that no response is the cause of. -/
def ClientError.Own : ClientError → Prop
  | .protocol _ => True
  | .poisoned => True
  | _ => False

/-- The call has got all responses for its request and nothing else, and the last of them is
its result. -/
def Returned.Answered (log : List (Request × List Response)) (call : Returned)
    (answer : Except RemoteError Output) : Prop :=
  ∃ (number : Nat) (chunks : List Bytes), call.number = some number ∧
    log[number]? = some (call.request,
      chunks.map Response.data ++ [{ version := VERSION, result := answer }]) ∧
    call.written = chunks.flatten ∧ (call.request.operation.streaming = false → chunks = [])

/-- The output writer has got the data of the first responses for the call's request. If it
has failed, then on the data of the next one. -/
def Returned.Took (log : List (Request × List Response)) (call : Returned) : Prop :=
  (call.written = [] ∧ call.writerFailed = false) ∨
    ∃ (number : Nat) (chunks : List Bytes) (later : List Response), call.number = some number ∧
      log[number]? = some (call.request, chunks.map Response.data ++ later) ∧
      call.written = chunks.flatten ∧ (call.request.operation.streaming = false → chunks = []) ∧
      (call.writerFailed = true → ∃ data rest, later = Response.data data :: rest)

/-- What holds of a connection at every moment. -/
structure Connection.Aligned (codecs : Codecs) (state : Connection) : Prop where
  current : ∀ holder ∈ state.holder, holder.request.version = VERSION ∧
    (holder.number = none → holder.written = [])
  log_sent : state.log.map Prod.fst <+: state.sent
  numbers : ((state.returned.filterMap fun call => call.number) ++
    (state.holder.bind Holder.number).toList).Pairwise (· < ·)
  bound : ∀ number ∈ (state.returned.filterMap fun call => call.number) ++
    (state.holder.bind Holder.number).toList, number < state.sent.length
  last : ∀ holder ∈ state.holder, ∀ number, holder.number = some number →
    state.sent[number]? = some holder.request ∧ state.sent.length = number + 1
  owned : ∀ call ∈ state.returned, ∀ number, call.number = some number →
    state.sent[number]? = some call.request
  answered : ∀ call ∈ state.returned, ∀ answer, call.result = clientResult answer →
    call.Answered state.log answer
  took : ∀ call ∈ state.returned, call.Took state.log
  foreseen : ∀ call ∈ state.returned, ∀ error, call.result = .error error →
    error.Own ∨ ∃ message, error = .remote message
  settled : ∀ frames goesOn, state.daemon = .serving frames goesOn → ∀ call ∈ state.returned,
    ∀ answer, call.result = clientResult answer → ∀ number, call.number = some number →
      number + 1 < state.log.length
  failed : ∀ call ∈ state.returned, call.writerFailed = true → state.Broken
  later : state.returned.Pairwise fun earlier later =>
    earlier.writerFailed = true → ∀ output, later.result ≠ .ok output
  wire : state.Wire codecs

theorem aligned_connect (codecs : Codecs) (volume : Text) :
    (Connection.connect volume).Aligned codecs where
  current := fun _ member => by cases member
  log_sent := List.prefix_refl _
  numbers := List.Pairwise.nil
  bound := fun _ member => absurd member List.not_mem_nil
  last := fun _ member => by cases member
  owned := fun _ member => absurd member List.not_mem_nil
  answered := fun _ member => absurd member List.not_mem_nil
  took := fun _ member => absurd member List.not_mem_nil
  foreseen := fun _ member => absurd member List.not_mem_nil
  settled := fun _ _ serving => by cases serving
  failed := fun _ member => absurd member List.not_mem_nil
  later := List.Pairwise.nil
  wire := .quiet (by rintro (impossible | impossible) <;> cases impossible)
    (fun _ member => by cases member) rfl (Or.inr ⟨rfl, rfl, rfl⟩)

theorem clientResult_injective : Function.Injective clientResult := by
  intro first second same
  cases first with
  | ok output =>
      cases second with
      | ok other => exact congrArg Except.ok (Except.ok.inj same)
      | error error => cases same
  | error error =>
      cases second with
      | ok other => cases same
      | error other =>
          have sameText : error.message = other.message :=
            ClientError.remote.inj (Except.error.inj same)
          exact congrArg (fun text => Except.error (RemoteError.mk text)) sameText

/-! ### The log -/

theorem addResponse_concat (response : Response) (earlier : List (Request × List Response))
    (request : Request) (responses : List Response) :
    addResponse response (earlier ++ [(request, responses)]) =
      earlier ++ [(request, responses ++ [response])] := by
  induction earlier with
  | nil => rfl
  | cons first rest ih =>
      cases rest with
      | nil => rfl
      | cons second later =>
          change first :: addResponse response ((second :: later) ++ [(request, responses)]) = _
          rw [ih]
          rfl

theorem addResponse_requests (response : Response) (log : List (Request × List Response)) :
    (addResponse response log).map Prod.fst = log.map Prod.fst := by
  cases log using List.reverseRecOn with
  | nil => rfl
  | append_singleton earlier last =>
      rw [addResponse_concat, List.map_append, List.map_append]
      rfl

theorem addResponse_grows (response : Response) {log : List (Request × List Response)}
    {number : Nat} {request : Request} {responses : List Response}
    (entry : log[number]? = some (request, responses)) :
    ∃ more, (addResponse response log)[number]? = some (request, responses ++ more) := by
  cases log using List.reverseRecOn with
  | nil => cases entry
  | append_singleton earlier last =>
      rw [addResponse_concat]
      have inside := (List.getElem?_eq_some_iff.mp entry).1
      rw [List.length_append, List.length_singleton] at inside
      rcases Nat.lt_succ_iff_lt_or_eq.mp inside with before | rfl
      · rw [List.getElem?_append_left before] at entry
        refine ⟨[], ?_⟩
        rw [List.getElem?_append_left before, entry, List.append_nil]
      · rw [List.getElem?_concat_length] at entry
        refine ⟨[response], ?_⟩
        rw [List.getElem?_concat_length, Option.some.inj entry]

theorem addResponse_getElem? (response : Response) (log : List (Request × List Response))
    {number : Nat} (settled : number + 1 < log.length) :
    (addResponse response log)[number]? = log[number]? := by
  cases log using List.reverseRecOn with
  | nil => rfl
  | append_singleton earlier last =>
      rw [List.length_append] at settled
      have inside : number < earlier.length := Nat.succ_lt_succ_iff.mp settled
      rw [addResponse_concat, List.getElem?_append_left inside, List.getElem?_append_left inside]

theorem addResponse_length (response : Response) (log : List (Request × List Response)) :
    (addResponse response log).length = log.length := by
  rw [← List.length_map Prod.fst, addResponse_requests, List.length_map]

theorem Returned.Answered.congr {log other : List (Request × List Response)} {call : Returned}
    {answer : Except RemoteError Output} (answered : call.Answered log answer)
    (same : ∀ number, call.number = some number → number < log.length →
      other[number]? = log[number]?) : call.Answered other answer := by
  obtain ⟨number, chunks, numbered, entry, rest⟩ := answered
  have inside := (List.getElem?_eq_some_iff.mp entry).1
  exact ⟨number, chunks, numbered, (same number numbered inside).trans entry, rest⟩

theorem Returned.Answered.number_lt {log : List (Request × List Response)} {call : Returned}
    {answer : Except RemoteError Output} (answered : call.Answered log answer) {number : Nat}
    (numbered : call.number = some number) : number < log.length := by
  obtain ⟨place, chunks, placed, entry, -⟩ := answered
  rw [Option.some.inj (numbered.symm.trans placed)]
  exact (List.getElem?_eq_some_iff.mp entry).1

theorem Returned.Took.grow {log other : List (Request × List Response)} {call : Returned}
    (took : call.Took log)
    (grows : ∀ (number : Nat) (responses : List Response),
      log[number]? = some (call.request, responses) →
        ∃ more, other[number]? = some (call.request, responses ++ more)) : call.Took other := by
  rcases took with nothing | ⟨number, chunks, later, numbered, entry, written, plain, failed⟩
  · exact Or.inl nothing
  · obtain ⟨more, grown⟩ := grows number _ entry
    rw [List.append_assoc] at grown
    refine Or.inr ⟨number, chunks, later ++ more, numbered, grown, written, plain, ?_⟩
    intro broke
    obtain ⟨data, rest, rfl⟩ := failed broke
    exact ⟨data, rest ++ more, rfl⟩

section Steps

variable {codecs : Codecs} {state after : Connection} (aligned : state.Aligned codecs)

include aligned

/-- A call gives the lock back, or fails to get it. -/
theorem Connection.Aligned.finish {holder : Holder}
    (held : state.holder = some holder ∨ state.holder = none ∧ holder.number = none)
    (responses : Bytes) (shutdown poisoned : Bool) (result : Except ClientError Output)
    (writerFailed : Bool) (shuts : state.shutdown = true → shutdown = true)
    (poisons : state.poisoned = true → poisoned = true)
    (answered : ∀ answer, result = clientResult answer →
      Returned.Answered state.log
        { toHolder := holder, result := result, writerFailed := writerFailed } answer)
    (took : Returned.Took state.log
      { toHolder := holder, result := result, writerFailed := writerFailed })
    (foreseen : ∀ error, result = .error error → error.Own ∨ ∃ message, error = .remote message)
    (settled : ∀ answer, result = clientResult answer → ∀ frames goesOn,
      state.daemon ≠ .serving frames goesOn)
    (failed : writerFailed = true → shutdown = true ∨ poisoned = true)
    (sound : ∀ output, result = .ok output → ¬ state.Broken)
    (wire : Connection.Wire codecs ({ state with
      responses := responses, shutdown := shutdown, poisoned := poisoned }.finish holder result
        writerFailed)) :
    ({ state with responses := responses, shutdown := shutdown, poisoned := poisoned }.finish
      holder result writerFailed).Aligned codecs := by
  have numbers : (state.returned ++
      [({ toHolder := holder, result := result, writerFailed := writerFailed } : Returned)]).filterMap
        (fun call => call.number) ++ ((none : Option Holder).bind Holder.number).toList =
      state.returned.filterMap (fun call => call.number) ++
        (state.holder.bind Holder.number).toList := by
    rw [List.filterMap_append]
    rcases held with held | ⟨free, unsent⟩
    · rw [held]
      cases number : holder.number with
      | none => simp [number]
      | some place => simp [number]
    · simp [free, unsent]
  have member {call : Returned} (inside : call ∈ state.returned ++
      [({ toHolder := holder, result := result, writerFailed := writerFailed } : Returned)]) :
      call ∈ state.returned ∨
        call = { toHolder := holder, result := result, writerFailed := writerFailed } := by
    rwa [List.mem_append, List.mem_singleton] at inside
  refine
    { current := fun _ impossible => by cases impossible
      log_sent := aligned.log_sent
      numbers := ?_
      bound := ?_
      last := fun _ impossible => by cases impossible
      owned := ?_
      answered := ?_
      took := ?_
      foreseen := ?_
      settled := ?_
      failed := ?_
      later := ?_
      wire := wire }
  · exact numbers ▸ aligned.numbers
  · exact numbers ▸ aligned.bound
  · intro call inside number numbered
    rcases member inside with old | rfl
    · exact aligned.owned call old number numbered
    · rcases held with held | ⟨-, unsent⟩
      · exact (aligned.last holder held number numbered).1
      · cases unsent.symm.trans numbered
  · intro call inside answer done
    rcases member inside with old | rfl
    · exact aligned.answered call old answer done
    · exact answered answer done
  · intro call inside
    rcases member inside with old | rfl
    · exact aligned.took call old
    · exact took
  · intro call inside error failure
    rcases member inside with old | rfl
    · exact aligned.foreseen call old error failure
    · exact foreseen error failure
  · intro frames goesOn serving call inside answer done number same
    rcases member inside with old | rfl
    · exact aligned.settled frames goesOn serving call old answer done number same
    · exact absurd serving (settled answer done frames goesOn)
  · intro call inside broke
    rcases member inside with old | rfl
    · rcases aligned.failed call old broke with wasShut | wasPoisoned
      · exact Or.inl (shuts wasShut)
      · exact Or.inr (poisons wasPoisoned)
    · exact failed broke
  · refine List.pairwise_append.mpr ⟨aligned.later, List.pairwise_singleton _ _, ?_⟩
    intro earlier old call new broke output done
    rw [List.mem_singleton.mp new] at done
    exact sound output done (aligned.failed earlier old broke)

/-- A call gives up with an error of its own. -/
theorem Connection.Aligned.fail {holder : Holder}
    (held : state.holder = some holder ∨ state.holder = none ∧ holder.number = none)
    (responses : Bytes) (shutdown poisoned : Bool) (error : ClientError) (own : error.Own)
    (writerFailed : Bool) (shuts : state.shutdown = true → shutdown = true)
    (poisons : state.poisoned = true → poisoned = true)
    (took : Returned.Took state.log
      { toHolder := holder, result := .error error, writerFailed := writerFailed })
    (failed : writerFailed = true → shutdown = true ∨ poisoned = true)
    (wire : Connection.Wire codecs ({ state with
      responses := responses, shutdown := shutdown, poisoned := poisoned }.finish holder
        (.error error) writerFailed)) :
    ({ state with responses := responses, shutdown := shutdown, poisoned := poisoned }.finish
      holder (.error error) writerFailed).Aligned codecs := by
  have unanswered : ∀ answer, Except.error error ≠ clientResult answer := by
    intro answer same
    cases answer with
    | ok output => cases same
    | error remote =>
        rw [Except.error.inj same] at own
        exact own
  refine aligned.finish held responses shutdown poisoned (.error error) writerFailed shuts poisons
    (fun answer same => absurd same (unanswered answer)) took ?_
    (fun answer same => absurd same (unanswered answer)) failed ?_ wire
  · intro other same
    rw [← Except.error.inj same]
    exact Or.inl own
  · intro output impossible
    cases impossible

theorem Connection.Aligned.abandon {holder : Holder}
    (held : state.holder = some holder ∨ state.holder = none)
    (unsent : holder.number = none) (unwritten : holder.written = []) (error : ClientError)
    (own : error.Own) : (state.finish holder (.error error) false).Aligned codecs := by
  have holds : ∀ other, state.holder = some other → other.number = none := by
    intro other otherHeld
    rcases held with held | free
    · rw [← Option.some.inj (held.symm.trans otherHeld)]
      exact unsent
    · cases free.symm.trans otherHeld
  refine aligned.fail (held.imp_right fun free => ⟨free, unsent⟩) state.responses state.shutdown
    state.poisoned error own false id id (Or.inl ⟨unwritten, rfl⟩) ?_ ?_
  · intro impossible
    cases impossible
  · have none_held : ∀ other ∈ (none : Option Holder), other.number = none :=
      fun _ impossible => by cases impossible
    cases aligned.wire with
    | broken isBroken _ _ finished => exact .broken isBroken none_held (Or.inr rfl) finished
    | quiet sound _ nothing finished => exact .quiet sound none_held nothing finished
    | sent _ other otherHeld way => exact absurd (holds other otherHeld) way.numbered
    | answering _ other otherHeld way =>
        obtain ⟨earlier, chunks, pending, remaining, -, number, -⟩ := way.progress
        cases (holds other otherHeld).symm.trans number

theorem Connection.Aligned.lock {thread : Nat} {operation : Operation}
    (moved : state.lock thread operation = some after) : after.Aligned codecs := by
  unfold Connection.lock at moved
  dsimp only at moved
  split at moved
  · cases moved
  · rename_i free
    let holder : Holder :=
      { thread := thread, request := .new state.volume operation, number := none, written := [] }
    have unsent : ∀ other ∈ some holder, other.number = none := by
      intro other member
      rw [← Option.some.inj member]
    split at moved
    · rw [← Option.some.inj moved]
      exact aligned.abandon (Or.inr free) rfl rfl .poisoned trivial
    · rename_i usable
      rw [← Option.some.inj moved]
      refine
        { current := ?_
          log_sent := aligned.log_sent
          numbers := ?_
          bound := ?_
          last := ?_
          owned := aligned.owned
          answered := aligned.answered
          took := aligned.took
          foreseen := aligned.foreseen
          settled := aligned.settled
          failed := aligned.failed
          later := aligned.later
          wire := ?_ }
      · intro other member
        rw [← Option.some.inj member]
        exact ⟨rfl, fun _ => rfl⟩
      · have numbers := aligned.numbers
        rw [free] at numbers
        exact numbers
      · have bound := aligned.bound
        rw [free] at bound
        exact bound
      · intro other member number same
        rw [unsent other member] at same
        cases same
      · cases aligned.wire with
        | broken isBroken _ _ finished =>
            have shut := isBroken.resolve_right usable
            exact .broken isBroken unsent (Or.inl shut) finished
        | quiet sound _ nothing finished => exact .quiet sound unsent nothing finished
        | sent _ other otherHeld => cases free.symm.trans otherHeld
        | answering _ other otherHeld => cases free.symm.trans otherHeld

/-- The request of a call goes to the daemon. -/
theorem Connection.Aligned.deliver {holder : Holder} {bytes : Bytes}
    (held : state.holder = some holder) (unsent : holder.number = none)
    (written : writeFrame codecs.request MAX_FRAME_SIZE holder.request = .ok bytes)
    (usable : ¬ state.shutdown = true) :
    ({ state with
      requests := state.requests ++ bytes
      sent := state.sent ++ [holder.request]
      holder := some { holder with number := some state.sent.length } } : Connection).Aligned
        codecs := by
  have numbers := aligned.numbers
  have bound := aligned.bound
  have nothing : (state.holder.bind Holder.number).toList = [] := by
    rw [held]
    simp [unsent]
  rw [nothing, List.append_nil] at numbers bound
  have sending {other : Holder}
      (member : other ∈ some { holder with number := some state.sent.length }) :
      other = { holder with number := some state.sent.length } :=
    (Option.some.inj member).symm
  refine
    { current := ?_
      log_sent := aligned.log_sent.trans (List.prefix_append _ _)
      numbers := ?_
      bound := ?_
      last := ?_
      owned := ?_
      answered := aligned.answered
      took := aligned.took
      foreseen := aligned.foreseen
      settled := aligned.settled
      failed := aligned.failed
      later := aligned.later
      wire := ?_ }
  · intro other member
    rw [sending member]
    exact ⟨(aligned.current holder held).1, fun impossible => by cases impossible⟩
  · refine List.pairwise_append.mpr ⟨numbers, List.pairwise_singleton _ _, ?_⟩
    intro number old last new
    rw [List.mem_singleton.mp new]
    exact bound number old
  · intro number member
    rw [List.length_append]
    rcases List.mem_append.mp member with old | new
    · exact Nat.lt_succ_of_lt (bound number old)
    · rw [List.mem_singleton.mp new]
      exact Nat.lt_succ_self _
  · intro other member number same
    rw [sending member] at same ⊢
    rw [← Option.some.inj same, List.getElem?_concat_length, List.length_append]
    exact ⟨rfl, rfl⟩
  · intro call member number numbered
    have owned := aligned.owned call member number numbered
    rw [List.getElem?_append_left (List.getElem?_eq_some_iff.mp owned).1]
    exact owned
  · cases aligned.wire with
    | broken _ _ locked _ =>
        rcases locked with shut | free
        · exact absurd shut usable
        · cases free.symm.trans held
    | quiet sound _ nothing finished =>
        refine .sent sound _ rfl ⟨nothing, (aligned.current holder held).2 unsent, ?_, ?_⟩
        · intro impossible
          cases impossible
        · rcases finished with ended | ⟨idle, empty, same⟩
          · exact Or.inl ended
          · refine Or.inr ⟨idle, congrArg some same.symm, ?_⟩
            rw [empty]
            exact written
    | sent _ other otherHeld way =>
        obtain rfl := Option.some.inj (held.symm.trans otherHeld)
        exact absurd unsent way.numbered
    | answering _ other otherHeld way =>
        obtain rfl := Option.some.inj (held.symm.trans otherHeld)
        obtain ⟨earlier, chunks, pending, remaining, -, number, -⟩ := way.progress
        cases unsent.symm.trans number

theorem Connection.Aligned.writeRequest {delivered : Bool}
    (moved : state.writeRequest codecs delivered = some after) : after.Aligned codecs := by
  unfold Connection.writeRequest at moved
  split at moved
  · cases moved
  · rename_i holder held
    split at moved
    · cases moved
    · rename_i unsent
      rw [not_not] at unsent
      have unwritten := (aligned.current holder held).2 unsent
      split at moved
      · rw [← Option.some.inj moved]
        exact aligned.abandon (Or.inl held) unsent unwritten _ trivial
      · rename_i bytes written
        split at moved
        · rw [← Option.some.inj moved]
          exact aligned.abandon (Or.inl held) unsent unwritten _ trivial
        · rename_i open_
          split at moved
          · rw [← Option.some.inj moved]
            exact aligned.deliver held unsent written open_
          · split at moved
            · rw [← Option.some.inj moved]
              exact aligned.abandon (Or.inl held) unsent unwritten _ trivial
            · cases moved

/-- A step of the daemon that reads no request and writes nothing the client waits for. -/
theorem Connection.Aligned.endService : ({ state with daemon := .ended } : Connection).Aligned codecs := by
  refine
    { current := aligned.current
      log_sent := aligned.log_sent
      numbers := aligned.numbers
      bound := aligned.bound
      last := aligned.last
      owned := aligned.owned
      answered := aligned.answered
      took := aligned.took
      foreseen := aligned.foreseen
      settled := fun _ _ impossible => by cases impossible
      failed := aligned.failed
      later := aligned.later
      wire := ?_ }
  cases aligned.wire with
  | broken isBroken unsent locked _ => exact .broken isBroken unsent locked (Or.inl rfl)
  | quiet sound unsent nothing _ => exact .quiet sound unsent nothing (Or.inl rfl)
  | sent sound holder held way =>
      exact .sent sound holder held ⟨way.nothing, way.unwritten, way.numbered, Or.inl rfl⟩
  | answering sound holder held way =>
      obtain ⟨earlier, chunks, pending, remaining, log, number, written, plain, bytes, framed, answer,
        -⟩ := way.progress
      refine .answering sound holder held ⟨earlier, chunks, pending, [], log, number, written, plain,
        bytes, ?_, ?_, Or.inl ⟨rfl, rfl⟩⟩
      · intro frame member
        rw [List.append_nil] at member
        exact framed frame (List.mem_append_left _ member)
      · rw [List.append_nil]
        rw [List.map_append] at answer
        exact answer.left

/-- The daemon reads the request of the call that holds the lock. -/
theorem Connection.Aligned.serve {handling : Handling} {request : Request} {rest : Bytes}
    (idle : state.daemon = .idle)
    (read : readFrame codecs.request MAX_FRAME_SIZE state.requests = .value request rest) :
    ({ state with
      requests := rest
      daemon := .next (serveRequest codecs.response request handling).1
        (serveRequest codecs.response request handling).2
      log := state.log ++ [(request, [])] } : Connection).Aligned codecs := by
  have some_bytes : state.requests ≠ [] := by
    intro empty
    rw [empty] at read
    cases read
  cases aligned.wire with
  | broken _ _ _ finished =>
      rcases finished with ended | empty
      · cases idle.symm.trans ended
      · exact absurd empty some_bytes
  | quiet _ _ _ finished =>
      rcases finished with ended | ⟨-, empty, -⟩
      · cases idle.symm.trans ended
      · exact absurd empty some_bytes
  | answering _ _ _ way =>
      obtain ⟨-, -, -, -, -, -, -, -, -, -, -, ⟨ended, -⟩ | ⟨empty, -⟩⟩ := way.progress
      · cases idle.symm.trans ended
      · exact absurd empty some_bytes
  | sent sound holder held way =>
      obtain ended | ⟨-, number, written⟩ := way.request
      · cases idle.symm.trans ended
      · have whole := readFrame_writeFrame written []
        rw [List.append_nil, read] at whole
        obtain ⟨rfl, rfl⟩ := Reading.value.inj whole
        obtain ⟨inSent, length⟩ := aligned.last holder held _ number
        have version := (aligned.current holder held).1
        obtain ⟨framed, answer⟩ := serveRequest_answer codecs.response holder.request handling version
        refine
          { current := aligned.current
            log_sent := ?_
            numbers := aligned.numbers
            bound := aligned.bound
            last := aligned.last
            owned := aligned.owned
            answered := ?_
            took := ?_
            foreseen := aligned.foreseen
            settled := ?_
            failed := aligned.failed
            later := aligned.later
            wire := ?_ }
        · obtain ⟨tail, whole⟩ := aligned.log_sent
          rw [← whole, List.length_append, List.length_map] at length
          obtain ⟨one, rfl⟩ := List.length_eq_one_iff.mp (Nat.add_left_cancel length)
          rw [← whole, List.getElem?_append_right (by simp), List.length_map, Nat.sub_self] at inSent
          change (state.log ++ [(holder.request, [])]).map Prod.fst <+: state.sent
          rw [List.map_append, ← whole, Option.some.inj inSent]
          exact List.prefix_refl _
        · intro call member answer done
          refine (aligned.answered call member answer done).congr ?_
          intro place _ inside
          exact List.getElem?_append_left inside
        · intro call member
          refine Returned.Took.grow (aligned.took call member) ?_
          intro place responses entry
          refine ⟨[], ?_⟩
          rw [List.getElem?_append_left (List.getElem?_eq_some_iff.mp entry).1, entry,
            List.append_nil]
        · intro _ _ _ call member answer done place placed
          have inside := (aligned.answered call member answer done).number_lt placed
          rw [List.length_append]
          exact Nat.succ_lt_succ inside
        · refine .answering sound holder held ⟨state.log, [], [],
            (serveRequest codecs.response holder.request handling).1, rfl, number, ?_, fun _ => rfl,
            way.nothing, framed, answer, Or.inr ⟨rfl, _, rfl⟩⟩
          exact way.unwritten

theorem Connection.Aligned.readRequest {handling : Handling}
    (moved : state.readRequest codecs handling = some after) : after.Aligned codecs := by
  unfold Connection.readRequest at moved
  split at moved
  · cases moved
  · rename_i idle
    rw [not_not] at idle
    split at moved
    · split at moved
      · rw [← Option.some.inj moved]
        exact aligned.endService
      · cases moved
    · rw [← Option.some.inj moved]
      exact aligned.endService
    · rename_i request rest read
      rw [← Option.some.inj moved]
      exact aligned.serve idle read

/-- The daemon answers a call that has got nothing yet. -/
theorem Connection.Aligned.respond {frame : Response × Bytes} {frames : List (Response × Bytes)}
    {goesOn : Bool} (serving : state.daemon = .serving (frame :: frames) goesOn) :
    ({ state with
      responses := state.responses ++ frame.2
      daemon := .next frames goesOn
      log := addResponse frame.1 state.log } : Connection).Aligned codecs := by
  refine
    { current := aligned.current
      log_sent := ?_
      numbers := aligned.numbers
      bound := aligned.bound
      last := aligned.last
      owned := aligned.owned
      answered := ?_
      took := ?_
      foreseen := aligned.foreseen
      settled := ?_
      failed := aligned.failed
      later := aligned.later
      wire := ?_ }
  · change (addResponse frame.1 state.log).map Prod.fst <+: state.sent
    rw [addResponse_requests]
    exact aligned.log_sent
  · intro call member answer done
    refine (aligned.answered call member answer done).congr ?_
    intro number numbered _
    exact addResponse_getElem? frame.1 state.log
      (aligned.settled _ _ serving call member answer done number numbered)
  · intro call member
    exact Returned.Took.grow (aligned.took call member) fun number responses entry =>
      addResponse_grows frame.1 entry
  · intro _ _ _ call member answer done number numbered
    change number + 1 < (addResponse frame.1 state.log).length
    rw [addResponse_length]
    exact aligned.settled _ _ serving call member answer done number numbered
  · cases aligned.wire with
    | broken isBroken unsent locked finished =>
        refine .broken isBroken unsent locked (Or.inr ?_)
        rcases finished with ended | empty
        · cases serving.symm.trans ended
        · exact empty
    | quiet _ _ _ finished =>
        rcases finished with ended | ⟨idle, -⟩
        · cases serving.symm.trans ended
        · cases serving.symm.trans idle
    | sent _ holder _ way =>
        rcases way.request with ended | ⟨idle, -⟩
        · cases serving.symm.trans ended
        · cases serving.symm.trans idle
    | answering sound holder held way =>
        obtain ⟨earlier, chunks, pending, remaining, log, number, written, plain, bytes, framed,
          answer, ⟨ended, -⟩ | ⟨empty, later, owed⟩⟩ := way.progress
        · cases serving.symm.trans ended
        · have all : remaining = frame :: frames ∧ later = goesOn := by
            rw [serving] at owed
            unfold Daemon.next at owed
            split at owed
            · obtain ⟨same, flag⟩ := Daemon.serving.inj owed
              exact ⟨same.symm, flag.symm⟩
            · split at owed
              · cases owed
              · cases owed
          obtain ⟨rfl, rfl⟩ := all
          refine .answering sound holder held ⟨earlier, chunks, pending ++ [frame], frames, ?_,
            number, written, plain, ?_, ?_, ?_, Or.inr ⟨empty, later, rfl⟩⟩
          · change addResponse frame.1 state.log = _
            rw [log, addResponse_concat, List.map_append, List.append_assoc]
            rfl
          · change state.responses ++ frame.2 = _
            rw [bytes]
            unfold wireBytes
            rw [List.flatMap_append, List.flatMap_singleton]
          · rwa [List.append_assoc]
          · rwa [List.append_assoc]

theorem Connection.Aligned.writeResponse (moved : state.writeResponse = some after) :
    after.Aligned codecs := by
  unfold Connection.writeResponse at moved
  split at moved
  · rename_i serving
    rw [← Option.some.inj moved]
    exact aligned.respond serving
  · cases moved

theorem Connection.Aligned.took_so_far {holder : Holder} (held : state.holder = some holder)
    (result : Except ClientError Output) :
    Returned.Took state.log { toHolder := holder, result := result, writerFailed := false } := by
  have unsent (none_sent : holder.number = none) : Returned.Took state.log
      { toHolder := holder, result := result, writerFailed := false } :=
    Or.inl ⟨(aligned.current holder held).2 none_sent, rfl⟩
  cases aligned.wire with
  | broken _ nobody _ _ => exact unsent (nobody holder held)
  | quiet _ nobody _ _ => exact unsent (nobody holder held)
  | sent _ other otherHeld way =>
      obtain rfl := Option.some.inj (held.symm.trans otherHeld)
      exact Or.inl ⟨way.unwritten, rfl⟩
  | answering _ other otherHeld way =>
      obtain rfl := Option.some.inj (held.symm.trans otherHeld)
      obtain ⟨earlier, chunks, pending, remaining, log, number, written, plain, -⟩ := way.progress
      refine Or.inr ⟨earlier.length, chunks, pending.map Prod.fst, number, ?_, written, plain, ?_⟩
      · rw [log, List.getElem?_concat_length]
      · intro impossible
        cases impossible

theorem Connection.Aligned.endOfFile {holder : Holder} (held : state.holder = some holder)
    (numbered : holder.number ≠ none) (ended : state.daemon = .ended) :
    ({ state with responses := [] }.finish holder (.error (.protocol .io)) false).Aligned codecs := by
  refine aligned.fail (Or.inl held) [] state.shutdown state.poisoned (.protocol .io) trivial false id id
    (aligned.took_so_far held _) ?_ ?_
  · intro impossible
    cases impossible
  · have none_held : ∀ other ∈ (none : Option Holder), other.number = none :=
      fun _ impossible => by cases impossible
    cases aligned.wire with
    | broken isBroken _ _ _ => exact .broken isBroken none_held (Or.inr rfl) (Or.inl ended)
    | quiet sound unsent _ _ => exact absurd (unsent holder held) numbered
    | sent sound _ _ _ => exact .quiet sound none_held rfl (Or.inl ended)
    | answering sound _ _ _ => exact .quiet sound none_held rfl (Or.inl ended)

/-- The last response for the request of a call. -/
theorem Connection.Aligned.finalResponse (sound : ¬ state.Broken) {holder : Holder}
    (held : state.holder = some holder) {earlier : List (Request × List Response)}
    {chunks : List Bytes} (answer : Except RemoteError Output)
    (log : state.log = earlier ++ [(holder.request,
      chunks.map Response.data ++ [{ version := VERSION, result := answer }])])
    (number : holder.number = some earlier.length) (written : holder.written = chunks.flatten)
    (plain : holder.request.operation.streaming = false → chunks = [])
    (owes : state.Owes []) :
    ({ state with responses := [] }.finish holder (clientResult answer) false).Aligned codecs := by
  refine aligned.finish (Or.inl held) [] state.shutdown state.poisoned (clientResult answer) false
    id id ?_ (aligned.took_so_far held _) ?_ ?_ ?_ (fun _ _ => sound) ?_
  · intro other same
    refine ⟨earlier.length, chunks, number, ?_, written, plain⟩
    rw [log, List.getElem?_concat_length, clientResult_injective same]
  · intro error same
    cases answer with
    | ok output => cases same
    | error remote => exact Or.inr ⟨remote.message, (Except.error.inj same).symm⟩
  · intro other _ frames goesOn serving
    rcases owes with ⟨ended, -⟩ | ⟨-, later, next⟩
    · cases serving.symm.trans ended
    · rw [serving] at next
      cases later with
      | false => cases next
      | true => cases next
  · intro impossible
    cases impossible
  · refine .quiet sound (fun _ impossible => by cases impossible) rfl ?_
    rcases owes with ⟨ended, -⟩ | ⟨empty, later, next⟩
    · exact Or.inl ended
    · cases later with
      | false => exact Or.inl next
      | true =>
          refine Or.inr ⟨next, empty, ?_⟩
          have length := (aligned.last holder held _ number).2
          change state.log.length = state.sent.length
          rw [log, List.length_append, length]
          rfl

/-- The output writer takes a piece of data. -/
theorem Connection.Aligned.accept (sound : ¬ state.Broken) {holder : Holder}
    (held : state.holder = some holder) (streams : holder.request.operation.streaming = true)
    {earlier : List (Request × List Response)} {chunks : List Bytes} {data rest : Bytes}
    {pending remaining : List (Response × Bytes)}
    (log : state.log = earlier ++ [(holder.request,
      chunks.map Response.data ++ Response.data data :: pending.map Prod.fst)])
    (number : holder.number = some earlier.length) (written : holder.written = chunks.flatten)
    (bytes : rest = wireBytes pending) (framed : Framed codecs.response (pending ++ remaining))
    (answer : Answer true ((pending ++ remaining).map Prod.fst)) (owes : state.Owes remaining) :
    ({ state with
      responses := rest
      holder := some { holder with written := holder.written ++ data } } : Connection).Aligned
        codecs := by
  have taking {other : Holder} (member : other ∈ some { holder with written := holder.written ++ data }) :
      other = { holder with written := holder.written ++ data } :=
    (Option.some.inj member).symm
  have numbers := aligned.numbers
  have bound := aligned.bound
  rw [held] at numbers bound
  refine
    { current := ?_
      log_sent := aligned.log_sent
      numbers := numbers
      bound := bound
      last := ?_
      owned := aligned.owned
      answered := aligned.answered
      took := aligned.took
      foreseen := aligned.foreseen
      settled := aligned.settled
      failed := aligned.failed
      later := aligned.later
      wire := ?_ }
  · intro other member
    rw [taking member]
    refine ⟨(aligned.current holder held).1, ?_⟩
    intro unsent
    cases unsent.symm.trans number
  · intro other member place placed
    rw [taking member] at placed ⊢
    exact aligned.last holder held place placed
  · refine .answering sound _ rfl ⟨earlier, chunks ++ [data], pending, remaining, ?_, number, ?_, ?_,
      bytes, framed, ?_, owes⟩
    · change state.log = _
      rw [log, List.map_append, List.append_assoc]
      rfl
    · change holder.written ++ data = (chunks ++ [data]).flatten
      rw [written, List.flatten_append, List.flatten_singleton]
    · intro plain
      cases streams.symm.trans plain
    · exact streams.symm ▸ answer

theorem Connection.Aligned.readResponse {writer : Writer}
    (moved : state.readResponse codecs writer = some after) : after.Aligned codecs := by
  unfold Connection.readResponse at moved
  split at moved
  · cases moved
  · rename_i holder held
    split at moved
    · cases moved
    · rename_i numbered
      cases aligned.wire with
      | broken _ unsent _ _ => exact absurd (unsent holder held) numbered
      | quiet _ unsent _ _ => exact absurd (unsent holder held) numbered
      | sent _ other _ way =>
          rw [way.nothing, readFrame_nil] at moved
          dsimp only at moved
          split at moved
          · rename_i ended
            rw [← Option.some.inj moved]
            exact aligned.endOfFile held numbered ended
          · cases moved
      | answering sound other otherHeld way =>
          obtain rfl := Option.some.inj (held.symm.trans otherHeld)
          obtain ⟨earlier, chunks, pending, remaining, log, number, written, plain, bytes, framed,
            answer, owes⟩ := way.progress
          cases pending with
          | nil =>
              rw [bytes, wireBytes, List.flatMap_nil, readFrame_nil] at moved
              dsimp only at moved
              split at moved
              · rename_i ended
                rw [← Option.some.inj moved]
                exact aligned.endOfFile held numbered ended
              · cases moved
          | cons frame more =>
              have first := framed frame List.mem_cons_self
              rw [bytes, wireBytes, List.flatMap_cons, readFrame_writeFrame first] at moved
              dsimp only at moved
              obtain ⟨done, final⟩ | ⟨streams, ⟨data, same⟩, later⟩ := Answer.cons answer
              · obtain ⟨rfl, rfl⟩ := List.append_eq_nil_iff.mp (List.map_eq_nil_iff.mp done)
                obtain ⟨output, shape, received⟩ | ⟨remote, shape, received⟩ := receive_final final
                · rw [received] at moved
                  rw [← Option.some.inj moved]
                  refine aligned.finalResponse sound held (.ok output) ?_ number written plain owes
                  rw [log, ← shape]
                  rfl
                · rw [received] at moved
                  rw [← Option.some.inj moved]
                  refine aligned.finalResponse sound held (.error remote) ?_ number written plain owes
                  rw [log, ← shape]
                  rfl
              · rw [streams, same, receive_data] at moved
                dsimp only at moved
                have after_failure : ∀ broken : Connection, broken.Broken →
                    broken.holder = none → broken.daemon = state.daemon →
                    broken.requests = state.requests → broken.Wire codecs := by
                  intro broken isBroken free sameDaemon sameRequests
                  refine .broken isBroken ?_ (Or.inr free) ?_
                  · intro holder impossible
                    rw [free] at impossible
                    cases impossible
                  · rw [sameDaemon, sameRequests]
                    exact owes.imp And.left And.left
                have broke_off (result : Except ClientError Output) : Returned.Took state.log
                    { toHolder := holder, result := result, writerFailed := true } := by
                  refine Or.inr ⟨earlier.length, chunks, _, number, ?_, written, plain,
                    fun _ => ⟨data, more.map Prod.fst, rfl⟩⟩
                  rw [log, List.getElem?_concat_length, List.map_cons, same]
                cases writer with
                | accepts =>
                    rw [← Option.some.inj moved]
                    rw [streams] at later
                    refine aligned.accept sound held streams ?_ number written rfl (fun other member =>
                      framed other (List.mem_cons_of_mem frame member)) later owes
                    rw [log, List.map_cons, same]
                | fails =>
                    rw [← Option.some.inj moved]
                    exact aligned.fail (Or.inl held) _ true state.poisoned (.protocol .io) trivial true
                      (fun _ => rfl) id (broke_off _) (fun _ => Or.inl rfl)
                      (after_failure _ (Or.inl rfl) rfl rfl rfl)
                | panics =>
                    rw [← Option.some.inj moved]
                    exact aligned.fail (Or.inl held) _ state.shutdown true .poisoned trivial true id
                      (fun _ => rfl) (broke_off _) (fun _ => Or.inr rfl)
                      (after_failure _ (Or.inr rfl) rfl rfl rfl)

theorem Connection.Aligned.step {event : Event} (moved : state.Moves codecs event after) :
    after.Aligned codecs := by
  unfold Connection.Moves Connection.step at moved
  cases event with
  | lock thread operation => exact aligned.lock moved
  | writeRequest delivered => exact aligned.writeRequest moved
  | readRequest handling => exact aligned.readRequest moved
  | writeResponse => exact aligned.writeResponse moved
  | endService =>
      rw [← Option.some.inj moved]
      exact aligned.endService
  | readResponse writer => exact aligned.readResponse moved

end Steps

theorem aligned_of_reachable {codecs : Codecs} {volume : Text} {state : Connection}
    (reached : Reachable (Connection.connect volume) (Connection.Moves codecs) state) :
    state.Aligned codecs :=
  Reachable.invariant (aligned_connect codecs volume)
    (fun _ _ _ aligned moved => Connection.Aligned.step aligned moved) reached

/-- Every call gets responses for its own request only, from the first on and in order: its
output writer has got the data of a first part of them, and a result or an error of the daemon
is the last of them, the writer having got all the data before. The requests are read in the
order in which the calls have written them, no two calls have the same number, and after a
failure of an output writer no call succeeds. -/
theorem client_daemon_agreement {codecs : Codecs} {volume : Text} {state : Connection}
    (reached : Reachable (Connection.connect volume) (Connection.Moves codecs) state) :
    (∀ call ∈ state.returned, ∀ output, call.result = .ok output →
      call.Answered state.log (.ok output)) ∧
    (∀ call ∈ state.returned, ∀ message, call.result = .error (.remote message) →
      call.Answered state.log (.error { message := message })) ∧
    (∀ call ∈ state.returned, call.Took state.log) ∧
    (∀ call ∈ state.returned, ∀ error, call.result = .error error →
      error.Own ∨ ∃ message, error = .remote message) ∧
    state.log.map Prod.fst <+: state.sent ∧
    (∀ call ∈ state.returned, ∀ number, call.number = some number →
      state.sent[number]? = some call.request) ∧
    (state.returned.filterMap fun call => call.number).Pairwise (· < ·) ∧
    state.returned.Pairwise fun earlier later =>
      earlier.writerFailed = true → ∀ output, later.result ≠ .ok output := by
  have aligned := aligned_of_reachable reached
  refine ⟨?_, ?_, aligned.took, aligned.foreseen, aligned.log_sent, aligned.owned,
    (List.pairwise_append.mp aligned.numbers).1, aligned.later⟩
  · intro call member output done
    exact aligned.answered call member (.ok output) done
  · intro call member message failed
    exact aligned.answered call member (.error { message := message }) failed

theorem reachable_run {codecs : Codecs} {start state : Connection} (events : List Event)
    (ran : start.run codecs events = some state) :
    Reachable start (Connection.Moves codecs) state := by
  induction events using List.reverseRecOn generalizing state with
  | nil =>
      rw [← Option.some.inj ran]
      exact .start
  | append_singleton earlier event ih =>
      unfold Connection.run at ran
      rw [List.foldlM_append, Option.bind_eq_bind, Option.bind_eq_some_iff] at ran
      obtain ⟨before, first, last⟩ := ran
      rw [List.foldlM_cons, Option.bind_eq_bind, Option.bind_eq_some_iff] at last
      obtain ⟨next, moved, same⟩ := last
      rw [← Option.some.inj same]
      exact .next event (ih first) moved

/-- The requests and responses of `sharedEvents`, as `bincode` lays them out. -/
def sharedCodecs : Codecs where
  request := .table
    [(.new ['v'] (.grepFile ['/', 'f'] ['h'] false), [13, 1, 118, 2, 2, 47, 102, 1, 104, 0]),
      (.new ['v'] (.read ['/', 'g']), [13, 1, 118, 8, 2, 47, 103]),
      (.new ['v'] (.read ['/', 'f']), [13, 1, 118, 8, 2, 47, 102])] (by decide)
  response := .table
    [(.data [104, 105], [13, 0, 7, 2, 104, 105]),
      ({ version := VERSION, result := .ok (.searchDone true) }, [13, 0, 0, 1]),
      ({ version := VERSION, result := .error { message := ['?'] } }, [13, 1, 1, 63])] (by decide)

/-- What the database makes of the requests of `sharedEvents`. -/
def sharedHandling (plain : Except RemoteError Output) : Handling :=
  { plain := plain, sends := [[104], [105]], streamed := .ok true, failure := fun _ => [] }

/-- A stream, a read that the daemon refuses and one that it answers, by three threads; then a
stream whose writer fails, and a call after it. -/
def sharedEvents : List Event :=
  [.lock 0 (.grepFile ['/', 'f'] ['h'] false), .writeRequest true,
    .readRequest (sharedHandling (.ok .unit)), .writeResponse, .readResponse .accepts, .writeResponse,
    .readResponse .accepts,
    .lock 1 (.read ['/', 'g']), .writeRequest true,
    .readRequest (sharedHandling (.error { message := ['?'] })), .writeResponse,
    .readResponse .accepts,
    .lock 2 (.read ['/', 'f']), .writeRequest true,
    .readRequest (sharedHandling (.ok (.data [104, 105]))), .writeResponse, .readResponse .accepts,
    .lock 0 (.grepFile ['/', 'f'] ['h'] false), .writeRequest true,
    .readRequest (sharedHandling (.ok .unit)), .writeResponse, .readResponse .fails,
    .lock 1 (.read ['/', 'f']), .writeRequest true]

theorem client_daemon_agreement_of_shared :
    ∃ state, (Connection.connect ['v']).run sharedCodecs sharedEvents = some state ∧
      state.returned.map Returned.result =
        [.ok (.searchDone true), .error (.remote ['?']), .ok (.data [104, 105]),
          .error (.protocol .io), .error (.protocol .io)] ∧
      (∀ call ∈ state.returned, ∀ output, call.result = .ok output →
        call.Answered state.log (.ok output)) ∧
      (∀ call ∈ state.returned, ∀ message, call.result = .error (.remote message) →
        call.Answered state.log (.error { message := message })) ∧
      ∀ call ∈ state.returned, call.Took state.log := by
  have ran : ((Connection.connect ['v']).run sharedCodecs sharedEvents).isSome := by decide +kernel
  obtain ⟨state, same⟩ := Option.isSome_iff_exists.mp ran
  have results : ((Connection.connect ['v']).run sharedCodecs sharedEvents).map
      (fun state => state.returned.map Returned.result) =
        some [.ok (.searchDone true), .error (.remote ['?']), .ok (.data [104, 105]),
          .error (.protocol .io), .error (.protocol .io)] := by decide +kernel
  rw [same] at results
  obtain ⟨answered, refused, took, -⟩ := client_daemon_agreement (reachable_run sharedEvents same)
  exact ⟨state, same, Option.some.inj results, answered, refused, took⟩

end PostgreOS.Protocol
