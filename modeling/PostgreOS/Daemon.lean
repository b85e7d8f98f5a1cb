/-
How `pgosd` answers a request.

The database decides what the answer to a request is; the daemon cuts the output of a
streaming operation into frames and ends with one response. A frame that cannot be
written ends a stream with an error, and the connection if it was the last.
-/

import PostgreOS.Protocol

namespace PostgreOS.Protocol

open Library.Frames

def STREAM_FRAME_BYTES : Nat := 256 * 1024

/-- A `ResponseBuffer` between two writes; a full buffer has been flushed. -/
structure ResponseBuffer where
  data : Bytes
  notFull : data.length < STREAM_FRAME_BYTES

def ResponseBuffer.new : ResponseBuffer :=
  { data := [], notFull := by decide }

/-- `ResponseBuffer::write`: the data of the flushed frames and the buffer afterwards. -/
def ResponseBuffer.write (buffer : ResponseBuffer) (data : Bytes) : List Bytes × ResponseBuffer :=
  if empty : data = [] then ([], buffer)
  else
    let length := min (STREAM_FRAME_BYTES - buffer.data.length) data.length
    let filled := buffer.data ++ data.take length
    if full : filled.length = STREAM_FRAME_BYTES then
      let later := ResponseBuffer.new.write (data.drop length)
      (filled :: later.1, later.2)
    else
      ResponseBuffer.write ⟨filled, by
        have bound : filled.length ≤ STREAM_FRAME_BYTES := by
          have room := buffer.notFull
          rw [List.length_append, List.length_take]
          omega
        omega⟩ (data.drop length)
  termination_by data.length
  decreasing_by
    all_goals
      have room := buffer.notFull
      have some := List.length_pos_iff.mpr empty
      rw [List.length_drop]
      omega

/-- The data frames of a stream: what `send` was given, and the flush at the end if the
operation has succeeded. -/
def streamFrames (sends : List Bytes) (completed : Bool) : List Bytes :=
  let step := fun (state : List Bytes × ResponseBuffer) data =>
    let flushed := state.2.write data
    (state.1 ++ flushed.1, flushed.2)
  let state := sends.foldl step ([], ResponseBuffer.new)
  if completed ∧ state.2.data ≠ [] then state.1 ++ [state.2.data] else state.1

/-- What the database makes of a request: the result of `handle_request`, or the data
and the result of a streaming operation; and the texts of errors of the protocol. -/
structure Handling where
  plain : Except RemoteError Output
  sends : List Bytes
  streamed : Except RemoteError Bool
  failure : FrameError → Text

/-- The frames of a stream up to the first that cannot be written. -/
def sendFrames (codec : Codec Response) : List Bytes → List (Response × Bytes) × Option FrameError
  | [] => ([], none)
  | data :: rest =>
      match writeFrame codec MAX_FRAME_SIZE (Response.data data) with
      | .error error => ([], some error)
      | .ok bytes =>
          let later := sendFrames codec rest
          ((Response.data data, bytes) :: later.1, later.2)

/-- The last response for a request; `serve_connection` returns if it cannot be written. -/
def finishResponse (codec : Codec Response) (frames : List (Response × Bytes))
    (result : Except RemoteError Output) : List (Response × Bytes) × Bool :=
  let response : Response := { version := VERSION, result := result }
  match writeFrame codec MAX_FRAME_SIZE response with
  | .error _ => (frames, false)
  | .ok bytes => (frames ++ [(response, bytes)], true)

def unsupportedVersion (version : Nat) : RemoteError :=
  { message := "unsupported protocol version ".toList ++ (Nat.repr version).toList ++
      "; server uses 13".toList }

/-- One round of `serve_connection`: the frames for a request, and whether the loop goes on. -/
def serveRequest (codec : Codec Response) (request : Request) (handling : Handling) :
    List (Response × Bytes) × Bool :=
  if request.version = VERSION ∧ request.operation.streaming = true then
    let completed := match handling.streamed with
      | .ok _ => true
      | .error _ => false
    let sent := sendFrames codec (streamFrames handling.sends completed)
    match sent.2 with
    | some error => finishResponse codec sent.1 (.error { message := handling.failure error })
    | none => finishResponse codec sent.1 (handling.streamed.map Output.searchDone)
  else if request.version = VERSION then finishResponse codec [] handling.plain
  else finishResponse codec [] (.error (unsupportedVersion request.version))

/-! ### The shape of the answer -/

def FinalResponse (streaming : Bool) (response : Response) : Prop :=
  response.version = VERSION ∧
    (streaming = true → ∀ output, response.result = .ok output → ∃ found, output = .searchDone found)

/-- Data frames, if the operation streams, and at most one response after them. -/
def Answer (streaming : Bool) (responses : List Response) : Prop :=
  ∃ (chunks : List Bytes) (last : Option Response),
    responses = chunks.map Response.data ++ last.toList ∧ (streaming = false → chunks = []) ∧
      ∀ response ∈ last, FinalResponse streaming response

theorem Answer.nil (streaming : Bool) : Answer streaming [] :=
  ⟨[], none, rfl, fun _ => rfl, fun _ member => by cases member⟩

theorem Answer.cons {streaming : Bool} {response : Response} {rest : List Response}
    (answer : Answer streaming (response :: rest)) :
    (rest = [] ∧ FinalResponse streaming response) ∨
      (streaming = true ∧ (∃ data, response = Response.data data) ∧ Answer streaming rest) := by
  obtain ⟨chunks, last, shape, plain, final⟩ := answer
  cases chunks with
  | nil =>
      left
      cases last with
      | none => cases shape
      | some ending =>
          obtain ⟨same, rfl⟩ := List.cons.inj shape
          rw [same]
          exact ⟨rfl, final ending rfl⟩
  | cons data later =>
      right
      obtain ⟨same, rfl⟩ := List.cons.inj shape
      have streams : streaming = true := by
        cases streaming with
        | false => cases plain rfl
        | true => rfl
      refine ⟨streams, ⟨data, same⟩, later, last, rfl, ?_, final⟩
      intro unlike
      rw [streams] at unlike
      cases unlike

theorem Answer.left {streaming : Bool} {first second : List Response}
    (answer : Answer streaming (first ++ second)) : Answer streaming first := by
  induction first with
  | nil => exact .nil streaming
  | cons response rest ih =>
      obtain ⟨done, final⟩ | ⟨streams, ⟨data, same⟩, later⟩ := Answer.cons answer
      · rw [(List.append_eq_nil_iff.mp done).1]
        exact ⟨[], some response, rfl, fun _ => rfl, fun _ member => Option.some.inj member ▸ final⟩
      · obtain ⟨chunks, last, shape, -, ending⟩ := ih later
        refine ⟨data :: chunks, last, ?_, ?_, ending⟩
        · rw [same, shape]
          rfl
        · intro unlike
          rw [streams] at unlike
          cases unlike

def Framed (codec : Codec Response) (frames : List (Response × Bytes)) : Prop :=
  ∀ frame ∈ frames, writeFrame codec MAX_FRAME_SIZE frame.1 = .ok frame.2

theorem sendFrames_framed (codec : Codec Response) (data : List Bytes) :
    Framed codec (sendFrames codec data).1 ∧
      ∃ chunks : List Bytes, (sendFrames codec data).1.map Prod.fst = chunks.map Response.data := by
  induction data with
  | nil => exact ⟨fun _ member => absurd member List.not_mem_nil, [], rfl⟩
  | cons first rest ih =>
      obtain ⟨framed, chunks, shape⟩ := ih
      unfold sendFrames
      split
      · exact ⟨fun _ member => absurd member List.not_mem_nil, [], rfl⟩
      · rename_i bytes written
        refine ⟨?_, first :: chunks, ?_⟩
        · intro frame member
          rcases List.mem_cons.mp member with rfl | later
          · exact written
          · exact framed frame later
        · simp only [List.map_cons, shape]

theorem finishResponse_answer (codec : Codec Response) {streaming : Bool}
    {frames : List (Response × Bytes)} (chunks : List Bytes) (result : Except RemoteError Output)
    (framed : Framed codec frames) (shape : frames.map Prod.fst = chunks.map Response.data)
    (plain : streaming = false → chunks = [])
    (final : streaming = true → ∀ output, result = .ok output → ∃ found, output = .searchDone found) :
    Framed codec (finishResponse codec frames result).1 ∧
      Answer streaming ((finishResponse codec frames result).1.map Prod.fst) := by
  unfold finishResponse
  dsimp only
  split
  · refine ⟨framed, chunks, none, ?_, plain, fun _ member => by cases member⟩
    rw [shape]
    exact (List.append_nil _).symm
  · rename_i bytes written
    constructor
    · intro frame member
      rcases List.mem_append.mp member with earlier | last
      · exact framed frame earlier
      · rw [List.mem_singleton.mp last]
        exact written
    · refine ⟨chunks, some { version := VERSION, result := result }, ?_, plain, ?_⟩
      · rw [List.map_append, shape]
        rfl
      · intro response member
        rw [← Option.some.inj member]
        exact ⟨rfl, final⟩

/-- What the daemon sends for a request is an answer to its operation. -/
theorem serveRequest_answer (codec : Codec Response) (request : Request) (handling : Handling)
    (version : request.version = VERSION) :
    Framed codec (serveRequest codec request handling).1 ∧
      Answer request.operation.streaming ((serveRequest codec request handling).1.map Prod.fst) := by
  have nothing : Framed codec [] := fun _ member => absurd member List.not_mem_nil
  unfold serveRequest
  split
  · rename_i streams
    obtain ⟨framed, chunks, shape⟩ := sendFrames_framed codec
      (streamFrames handling.sends (match handling.streamed with
        | .ok _ => true
        | .error _ => false))
    have plain : request.operation.streaming = false → chunks = [] := by
      intro unlike
      rw [streams.2] at unlike
      cases unlike
    dsimp only
    split
    · refine finishResponse_answer codec chunks _ framed shape plain ?_
      intro _ output failed
      cases failed
    · refine finishResponse_answer codec chunks _ framed shape plain ?_
      intro _ output done
      cases streamed : handling.streamed with
      | error error =>
          rw [streamed] at done
          cases done
      | ok found =>
          rw [streamed] at done
          cases done
          exact ⟨found, rfl⟩
  · rename_i other
    have plain : request.operation.streaming = false := by
      rw [← Bool.not_eq_true]
      exact fun streams => other ⟨version, streams⟩
    refine finishResponse_answer codec [] _ nothing rfl (fun _ => rfl) ?_
    intro unlike
    rw [plain] at unlike
    cases unlike

end PostgreOS.Protocol
