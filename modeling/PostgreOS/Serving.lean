/-
The requests of one connection.

The daemon answers the requests one after another. A data frame that cannot be written
ends a stream with an error, and the loop goes on; when the result itself does not fit
into a frame the loop ends, and nothing is sent for this request or a later one.
-/

import PostgreOS.Daemon

namespace PostgreOS.Protocol

open Library.Frames

/-- `serve_connection` on the requests that it reads in turn: the frames for each, and
whether it reads on. -/
def serveConnection (codec : Codec Response) :
    List (Request × Handling) → List (List (Response × Bytes)) × Bool
  | [] => ([], true)
  | (request, handling) :: rest =>
      let round := serveRequest codec request handling
      if round.2 = true then
        let later := serveConnection codec rest
        (round.1 :: later.1, later.2)
      else ([round.1], false)

theorem serveConnection_cons (codec : Codec Response) (request : Request) (handling : Handling)
    (rest : List (Request × Handling)) :
    serveConnection codec ((request, handling) :: rest) =
      if (serveRequest codec request handling).2 = true then
        ((serveRequest codec request handling).1 :: (serveConnection codec rest).1,
          (serveConnection codec rest).2)
      else ([(serveRequest codec request handling).1], false) := rfl

/-- Data of the stream and then one response that ends the answer. -/
def CompleteAnswer (request : Request) (handling : Handling) (responses : List Response) : Prop :=
  ∃ (chunks : List Bytes) (last : Response),
    responses = chunks.map Response.data ++ [last] ∧
      (request.operation.streaming = false → chunks = []) ∧
      chunks.flatten <+: handling.sends.flatten ∧ FinalResponse request.operation.streaming last

/-- Every request of the connection gets its answer, and the daemon is ready for the next. -/
def AllAnswered (codec : Codec Response) (rounds : List (Request × Handling)) : Prop :=
  List.Forall₂ (fun round frames => CompleteAnswer round.1 round.2 (frames.map Prod.fst)) rounds
    (serveConnection codec rounds).1 ∧ (serveConnection codec rounds).2 = true

/-- What is to be sent last for a request. -/
def Handling.result (handling : Handling) (request : Request) : Except RemoteError Output :=
  if request.version = VERSION ∧ request.operation.streaming = true then
    handling.streamed.map Output.searchDone
  else if request.version = VERSION then handling.plain
  else .error (unsupportedVersion request.version)

/-- The result is encoded in no more bytes than a frame may have. -/
def ResultFits (codec : Codec Response) (request : Request) (handling : Handling) : Prop :=
  ∃ payload, codec.encode { version := VERSION, result := handling.result request } =
    some payload ∧ payload.length ≤ MAX_FRAME_SIZE

/-- `bincode` writes at most 16 bytes in front of the data of a response. -/
def ChunksFit (codec : Codec Response) : Prop :=
  ∀ data : Bytes, data.length ≤ STREAM_FRAME_BYTES →
    ∃ payload, codec.encode (Response.data data) = some payload ∧ payload.length ≤ data.length + 16

/-! ### The frames of a stream -/

theorem write_flatten (buffer : ResponseBuffer) (data : Bytes) :
    (buffer.write data).1.flatten ++ (buffer.write data).2.data = buffer.data ++ data := by
  induction buffer, data using ResponseBuffer.write.induct with
  | case1 buffer =>
      unfold ResponseBuffer.write
      simp
  | case2 buffer data nonempty length filled full ih =>
      unfold ResponseBuffer.write
      rw [dif_neg nonempty]
      dsimp only
      rw [dif_pos full, List.flatten_cons, List.append_assoc, ih]
      change (buffer.data ++ data.take length) ++ ([] ++ data.drop length) = _
      rw [List.nil_append, List.append_assoc, List.take_append_drop]
  | case3 buffer data nonempty length filled notFull ih =>
      unfold ResponseBuffer.write
      rw [dif_neg nonempty]
      dsimp only
      rw [dif_neg notFull, ih]
      change (buffer.data ++ data.take length) ++ data.drop length = _
      rw [List.append_assoc, List.take_append_drop]

theorem write_length (buffer : ResponseBuffer) (data : Bytes) :
    ∀ frame ∈ (buffer.write data).1, frame.length = STREAM_FRAME_BYTES := by
  induction buffer, data using ResponseBuffer.write.induct with
  | case1 buffer =>
      unfold ResponseBuffer.write
      simp
  | case2 buffer data nonempty length filled full ih =>
      unfold ResponseBuffer.write
      rw [dif_neg nonempty]
      dsimp only
      rw [dif_pos full, List.forall_mem_cons]
      exact ⟨full, ih⟩
  | case3 buffer data nonempty length filled notFull ih =>
      unfold ResponseBuffer.write
      rw [dif_neg nonempty]
      dsimp only
      rw [dif_neg notFull]
      exact ih

theorem writes_spec (sends : List Bytes) (sent : List Bytes × ResponseBuffer)
    (short : ∀ frame ∈ sent.1, frame.length ≤ STREAM_FRAME_BYTES) :
    let last := sends.foldl (fun (state : List Bytes × ResponseBuffer) data =>
      let flushed := state.2.write data
      (state.1 ++ flushed.1, flushed.2)) sent
    last.1.flatten ++ last.2.data = sent.1.flatten ++ sent.2.data ++ sends.flatten ∧
      ∀ frame ∈ last.1, frame.length ≤ STREAM_FRAME_BYTES := by
  induction sends generalizing sent with
  | nil => exact ⟨by simp, short⟩
  | cons data rest ih =>
      have next : ∀ frame ∈ sent.1 ++ (sent.2.write data).1, frame.length ≤ STREAM_FRAME_BYTES := by
        intro frame member
        rcases List.mem_append.mp member with earlier | flushed
        · exact short frame earlier
        · exact (write_length _ _ frame flushed).le
      obtain ⟨whole, bounded⟩ := ih (sent.1 ++ (sent.2.write data).1, (sent.2.write data).2) next
      refine ⟨?_, bounded⟩
      rw [List.foldl_cons, whole]
      dsimp only
      rw [List.flatten_append, List.append_assoc sent.1.flatten, write_flatten, List.flatten_cons]
      simp only [List.append_assoc]

theorem streamFrames_spec (sends : List Bytes) (completed : Bool) :
    (streamFrames sends completed).flatten <+: sends.flatten ∧
      ∀ frame ∈ streamFrames sends completed, frame.length ≤ STREAM_FRAME_BYTES := by
  obtain ⟨whole, bounded⟩ := writes_spec sends ([], ResponseBuffer.new) (by simp)
  have start : ResponseBuffer.new.data = [] := rfl
  rw [start, List.flatten_nil, List.nil_append, List.nil_append] at whole
  unfold streamFrames
  dsimp only
  split
  · constructor
    · rw [List.flatten_append, List.flatten_singleton, whole]
    · intro frame member
      rcases List.mem_append.mp member with flushed | last
      · exact bounded frame flushed
      · rw [List.mem_singleton.mp last]
        exact (ResponseBuffer.notFull _).le
  · exact ⟨⟨_, whole⟩, bounded⟩

section Rounds

variable {codec : Codec Response}

theorem writeFrame_isOk_iff {response : Response} :
    (∃ bytes, writeFrame codec MAX_FRAME_SIZE response = .ok bytes) ↔
      ∃ payload, codec.encode response = some payload ∧ payload.length ≤ MAX_FRAME_SIZE := by
  constructor
  · rintro ⟨bytes, written⟩
    obtain ⟨payload, encoded, fits, -, -⟩ := writeFrame_ok written
    exact ⟨payload, encoded, fits⟩
  · rintro ⟨payload, encoded, fits⟩
    have narrow : payload.length < 2 ^ 32 := by
      have limit : MAX_FRAME_SIZE < 2 ^ 32 := by decide
      omega
    unfold writeFrame
    rw [encoded]
    dsimp only
    rw [if_neg (by omega), if_neg (by omega)]
    exact ⟨_, rfl⟩

theorem sendFrames_all (chunksFit : ChunksFit codec) (chunks : List Bytes)
    (short : ∀ chunk ∈ chunks, chunk.length ≤ STREAM_FRAME_BYTES) :
    (sendFrames codec chunks).1.map Prod.fst = chunks.map Response.data ∧
      (sendFrames codec chunks).2 = none := by
  induction chunks with
  | nil => exact ⟨rfl, rfl⟩
  | cons chunk rest ih =>
      rw [List.forall_mem_cons] at short
      obtain ⟨payload, encoded, length⟩ := chunksFit chunk short.1
      have room : STREAM_FRAME_BYTES + 16 ≤ MAX_FRAME_SIZE := by decide
      obtain ⟨bytes, written⟩ := writeFrame_isOk_iff.mpr ⟨payload, encoded, by omega⟩
      obtain ⟨responses, noError⟩ := ih short.2
      unfold sendFrames
      rw [written]
      exact ⟨by rw [List.map_cons, List.map_cons, responses], noError⟩

theorem finishResponse_cases (frames : List (Response × Bytes)) (result : Except RemoteError Output) :
    (∃ bytes, finishResponse codec frames result =
        (frames ++ [({ version := VERSION, result := result }, bytes)], true)) ∨
      finishResponse codec frames result = (frames, false) ∧
        ¬ ∃ payload, codec.encode { version := VERSION, result := result } = some payload ∧
          payload.length ≤ MAX_FRAME_SIZE := by
  rw [← writeFrame_isOk_iff]
  unfold finishResponse
  dsimp only
  cases written : writeFrame codec MAX_FRAME_SIZE { version := VERSION, result := result } with
  | error error =>
      right
      refine ⟨rfl, ?_⟩
      rintro ⟨bytes, impossible⟩
      cases impossible
  | ok bytes => exact Or.inl ⟨bytes, rfl⟩

/-- The data frames of a request, before its last response. -/
theorem serveRequest_eq (chunksFit : ChunksFit codec) (request : Request) (handling : Handling) :
    ∃ (chunks : List Bytes) (frames : List (Response × Bytes)),
      frames.map Prod.fst = chunks.map Response.data ∧
        (request.operation.streaming = false → chunks = []) ∧
        chunks.flatten <+: handling.sends.flatten ∧
        serveRequest codec request handling =
          finishResponse codec frames (handling.result request) := by
  unfold serveRequest Handling.result
  split
  · rename_i streams
    have plain (chunks : List Bytes) : request.operation.streaming = false → chunks = [] := by
      intro other
      rw [streams.2] at other
      cases other
    cases handling.streamed with
    | error error =>
        have spec := streamFrames_spec handling.sends false
        obtain ⟨responses, noError⟩ := sendFrames_all chunksFit _ spec.2
        refine ⟨_, _, responses, plain _, spec.1, ?_⟩
        dsimp only
        rw [noError]
    | ok found =>
        have spec := streamFrames_spec handling.sends true
        obtain ⟨responses, noError⟩ := sendFrames_all chunksFit _ spec.2
        refine ⟨_, _, responses, plain _, spec.1, ?_⟩
        dsimp only
        rw [noError]
  · have nothing : ([] : List Bytes).flatten <+: handling.sends.flatten := List.nil_prefix
    split
    · exact ⟨[], [], rfl, fun _ => rfl, nothing, rfl⟩
    · exact ⟨[], [], rfl, fun _ => rfl, nothing, rfl⟩

theorem finalResponse_result (request : Request) (handling : Handling) :
    FinalResponse request.operation.streaming
      { version := VERSION, result := handling.result request } := by
  refine ⟨rfl, ?_⟩
  intro streams output ended
  dsimp only at ended
  unfold Handling.result at ended
  split at ended
  · cases streamed : handling.streamed with
    | error error =>
        rw [streamed] at ended
        cases ended
    | ok found =>
        rw [streamed] at ended
        cases ended
        exact ⟨found, rfl⟩
  · rename_i other
    split at ended
    · rename_i version
      exact absurd ⟨version, streams⟩ other
    · cases ended

theorem serveRequest_of_fits (chunksFit : ChunksFit codec) {request : Request} {handling : Handling}
    (fits : ResultFits codec request handling) :
    CompleteAnswer request handling ((serveRequest codec request handling).1.map Prod.fst) ∧
      (serveRequest codec request handling).2 = true := by
  obtain ⟨chunks, frames, responses, plain, content, same⟩ :=
    serveRequest_eq chunksFit request handling
  rw [same]
  obtain ⟨bytes, finished⟩ | ⟨-, unfit⟩ := finishResponse_cases frames (handling.result request)
  · rw [finished]
    refine ⟨⟨chunks, _, ?_, plain, content, finalResponse_result request handling⟩, rfl⟩
    rw [List.map_append, responses]
    rfl
  · exact absurd fits unfit

theorem fits_of_serveRequest (chunksFit : ChunksFit codec) {request : Request} {handling : Handling}
    (goesOn : (serveRequest codec request handling).2 = true) :
    ResultFits codec request handling := by
  obtain ⟨chunks, frames, -, -, -, same⟩ := serveRequest_eq chunksFit request handling
  rw [same] at goesOn
  by_contra unfit
  obtain ⟨bytes, finished⟩ | ⟨stopped, -⟩ := finishResponse_cases frames (handling.result request)
  · refine unfit (writeFrame_isOk_iff.mp ?_)
    unfold finishResponse at finished
    dsimp only at finished
    split at finished
    · cases congrArg Prod.snd finished
    · rename_i written
      exact ⟨_, written⟩
  · rw [stopped] at goesOn
    cases goesOn

end Rounds

/-- Every request of a connection gets its answer exactly when every result fits into a
frame. -/
theorem serveConnection_answers_iff {codec : Codec Response} (chunksFit : ChunksFit codec)
    (rounds : List (Request × Handling)) :
    AllAnswered codec rounds ↔ ∀ round ∈ rounds, ResultFits codec round.1 round.2 := by
  induction rounds with
  | nil => exact iff_of_true ⟨.nil, rfl⟩ (by simp)
  | cons round rest ih =>
      obtain ⟨request, handling⟩ := round
      rw [List.forall_mem_cons, ← ih]
      unfold AllAnswered
      rw [serveConnection_cons]
      constructor
      · rintro ⟨answers, goesOn⟩
        split at answers
        · rename_i served
          rw [if_pos served] at goesOn
          exact ⟨fits_of_serveRequest chunksFit served, (List.forall₂_cons.mp answers).2, goesOn⟩
        · rename_i stopped
          rw [if_neg stopped] at goesOn
          cases goesOn
      · rintro ⟨fits, answers, goesOn⟩
        obtain ⟨complete, served⟩ := serveRequest_of_fits chunksFit fits
        rw [if_pos served]
        exact ⟨.cons complete answers, goesOn⟩

/-- The length of a vector as `bincode` writes it. -/
def lengthBytes (length : Nat) : Bytes :=
  if length < 251 then [UInt8.ofNat length]
  else if length < 2 ^ 16 then [251, UInt8.ofNat length, UInt8.ofNat (length / 2 ^ 8)]
  else if length < 2 ^ 32 then 252 :: (bigEndian length).reverse
  else 253 :: ((bigEndian length).reverse ++ (bigEndian (length / 2 ^ 32)).reverse)

/-- What follows the length of a vector. -/
def afterLength : Bytes → Bytes
  | [] => []
  | first :: rest =>
      if first < 251 then rest
      else if first = 251 then rest.drop 2
      else if first = 252 then rest.drop 4
      else rest.drop 8

theorem afterLength_lengthBytes (length : Nat) (data : Bytes) :
    afterLength (lengthBytes length ++ data) = data := by
  unfold lengthBytes
  split
  · rename_i short
    have small : UInt8.ofNat length < 251 := by
      rw [UInt8.lt_iff_toNat_lt, UInt8.toNat_ofNat']
      change length % 256 < 251
      omega
    change (if UInt8.ofNat length < 251 then data else _) = data
    rw [if_pos small]
  · split
    · rfl
    · split <;> rfl

/-- The responses of streams and of reads as `bincode` lays them out; the decoder does not
check the length of the data again. -/
def dataCodec : Codec Response where
  encode := fun response =>
    if response.version ≠ VERSION then none
    else
      match response.result with
      | .ok (.searchDone found) => some [13, 0, 0, if found then 1 else 0]
      | .ok (.data data) => some (13 :: 0 :: 7 :: (lengthBytes data.length ++ data))
      | _ => none
  decode := fun payload =>
    match payload with
    | [13, 0, 0, found] =>
        some ({ version := VERSION, result := .ok (.searchDone (found == 1)) }, payload.length)
    | 13 :: 0 :: 7 :: rest => some (Response.data (afterLength rest), payload.length)
    | _ => none
  decode_encode := by
    rintro ⟨version, result⟩ payload encoded
    dsimp only at encoded
    split at encoded
    · cases encoded
    · rename_i known
      obtain rfl := not_not.mp known
      split at encoded
      · rename_i found
        cases found <;> cases encoded <;> rfl
      · rename_i data
        obtain rfl := Option.some.inj encoded
        simp only [afterLength_lengthBytes]
        rfl
      · cases encoded

theorem chunksFit_dataCodec : ChunksFit dataCodec := by
  intro data _
  refine ⟨_, rfl, ?_⟩
  have prefixLength : (lengthBytes data.length).length ≤ 9 := by
    unfold lengthBytes
    split
    · exact (by decide : 1 ≤ 9)
    · split
      · exact (by decide : 3 ≤ 9)
      · split <;> simp [bigEndian]
  simp only [List.length_cons, List.length_append]
  omega

/-- The answer to `read("/f")`. -/
def readHandling (data : Bytes) : Handling :=
  { plain := .ok (.data data), sends := [], streamed := .ok false, failure := fun _ => [] }

/-- A search that prints a line, and then a read. -/
theorem serveConnection_answers_of_search :
    AllAnswered dataCodec
      [(.new ['v'] (.grepFile ['/', 'f'] ['h'] false),
          { plain := .ok .unit, sends := [[104, 105, 10]], streamed := .ok true
            failure := fun _ => [] }),
        (.new ['v'] (.read ['/', 'f']), readHandling [104, 105])] := by
  refine (serveConnection_answers_iff chunksFit_dataCodec _).mpr ?_
  intro round member
  rcases List.mem_cons.mp member with rfl | later
  · exact ⟨[13, 0, 0, 1], rfl, by decide⟩
  · obtain rfl := List.mem_singleton.mp later
    exact ⟨[13, 0, 7, 2, 104, 105], rfl, by decide⟩

theorem exists_length (length : Nat) : ∃ data : Bytes, data.length = length :=
  ⟨List.replicate length 0, List.length_replicate⟩

/-- The content of a file of one byte more than a frame has makes the daemon give up. -/
theorem serveConnection_stops :
    ¬ ∀ (codec : Codec Response) (rounds : List (Request × Handling)), ChunksFit codec →
      AllAnswered codec rounds := by
  intro every
  obtain ⟨data, content⟩ := exists_length (MAX_FRAME_SIZE + 1)
  obtain ⟨-, goesOn⟩ :=
    every dataCodec [(.new ['v'] (.read ['/', 'f']), readHandling data)] chunksFit_dataCodec
  have tooLarge : writeFrame dataCodec MAX_FRAME_SIZE
        { version := VERSION, result := .ok (.data data) } =
      .error (.tooLarge (13 :: 0 :: 7 :: (lengthBytes data.length ++ data)).length) := by
    unfold writeFrame
    have encoded : dataCodec.encode { version := VERSION, result := .ok (.data data) } =
        some (13 :: 0 :: 7 :: (lengthBytes data.length ++ data)) := rfl
    rw [encoded]
    dsimp only
    rw [if_pos]
    simp only [List.length_cons, List.length_append]
    omega
  have stopped : serveRequest dataCodec (.new ['v'] (.read ['/', 'f'])) (readHandling data) =
      ([], false) := by
    change finishResponse dataCodec [] (.ok (.data data)) = _
    unfold finishResponse
    dsimp only
    rw [tooLarge]
  rw [serveConnection_cons, stopped] at goesOn
  cases goesOn

end PostgreOS.Protocol
