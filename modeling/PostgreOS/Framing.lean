/-
Values and output on the socket.

Every value of the protocol goes through `write_frame` and `read_frame`. The output of a
streaming operation is first collected in a buffer, which is sent each time it is full.
-/

import PostgreOS.Serving

namespace PostgreOS.Protocol

open Library.Frames

section Values

variable {α : Type} {codec : Codec α}

theorem writeFrame_isOk_iff_length {value : α} {payload : List UInt8}
    (encoded : codec.encode value = some payload) :
    (writeFrame codec MAX_FRAME_SIZE value).isOk = true ↔ payload.length ≤ MAX_FRAME_SIZE := by
  have narrow : MAX_FRAME_SIZE < 2 ^ 32 := by decide
  unfold writeFrame
  rw [encoded]
  dsimp only
  by_cases long : MAX_FRAME_SIZE < payload.length
  · rw [if_pos long]
    exact iff_of_false Bool.false_ne_true (Nat.not_le.mpr long)
  · rw [if_neg long, if_neg (by omega)]
    exact iff_of_true rfl (Nat.not_lt.mp long)

def sendable (codec : Codec α) (values : List α) : List α :=
  values.filter fun value => (codec.encode value).all fun payload =>
    payload.length ≤ 64 * 1024 * 1024

/-- Values that are all written are read back from the stream to its last byte. A value is
refused exactly when its encoding is longer than 64 MiB, and then nothing is written, so that the
frames before and after it are read back; and no value is read from a frame with bytes left over. -/
theorem frames_round_trip {values : List α}
    (encodes : ∀ value ∈ values, ∃ payload, codec.encode value = some payload) :
    ((∀ outcome ∈ (writeFrames codec MAX_FRAME_SIZE [] values).2, outcome = .ok ()) →
      readFrames codec MAX_FRAME_SIZE values.length (writeFrames codec MAX_FRAME_SIZE [] values).1 =
        some (values, [])) ∧
    (∀ value ∈ values, ∀ payload, codec.encode value = some payload → ∀ stream,
      ((∃ error, (writeFrameTo codec MAX_FRAME_SIZE stream value).2 = .error error) ↔
        64 * 1024 * 1024 < payload.length) ∧
      (64 * 1024 * 1024 < payload.length →
        (writeFrameTo codec MAX_FRAME_SIZE stream value).1 = stream)) ∧
    readFrames codec MAX_FRAME_SIZE (sendable codec values).length
        (writeFrames codec MAX_FRAME_SIZE [] values).1 = some (sendable codec values, []) ∧
    ∀ header payload rest : List UInt8, header.length = 4 → ofBigEndian header = payload.length →
      ∀ value used, codec.decode payload = some (value, used) → used ≠ payload.length →
        ∀ other left, readFrame codec MAX_FRAME_SIZE (header ++ payload ++ rest) ≠ .value other left := by
  have narrow : MAX_FRAME_SIZE < 2 ^ 32 := by decide
  have readBack := readFrames_written codec MAX_FRAME_SIZE values []
  rw [List.append_nil] at readBack
  rw [writeFrames_fst, List.nil_append]
  refine ⟨?_, ?_, ?_, ?_⟩
  · intro done
    rw [writeFrames_snd] at done
    have all : values.filter (fun value => (writeFrame codec MAX_FRAME_SIZE value).isOk) = values := by
      rw [List.filter_eq_self]
      intro value member
      have ok := done _ (List.mem_map_of_mem member)
      cases written : writeFrame codec MAX_FRAME_SIZE value with
      | ok bytes => rfl
      | error error =>
          rw [written] at ok
          cases ok
    rwa [all] at readBack
  · intro value _ payload encoded stream
    have refused := writeFrameTo_error_iff narrow encoded stream
    refine ⟨refused, fun long => ?_⟩
    obtain ⟨error, failed⟩ := refused.mpr long
    exact writeFrameTo_of_error failed
  · have same : values.filter (fun value => (writeFrame codec MAX_FRAME_SIZE value).isOk) =
        sendable codec values := by
      apply List.filter_congr
      intro value member
      obtain ⟨payload, encoded⟩ := encodes value member
      rw [Bool.eq_iff_iff, writeFrame_isOk_iff_length encoded, encoded]
      exact decide_eq_true_iff.symm
    rwa [same] at readBack
  · intro header payload rest size length value used decoded partly other left read
    obtain ⟨first, body, whole, four, counted, all⟩ := payload_of_readFrame read
    rw [List.append_assoc, List.append_assoc] at whole
    obtain ⟨rfl, tails⟩ := List.append_inj whole (size.trans four.symm)
    obtain ⟨rfl, -⟩ := List.append_inj tails (length.symm.trans counted)
    rw [decoded] at all
    exact partly (Prod.mk.inj (Option.some.inj all)).2

end Values

/-- The codec of a request to read `/f` in the volume `v`, as `bincode` lays it out. -/
def readRequestCodec : Codec Request :=
  .single (.new ['v'] (.read ['/', 'f'])) [13, 1, 118, 8, 2, 47, 102]

theorem frames_round_trip_of_read :
    readFrames readRequestCodec MAX_FRAME_SIZE 2
        (writeFrames readRequestCodec MAX_FRAME_SIZE []
          [.new ['v'] (.read ['/', 'f']), .new ['v'] (.read ['/', 'f'])]).1 =
      some ([.new ['v'] (.read ['/', 'f']), .new ['v'] (.read ['/', 'f'])], []) := by
  have encodes : ∀ value ∈ [Request.new ['v'] (.read ['/', 'f']), .new ['v'] (.read ['/', 'f'])],
      ∃ payload, readRequestCodec.encode value = some payload := by
    intro value member
    have same : value = .new ['v'] (.read ['/', 'f']) := by
      rcases List.mem_cons.mp member with here | later
      · exact here
      · exact List.mem_singleton.mp later
    rw [same]
    exact ⟨[13, 1, 118, 8, 2, 47, 102], by decide⟩
  exact (frames_round_trip encodes).1 (by decide +kernel)

/-! ### The response buffer -/

/-- What is filled into a buffer with room stays below a frame unless it makes a whole one. -/
theorem ResponseBuffer.filled_notFull (buffer : ResponseBuffer) (data : Bytes)
    (partly : (buffer.data ++ data.take
      (min (STREAM_FRAME_BYTES - buffer.data.length) data.length)).length ≠ STREAM_FRAME_BYTES) :
    (buffer.data ++ data.take (min (STREAM_FRAME_BYTES - buffer.data.length) data.length)).length <
      STREAM_FRAME_BYTES := by
  have room := buffer.notFull
  rw [List.length_append, List.length_take] at partly ⊢
  omega

/-- One round of the loop of `ResponseBuffer::write` on data that is left: the frame that is
flushed, the buffer and the data that is left afterwards. -/
def ResponseBuffer.round (buffer : ResponseBuffer) (data : Bytes) :
    Option Bytes × ResponseBuffer × Bytes :=
  let length := min (STREAM_FRAME_BYTES - buffer.data.length) data.length
  let filled := buffer.data ++ data.take length
  if full : filled.length = STREAM_FRAME_BYTES then
    (some filled, ResponseBuffer.new, data.drop length)
  else
    (none, ⟨filled, buffer.filled_notFull data full⟩, data.drop length)

/-- The rounds of the loop until no data is left, with the flushed frames and the last buffer. -/
inductive ResponseBuffer.Loop : ResponseBuffer → Bytes → Nat → List Bytes → ResponseBuffer → Prop
  | done (buffer : ResponseBuffer) : Loop buffer [] 0 [] buffer
  | round {buffer last : ResponseBuffer} {data : Bytes} {rounds : Nat} {later : List Bytes}
      (nonempty : data ≠ [])
      (looped : Loop (buffer.round data).2.1 (buffer.round data).2.2 rounds later last) :
      Loop buffer data (rounds + 1) ((buffer.round data).1.toList ++ later) last

theorem ResponseBuffer.write_round (buffer : ResponseBuffer) {data : Bytes} (nonempty : data ≠ []) :
    buffer.write data =
      ((buffer.round data).1.toList ++ ((buffer.round data).2.1.write (buffer.round data).2.2).1,
        ((buffer.round data).2.1.write (buffer.round data).2.2).2) := by
  rw [ResponseBuffer.write, dif_neg nonempty]
  unfold ResponseBuffer.round
  dsimp only
  split <;> rfl

/-- The buffer has room at the head of the loop, so that a round uses some of the data. -/
theorem ResponseBuffer.round_shorter (buffer : ResponseBuffer) {data : Bytes}
    (nonempty : data ≠ []) : (buffer.round data).2.2.length < data.length := by
  have room := buffer.notFull
  have positive := List.length_pos_iff.mpr nonempty
  have rest : (buffer.round data).2.2 =
      data.drop (min (STREAM_FRAME_BYTES - buffer.data.length) data.length) := by
    unfold ResponseBuffer.round
    dsimp only
    split <;> rfl
  rw [rest, List.length_drop]
  omega

theorem ResponseBuffer.write_loop (buffer : ResponseBuffer) (data : Bytes) :
    ∃ rounds ≤ data.length,
      Loop buffer data rounds (buffer.write data).1 (buffer.write data).2 := by
  induction size : data.length using Nat.strong_induction_on generalizing buffer data with
  | _ size ih =>
      subst size
      by_cases empty : data = []
      · subst empty
        refine ⟨0, Nat.le_refl 0, ?_⟩
        rw [ResponseBuffer.write, dif_pos rfl]
        exact .done buffer
      · have shorter := buffer.round_shorter empty
        obtain ⟨rounds, few, looped⟩ := ih _ shorter _ _ rfl
        refine ⟨rounds + 1, by omega, ?_⟩
        rw [buffer.write_round empty]
        exact .round empty looped

theorem writes_full (sends : List Bytes) (sent : List Bytes × ResponseBuffer)
    (full : ∀ frame ∈ sent.1, frame.length = STREAM_FRAME_BYTES) :
    ∀ frame ∈ (sends.foldl (fun (state : List Bytes × ResponseBuffer) data =>
      let flushed := state.2.write data
      (state.1 ++ flushed.1, flushed.2)) sent).1, frame.length = STREAM_FRAME_BYTES := by
  induction sends generalizing sent with
  | nil => exact full
  | cons data rest ih =>
      apply ih
      intro frame member
      rcases List.mem_append.mp member with earlier | flushed
      · exact full frame earlier
      · exact write_length _ _ frame flushed

/-- What is written and flushed is what the frames carry. No frame is empty, all but the last
have 256 KiB, and every write ends. -/
theorem responseBuffer_frames (slices : List Bytes) :
    (streamFrames slices true).flatten = slices.flatten ∧
    (∀ frame ∈ streamFrames slices true, frame ≠ [] ∧ frame.length ≤ 262144) ∧
    (∀ frame ∈ (streamFrames slices true).dropLast, frame.length = 262144) ∧
    ∀ (buffer : ResponseBuffer) (data : Bytes), ∃ rounds ≤ data.length,
      buffer.Loop data rounds (buffer.write data).1 (buffer.write data).2 := by
  have full := writes_full slices ([], ResponseBuffer.new) (fun _ member => by cases member)
  obtain ⟨whole, -⟩ := writes_spec slices ([], ResponseBuffer.new) (fun _ member => by cases member)
  have start : ResponseBuffer.new.data = [] := rfl
  rw [start, List.flatten_nil, List.nil_append, List.nil_append] at whole
  have size : STREAM_FRAME_BYTES = 262144 := by decide
  rw [size] at full
  have some {frame : Bytes} (long : frame.length = 262144) : frame ≠ [] := by
    rintro rfl
    cases long
  refine ⟨?_, ?_, ?_, ResponseBuffer.write_loop⟩
  · unfold streamFrames
    dsimp only
    split
    · rw [List.flatten_append, List.flatten_singleton, whole]
    · rename_i flushed
      rw [not_and_not_right] at flushed
      rw [flushed rfl, List.append_nil] at whole
      exact whole
  · intro frame member
    unfold streamFrames at member
    dsimp only at member
    split at member
    · rename_i left
      rcases List.mem_append.mp member with earlier | last
      · exact ⟨some (full frame earlier), (full frame earlier).le⟩
      · rw [List.mem_singleton.mp last, ← size]
        exact ⟨left.2, (ResponseBuffer.notFull _).le⟩
    · exact ⟨some (full frame member), (full frame member).le⟩
  · intro frame member
    unfold streamFrames at member
    dsimp only at member
    split at member
    · rw [List.dropLast_concat] at member
      exact full frame member
    · exact full frame (List.dropLast_subset _ member)

end PostgreOS.Protocol
