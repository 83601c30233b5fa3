import PeripheralHost.Link.Scripted
import PeripheralHost.Proofs.Visits

/-!
# The result code is zero exactly on success

A caller who keeps the convention of one integer for every result has nothing else to
go by: zero must mean that he has his data, and every other code that he has none. Three
things have to agree for that. The four octets in front of a reply's body are read as a
number with a sign, whatever they are (`Frame.toInt_status`); data is dropped exactly when
that number is not zero (`Reply.decode_of_status`); and no error that arises on the host's
side has the code of success.

A call ends without a frame, because nothing was sent or no reply came in time, or with the
frame of a reply, out of which its answer is read (`Session.call_cases`). In the second case
the code is the number in front of the body, and the answer is the octets behind it if the
number is zero. A body that is too short for the number counts as time run out.

## Main results

* `Reply.decode_of_short`, `Reply.decode_of_status` — what is read out of a frame.
* `Reply.ofResult_decode_eq_zero_iff` — its code is zero exactly if there is data.
* `Session.call_cases` — what a call can answer.
* `Session.code_tells_success` — all of it, for every frame, every link and every call.
-/

namespace PeripheralHost

/-! ## Numbers with a sign -/

/-- The number with a sign that is written in two's complement, most significant octet
first. -/
def Bytes.twosComplement (octets : Bytes) : Int :=
  if 2 * ofBigEndian octets < 256 ^ octets.length then ofBigEndian octets
  else ofBigEndian octets - 256 ^ octets.length

namespace Frame

variable {frame : Frame} {head rest : Bytes}

theorem status_of_short (h : frame.body.length < statusSize) : frame.status = none := if_pos h

/-- The status has the sign that its octets say. -/
theorem toInt_status (hbody : frame.body = head ++ rest) (hhead : head.length = statusSize) :
    ∃ status, frame.status = some status ∧ status.toInt = head.twosComplement := by
  have hlong : ¬ frame.body.length < statusSize := by
    rw [hbody, List.length_append]
    omega
  refine ⟨(UInt32.ofNat (Bytes.ofBigEndian head)).toInt32, ?_, ?_⟩
  · rw [status, if_neg hlong, hbody, List.take_left' hhead]
  · have hbound : Bytes.ofBigEndian head < 2 ^ 32 := by
      have := Bytes.ofBigEndian_lt head
      rwa [hhead] at this
    have hnat : (BitVec.ofNat 32 (Bytes.ofBigEndian head)).toNat = Bytes.ofBigEndian head :=
      Nat.mod_eq_of_lt hbound
    show (BitVec.ofNat 32 (Bytes.ofBigEndian head)).toInt = _
    rw [BitVec.toInt_eq_toNat_cond, hnat, Bytes.twosComplement, hhead]
    rfl

theorem resultData_of_status (hbody : frame.body = head ++ rest)
    (hhead : head.length = statusSize) : frame.resultData = rest := by
  rw [resultData, hbody, List.drop_left' hhead]

end Frame

/-! ## Reading a frame -/

namespace Reply

variable {frame : Frame} {head rest : Bytes}

/-- What a caller gets out of a frame: the result data, or the status as an error. -/
def decode (frame : Frame) : Except SessionError Bytes := (ofFrame frame).bind result

theorem decode_of_short (h : frame.body.length < Frame.statusSize) :
    decode frame = .error (.malformedReply frame.command frame.body.length) := by
  rw [decode, ofFrame, Frame.status_of_short h]
  rfl

/-- Data is dropped exactly when the status is not zero, and the status passes through. -/
theorem decode_of_status (hbody : frame.body = head ++ rest)
    (hhead : head.length = Frame.statusSize) :
    ∃ status : Int32, status.toInt = head.twosComplement ∧
      decode frame = if status = 0 then .ok rest else .error (.refused frame.command status) := by
  obtain ⟨status, hstatus, hint⟩ := Frame.toInt_status hbody hhead
  refine ⟨status, hint, ?_⟩
  rw [decode, ofFrame, hstatus]
  by_cases hzero : status = 0
  · simp [hzero, Except.bind, result, isOk, Frame.resultData_of_status hbody hhead]
  · simp [hzero, Except.bind, result, isOk]

/-- A frame is too short for a status, or begins with one. -/
theorem short_or_status (frame : Frame) :
    frame.body.length < Frame.statusSize ∨
      ∃ head rest, frame.body = head ++ rest ∧ head.length = Frame.statusSize := by
  by_cases hshort : frame.body.length < Frame.statusSize
  · exact .inl hshort
  · refine .inr ⟨_, _, (List.take_append_drop Frame.statusSize frame.body).symm, ?_⟩
    rw [List.length_take]
    omega

theorem ofResult_decode_eq_zero_iff (frame : Frame) :
    ResultCode.ofResult (decode frame) = 0 ↔ ∃ data, decode frame = .ok data := by
  rcases short_or_status frame with hshort | ⟨head, rest, hbody, hhead⟩
  · rw [decode_of_short hshort]
    simp [ResultCode.ofResult, SessionError.code, ResultCode.timeout]
  · obtain ⟨status, -, hdecode⟩ := decode_of_status hbody hhead
    rw [hdecode]
    by_cases hzero : status = 0
    · simp [hzero, ResultCode.ofResult, ResultCode.ok]
    · simp [hzero, ResultCode.ofResult]

end Reply

/-! ## Calls -/

namespace Session

variable {σ : Type} [Link σ]

/-- A wait ends with the frame of a reply, or in vain. -/
theorem awaitReply_cases (command : UInt8) (start budget : Duration) (rounds : List (Round σ))
    (session : Session σ) :
    let answer := (session.awaitReply command start budget rounds).answer
    answer = .error (.noReply command budget) ∨
      ∃ frame : Frame, frame.answers command = true ∧ answer = Reply.ofFrame frame := by
  intro answer
  fun_induction awaitReply command start budget rounds session with
  | case1 rounds session skipped found next hlook =>
      exact .inr ⟨found, answers_of_look (by rw [hlook]), rfl⟩
  | case2 | case3 => exact .inl rfl
  | case4 session skipped next hlook round later hreading progress others hmoved rest ih =>
      exact ih

/-- A request that is not sent fails because the session was told to stop, or as a frame. -/
theorem fault_of_unsent {command : UInt8} {params : Bytes} {session next : Session σ}
    {fault : SessionError} (h : session.sendRequest command params = (.error fault, next)) :
    fault = .closed ∨ ∃ cause, fault = .frame cause := by
  unfold sendRequest transmit at h
  split at h
  · obtain ⟨hfault, -⟩ := Prod.mk.inj h
    exact .inl (Except.error.inj hfault).symm
  · unfold transmitNow at h
    split at h
    · simp at h
    · obtain ⟨hfault, -⟩ := Prod.mk.inj h
      exact .inr ⟨_, (Except.error.inj hfault).symm⟩

/-- A call ends without a frame, or answers what is read out of the frame of a reply. -/
theorem call_cases (command : UInt8) (params : Bytes) (sent : List (Move σ))
    (start budget : Duration) (rounds : List (Round σ)) (session : Session σ) :
    let answer := (session.call command params sent start budget rounds).answer
    (∃ fault : SessionError, answer = .error fault ∧
        (fault = .closed ∨ (∃ cause, fault = .frame cause) ∨ fault = .noReply command budget)) ∨
      ∃ frame : Frame, frame.answers command = true ∧ answer = Reply.decode frame := by
  intro answer
  have hanswer : answer =
      (session.request command params sent start budget rounds).answer.bind Reply.result := rfl
  rcases hsend : session.sendRequest command params with ⟨fault | _, next⟩
  · rw [request_of_unsent sent start budget rounds hsend] at hanswer
    refine .inl ⟨fault, hanswer, ?_⟩
    rcases fault_of_unsent hsend with hclosed | hframe
    · exact .inl hclosed
    · exact .inr (.inl hframe)
  · have hwait : (session.request command params sent start budget rounds).answer =
        ((next.moveAll sent).2.awaitReply command start budget rounds).answer := by
      rw [request, hsend]
    rw [hwait] at hanswer
    rcases (next.moveAll sent).2.awaitReply_cases command start budget rounds with
      hlate | ⟨frame, hframe, hreply⟩
    · rw [hlate] at hanswer
      exact .inl ⟨_, hanswer, .inr (.inr rfl)⟩
    · rw [hreply] at hanswer
      exact .inr ⟨frame, hframe, hanswer⟩

theorem ofResult_call_eq_zero_iff (command : UInt8) (params : Bytes) (sent : List (Move σ))
    (start budget : Duration) (rounds : List (Round σ)) (session : Session σ) :
    let answer := (session.call command params sent start budget rounds).answer
    ResultCode.ofResult answer = 0 ↔ ∃ data, answer = .ok data := by
  intro answer
  rcases session.call_cases command params sent start budget rounds with
    ⟨fault, hanswer, hfault⟩ | ⟨frame, -, hanswer⟩
  · have hcode : fault.code ≠ 0 := by
      apply SessionError.code_ne_zero
      rcases hfault with rfl | ⟨cause, rfl⟩ | rfl <;> simp [SessionError.status]
    rw [show answer = _ from hanswer]
    simp [ResultCode.ofResult, hcode]
  · rw [show answer = _ from hanswer]
    exact Reply.ofResult_decode_eq_zero_iff frame

/-- **The result code is zero exactly on success.**

* What is read out of a frame is decided by its body. A body of fewer than four octets makes a
  malformed reply, by command and length, and its code is that of time run out. In front of any
  other body stands a number with a sign, in two's complement. The code is that number. If it
  is zero the answer is the octets behind it, and otherwise it is the refusal of the command
  with that number.
* A call of any session over any link, whatever others do meanwhile, answers what is read so
  out of a reply to its command, unless the session was closed, the request could not be sent,
  or no reply came in time. In every case the code of the answer is zero exactly if the answer
  is data.
* What a reply is made of is read back from it, but for the data if the status is not zero. -/
theorem code_tells_success (command : UInt8) (params : Bytes) (sent : List (Move σ))
    (start budget : Duration) (rounds : List (Round σ)) (session : Session σ) :
    let answer := (session.call command params sent start budget rounds).answer
    (∀ frame : Frame,
      let decoded := (Reply.ofFrame frame).bind Reply.result
      let code := ResultCode.ofResult decoded
      (frame.body.length < 4 →
        decoded = .error (.malformedReply frame.command frame.body.length) ∧
          code = ResultCode.timeout) ∧
      ∀ head rest : Bytes, frame.body = head ++ rest → head.length = 4 →
        code.toInt = head.twosComplement ∧
          decoded =
            if head.twosComplement = 0 then .ok rest
            else .error (.refused frame.command code)) ∧
    (((∃ fault : SessionError, answer = .error fault ∧
          (fault = .closed ∨ (∃ cause, fault = .frame cause) ∨ fault = .noReply command budget)) ∨
        ∃ frame : Frame, frame.answers command = true ∧
          answer = (Reply.ofFrame frame).bind Reply.result) ∧
      (ResultCode.ofResult answer = 0 ↔ ∃ data, answer = .ok data)) ∧
    ∀ (status : Int32) (data : Bytes), Reply.ofFrame (Frame.reply command status data) =
      .ok ⟨command, status, if status = 0 then data else []⟩ := by
  intro answer
  refine ⟨fun frame => ⟨fun hshort => ?_, fun head rest hbody hhead => ?_⟩,
    ⟨session.call_cases command params sent start budget rounds,
      session.ofResult_call_eq_zero_iff command params sent start budget rounds⟩,
    fun status data => Reply.ofFrame_reply command status data⟩
  · have hdecode := Reply.decode_of_short hshort
    rw [Reply.decode] at hdecode
    exact ⟨hdecode, by rw [hdecode]; rfl⟩
  · obtain ⟨status, hint, hdecode⟩ := Reply.decode_of_status hbody hhead
    have hzero : head.twosComplement = 0 ↔ status = 0 := by
      rw [← hint, ← Int32.toInt_inj]
      rfl
    rw [Reply.decode] at hdecode
    rw [hdecode]
    by_cases hstatus : status = 0
    · simp [hstatus, ResultCode.ofResult, ResultCode.ok, ← hint]
    · simp [hstatus, hzero, ResultCode.ofResult, hint]

/-- A controller answers with a negative status and two octets of data. The status is the
code, and the data is dropped; a reply of two octets is malformed. -/
theorem code_of_negative_status :
    let reply := Frame.reply 0x4D (-1203) [1, 2]
    let head : Bytes := [0xFF, 0xFF, 0xFB, 0x4D]
    let short : Frame := ⟨0x4D, Frame.replyMarker, [0, 0]⟩
    let session : Session Scripted :=
      ofLink { commandAnswers := [(0x4D, wrap (reply.header ++ reply.body))] } {}
    let answer := (session.call 0x4D [] [.receiver .zero, .receiver .zero] .zero (.ofMillis 5)
      []).answer
    reply.body = head ++ [1, 2] ∧ head.twosComplement = -1203 ∧
      (Reply.ofFrame reply).bind Reply.result = .error (.refused 0x4D (-1203)) ∧
      (Reply.ofFrame short).bind Reply.result = .error (.malformedReply 0x4D 2) ∧
      ResultCode.ofResult answer = -1203 ∧ ¬ ∃ data, answer = .ok data := by
  intro reply head short session answer
  have hbody : reply.body = head ++ [1, 2] := by decide +kernel
  have hvalue : head.twosComplement = -1203 := by decide +kernel
  have hcode : ResultCode.ofResult answer = -1203 := by decide +kernel
  obtain ⟨hread, ⟨-, hzero⟩, -⟩ := session.code_tells_success 0x4D []
    [.receiver .zero, .receiver .zero] .zero (.ofMillis 5) []
  obtain ⟨hint, hdecoded⟩ := (hread reply).2 head [1, 2] hbody rfl
  have hstatus : ResultCode.ofResult ((Reply.ofFrame reply).bind Reply.result) = -1203 := by
    rw [← Int32.toInt_inj, hint, hvalue]
    rfl
  rw [hstatus, hvalue, if_neg (by decide)] at hdecoded
  refine ⟨hbody, hvalue, hdecoded, ((hread short).1 (by decide)).1, hcode, ?_⟩
  rw [← hzero, show ResultCode.ofResult _ = _ from hcode]
  decide

end Session

end PeripheralHost
