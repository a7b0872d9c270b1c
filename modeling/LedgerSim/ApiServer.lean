import LedgerSim.CborMessages

/-!
# The server loop

A message is handled by one mapper and its answer encoded by another, and what
comes out is written to the client that the message came from.  What a mapper
raises is caught outside, by `map_aiter`.
-/

namespace LedgerSim

open PyObject

/-! ## Answering -/

/-- What comes of `await f(**args)`: a value, an exception with its text (which
may itself fail to be made), or something that is not an `Exception`. -/
inductive CallOutcome where
  | returned (value : PyObject)
  | raised (text : Except PyException String)
  | interrupted

/-- The truthy attributes of the API object, called with keyword arguments. -/
abbrev Api := String → Option (List (String × PyObject) → CallOutcome)

/-- `**args`: a mapping with strings for its keys. -/
def kwargsOf : PyObject → Option (List (String × PyObject))
  | .dict items => items.mapM fun item =>
      match item.1 with
      | .str name => some (name, item.2)
      | _ => Option.none
  | _ => Option.none

variable (M : Messaging)

/-- What the API makes of a command: the attribute is looked up and called with
the message's arguments. -/
def Api.invoke (api : Api) (items : List (PyObject × PyObject)) :
    Option CallOutcome :=
  (api ("do_" ++ M.format (get items "c"))).map fun f =>
    let args := if contains items "q" then get items "q" else .dict []
    match kwargsOf args with
    | Option.none => .raised (.ok (M.text .typeError))
    | some kwargs => f kwargs

/-- The item of the response that tells what came of the call. -/
def answerOf (c : PyObject) :
    Option CallOutcome → Except MapperFailure (String × PyObject)
  | some (.returned r) => .ok ("r", r)
  | some (.raised (.ok text)) => .ok ("e", .str ("exception: " ++ text))
  | some (.raised (.error kind)) => .error (.raised kind)
  | some .interrupted => .error .interrupted
  | Option.none =>
      .ok ("e", .str ("Missing or invalid command: " ++ M.format c))

def responseForMessage (api : Api) :
    PyObject → Except MapperFailure PyObject
  | .dict items => do
      let d ← answerOf M (get items "c") (api.invoke M items)
      match get items "n" with
      | .none => .ok .none
      | nonce => .ok (.dict [(.str d.1, d.2), (.str "n", nonce)])
  -- `message.get` raises before `c` is bound, and the handler reads `c`
  | _ => .error (.raised .unboundLocalError)

/-! ## The loop -/

/-- A message and the client it came from, with the API as the message's
handler finds it. -/
structure ServerEvent (Writer : Type) where
  message : PyObject
  writer : Writer
  api : Api

variable {Writer : Type}

def responseWriterForEvent (event : ServerEvent Writer) :
    Except MapperFailure (PyObject × Writer) := do
  let response ← responseForMessage M event.api event.message
  .ok (response, event.writer)

def problemText (ex : PyException) : PyObject :=
  .str ("problem streaming message: " ++ M.text ex)

def toCbor (pair : PyObject × Writer) :
    Except MapperFailure (Writer × Bytes) :=
  match xformToCborMessage M pair.1 with
  | .ok msg => .ok (pair.2, msg)
  | .error ex => do
      let msg ← (xformToCborMessage M (problemText M ex)).mapError
        MapperFailure.raised
      .ok (pair.2, msg)

/-- What comes out of the two mapped streams for an event. -/
def framesFor (event : ServerEvent Writer) :
    Except MapperFailure (List (Writer × Bytes)) := do
  match ← M.mapAiter (responseWriterForEvent M event) with
  | Option.none => .ok []
  | some pair =>
      let frame ← M.mapAiter (toCbor M pair)
      .ok frame.toList

/-- A round of the loop.  The state holds the frames that have been
written. -/
def serveEvent (event : ServerEvent Writer) :
    Exec MapperFailure (List (Writer × Bytes)) Unit := do
  let frames ← Exec.ofExcept (framesFor M event)
  Exec.modify fun written => written ++ frames

/-- `api_server` with the events in the order in which their handlers end,
which is that of their arrival if there is one worker. -/
def apiServer (events : List (ServerEvent Writer)) :
    Exec MapperFailure (List (Writer × Bytes)) Unit :=
  events.forM (serveEvent M)

/-! ## The law -/

/-- The nonce of a message that asks for a response. -/
def nonceOf : PyObject → Option PyObject
  | .dict items =>
      match get items "n" with
      | .none => Option.none
      | nonce => some nonce
  | _ => Option.none

/-- A frame that answers the nonce with a result or an error. -/
def IsResponse (nonce : PyObject) (frame : Bytes) : Prop :=
  ∃ blob items, IsFrame frame blob ∧ M.loads blob = .ok (.dict items) ∧
    get items "n" = nonce ∧ contains items "r" = !contains items "e"

/-- The frames that a message should cause. -/
def EventLaw (event : ServerEvent Writer)
    (frames : List (Writer × Bytes)) : Prop :=
  match nonceOf event.message with
  | Option.none => frames = []
  | some nonce => ∃ frame, frames = [(event.writer, frame)] ∧
      IsResponse M nonce frame

/-- The loop goes through all messages and writes what they should cause. -/
def ServerObeys (events : List (ServerEvent Writer)) : Prop :=
  ∃ frames, List.Forall₂ (EventLaw M) events frames ∧
    (apiServer M events).run [] = (.ok (), frames.flatten)

/-- The message is a map with a nonce, the call comes to an answer, and answer
and nonce can be encoded. -/
def ServerEvent.Answerable (event : ServerEvent Writer) : Prop :=
  ∃ items nonce answer frame, event.message = .dict items ∧
    nonceOf event.message = some nonce ∧
    answerOf M (get items "c") (event.api.invoke M items) = .ok answer ∧
    xformToCborMessage M
      (.dict [(.str answer.1, answer.2), (.str "n", nonce)]) = .ok frame

/-- Neither the value nor the text in its place can be encoded. -/
def Unencodable (response : PyObject) : Prop :=
  ∃ ex ex', xformToCborMessage M response = .error ex ∧
    xformToCborMessage M (problemText M ex) = .error ex'

/-- The messages that are handled as they should be: those with a nonce that
are answerable, those that are no maps, and a map without a nonce only if its
error has no text or nothing can be sent. -/
inductive ServerEvent.Regular (event : ServerEvent Writer) : Prop
  | answered (h : event.Answerable M)
  | noMap (h : ∀ items, event.message ≠ .dict items)
  | noText {items : List (PyObject × PyObject)} {kind : PyException}
      (hmessage : event.message = .dict items)
      (hnonce : nonceOf event.message = Option.none)
      (h : answerOf M (get items "c") (event.api.invoke M items) =
        .error (.raised kind))
  | unsent {items : List (PyObject × PyObject)} {answer : String × PyObject}
      (hmessage : event.message = .dict items)
      (hnonce : nonceOf event.message = Option.none)
      (hanswer : answerOf M (get items "c") (event.api.invoke M items) =
        .ok answer)
      (h : Unencodable M .none)

variable {M}

/-! ## One message -/

theorem nonceOf_dict_eq_some_iff {items : List (PyObject × PyObject)}
    {nonce : PyObject} :
    nonceOf (.dict items) = some nonce ↔
      get items "n" = nonce ∧ nonce ≠ .none := by
  unfold nonceOf
  dsimp only
  split
  next hnone =>
    rw [hnone]
    constructor
    · intro h
      cases h
    · rintro ⟨hsame, hne⟩
      exact absurd hsame.symm hne
  next hsome =>
    constructor
    · intro h
      have hsame := Option.some.inj h
      exact ⟨hsame, fun hnone => hsome (hsame.trans hnone)⟩
    · rintro ⟨hsame, -⟩
      rw [hsame]

/-- The response to a map: `None`, or the answer with the nonce. -/
def responseWith (message : PyObject) (answer : String × PyObject) :
    PyObject :=
  match nonceOf message with
  | Option.none => .none
  | some nonce => .dict [(.str answer.1, answer.2), (.str "n", nonce)]

/-- A message that is answered at all is a map, and the call has come to an
answer. -/
theorem responseForMessage_eq_ok_iff {api : Api}
    {message response : PyObject} :
    responseForMessage M api message = .ok response ↔
      ∃ items answer, message = .dict items ∧
        answerOf M (get items "c") (api.invoke M items) = .ok answer ∧
        responseWith message answer = response := by
  cases message with
  | dict items =>
      have hresponse : ∀ answer : String × PyObject,
          (match get items "n" with
            | .none => .ok .none
            | nonce => .ok (.dict [(.str answer.1, answer.2),
                (.str "n", nonce)]) : Except MapperFailure PyObject) =
            .ok (responseWith (.dict items) answer) := by
        intro answer
        unfold responseWith nonceOf
        dsimp only
        cases get items "n" <;> rfl
      unfold responseForMessage
      dsimp only
      simp only [hresponse]
      rw [Except.bind_eq_ok_iff]
      simp
  | _ =>
      constructor
      · intro h
        cases h
      · rintro ⟨items, _, hmessage, -⟩
        cases hmessage

/-- An answer is a result or an error. -/
theorem answerOf_key {c : PyObject} {outcome : Option CallOutcome}
    {answer : String × PyObject} (h : answerOf M c outcome = .ok answer) :
    answer.1 = "r" ∨ answer.1 = "e" := by
  cases outcome with
  | none =>
      rw [← Except.ok.inj h]
      exact .inr rfl
  | some outcome =>
      cases outcome with
      | returned r =>
          rw [← Except.ok.inj h]
          exact .inl rfl
      | interrupted => cases h
      | raised text =>
          cases text with
          | error kind => cases h
          | ok text =>
              rw [← Except.ok.inj h]
              exact .inr rfl

/-- What can be encoded of an answer is a response to the nonce. -/
theorem isResponse_of_xform (hM : M.Lawful) {nonce : PyObject}
    (hnonce : nonce.Decoded) {answer : String × PyObject}
    (hkey : answer.1 = "r" ∨ answer.1 = "e") {frame : Bytes}
    (h : xformToCborMessage M
      (.dict [(.str answer.1, answer.2), (.str "n", nonce)]) = .ok frame) :
    IsResponse M nonce frame := by
  obtain ⟨streamable, blob, hstreamable, hblob, hframe⟩ :=
    xformToCborMessage_eq_ok_iff.mp h
  have hloads := hM.loads_dumps _ _ _ hstreamable hblob
  have hne : answer.1 ≠ "n" := by
    rcases hkey with hr | he
    · rw [hr]
      decide
    · rw [he]
      decide
  obtain ⟨value, nonce', -, hnonce', hdict⟩ :=
    (transformToStreamable_two_iff hne).mp hstreamable
  rw [transformToStreamable_decoded hnonce hnonce'] at hdict
  rw [← hdict] at hloads
  refine ⟨blob, _, hframe, hloads, ?_, ?_⟩
  · simp [PyObject.get, PyObject.key, hne]
  · rcases hkey with hr | he
    · simp [PyObject.contains, PyObject.key, hr]
    · simp [PyObject.contains, PyObject.key, he]

theorem decoded_nonceOf {message nonce : PyObject} (hmessage : message.Decoded)
    (h : nonceOf message = some nonce) : nonce.Decoded := by
  cases message with
  | dict items =>
      have hget := (nonceOf_dict_eq_some_iff.mp h).1
      rw [← hget]
      exact decoded_get hmessage.1 "n"
  | _ => cases h

/-- A value other than a map is no response to any nonce. -/
theorem not_isResponse_of_xform (hM : M.Lawful) {d d' nonce : PyObject}
    {frame : Bytes} (h : xformToCborMessage M d = .ok frame)
    (htransform : d.transformToStreamable = .ok d')
    (hmap : ∀ items, d' ≠ .dict items) : ¬ IsResponse M nonce frame := by
  rintro ⟨blob', items, hframe', hloads, -⟩
  obtain ⟨streamable, blob, hstreamable, hblob, hframe⟩ :=
    xformToCborMessage_eq_ok_iff.mp h
  rw [hframe'.unique hframe, hM.loads_dumps _ _ _ hstreamable hblob] at hloads
  have hsame := Except.ok.inj (htransform.symm.trans hstreamable)
  exact hmap items (hsame.trans (Except.ok.inj hloads))

/-- A response that cannot be encoded is replaced by a text, which is no
response to any nonce. -/
theorem isResponse_toCbor (hM : M.Lawful) {pair : PyObject × Writer}
    {nonce : PyObject} {frame : Writer × Bytes}
    (h : toCbor M pair = .ok frame) (hresponse : IsResponse M nonce frame.2) :
    xformToCborMessage M pair.1 = .ok frame.2 ∧ frame.1 = pair.2 := by
  unfold toCbor at h
  cases hmsg : xformToCborMessage M pair.1 with
  | ok msg =>
      rw [hmsg] at h
      rw [← Except.ok.inj h]
      exact ⟨rfl, rfl⟩
  | error ex =>
      rw [hmsg] at h
      obtain ⟨msg, hmsg, h⟩ := Except.bind_eq_ok_iff.mp h
      rw [← Except.ok.inj h] at hresponse
      exact absurd hresponse
        (not_isResponse_of_xform hM (Except.mapError_eq_ok_iff.mp hmsg) rfl
          nofun)

theorem toCbor_writer {pair : PyObject × Writer} {frame : Writer × Bytes}
    (h : toCbor M pair = .ok frame) : frame.1 = pair.2 := by
  unfold toCbor at h
  split at h
  next => rw [← Except.ok.inj h]
  next =>
      obtain ⟨msg, -, h⟩ := Except.bind_eq_ok_iff.mp h
      rw [← Except.ok.inj h]

/-! ## What comes out for a message -/

section Frames

variable {event : ServerEvent Writer}

theorem framesFor_of_response (M : Messaging) {response : PyObject}
    (h : responseForMessage M event.api event.message = .ok response) :
    framesFor M event = (M.mapAiter (toCbor M (response, event.writer)) >>=
      fun frame => .ok frame.toList) := by
  unfold framesFor responseWriterForEvent
  rw [h]
  rfl

theorem framesFor_of_interrupted (M : Messaging)
    (h : responseForMessage M event.api event.message =
      .error .interrupted) : framesFor M event = .error .interrupted := by
  unfold framesFor responseWriterForEvent
  rw [h]
  rfl

theorem framesFor_of_raised (hdrops : M.DropsItems) {kind : PyException}
    (h : responseForMessage M event.api event.message =
      .error (.raised kind)) : framesFor M event = .ok [] := by
  unfold framesFor responseWriterForEvent
  rw [h]
  change (M.mapAiter (.error (.raised kind)) >>= _) = _
  rw [hdrops.mapAiter_raised]
  rfl

theorem framesFor_of_toCbor {response : PyObject}
    {frame : Writer × Bytes}
    (h : responseForMessage M event.api event.message = .ok response)
    (hframe : toCbor M (response, event.writer) = .ok frame) :
    framesFor M event = .ok [frame] := by
  rw [framesFor_of_response M h, hframe]
  rfl

theorem framesFor_of_unencodable (hdrops : M.DropsItems) {response : PyObject}
    (h : responseForMessage M event.api event.message = .ok response)
    (hunencodable : Unencodable M response) : framesFor M event = .ok [] := by
  obtain ⟨ex, ex', hmsg, htext⟩ := hunencodable
  have hcbor : toCbor M (response, event.writer) = .error (.raised ex') := by
    unfold toCbor
    rw [hmsg]
    dsimp only
    rw [htext]
    rfl
  rw [framesFor_of_response M h, hcbor, hdrops.mapAiter_raised]
  rfl

theorem toCbor_ok_or_unencodable (pair : PyObject × Writer) :
    (∃ frame, toCbor M pair = .ok frame) ∨ Unencodable M pair.1 := by
  unfold toCbor Unencodable
  cases hmsg : xformToCborMessage M pair.1 with
  | ok msg => exact .inl ⟨_, rfl⟩
  | error ex =>
      dsimp only
      cases htext : xformToCborMessage M (problemText M ex) with
      | ok msg => exact .inl ⟨_, rfl⟩
      | error ex' => exact .inr ⟨ex, ex', rfl, htext⟩

/-- Where a frame comes out, it holds what was made of the response. -/
theorem framesFor_eq_cons {frame : Writer × Bytes}
    {frames : List (Writer × Bytes)}
    (h : framesFor M event = .ok (frame :: frames)) :
    frames = [] ∧ ∃ response,
      responseForMessage M event.api event.message = .ok response ∧
        toCbor M (response, event.writer) = .ok frame := by
  obtain ⟨pair, hpair, h⟩ := Except.bind_eq_ok_iff.mp h
  cases pair with
  | none => cases h
  | some pair =>
      obtain ⟨response, hresponse, hpair⟩ :=
        Except.bind_eq_ok_iff.mp (Messaging.mapAiter_eq_some_iff.mp hpair)
      obtain rfl := Except.ok.inj hpair
      obtain ⟨frame', hframe', h⟩ := Except.bind_eq_ok_iff.mp h
      cases frame' with
      | none => cases h
      | some frame' =>
          obtain ⟨rfl, rfl⟩ := List.cons.inj (Except.ok.inj h)
          exact ⟨rfl, response, hresponse,
            Messaging.mapAiter_eq_some_iff.mp hframe'⟩

/-- A response comes out only for a message that is answerable. -/
theorem answerable_of_isResponse (hM : M.Lawful)
    {frames : List (Writer × Bytes)} (h : framesFor M event = .ok frames)
    {frame : Writer × Bytes} (hmem : frame ∈ frames) {nonce : PyObject}
    (hresponse : IsResponse M nonce frame.2) : event.Answerable M := by
  cases frames with
  | nil => cases hmem
  | cons first rest =>
      obtain ⟨rfl, response, hmessage, hcbor⟩ := framesFor_eq_cons h
      rw [List.mem_singleton.mp hmem] at hresponse
      obtain ⟨hencoded, -⟩ := isResponse_toCbor hM hcbor hresponse
      obtain ⟨items, answer, hdict, hanswer, hwith⟩ :=
        responseForMessage_eq_ok_iff.mp hmessage
      unfold responseWith at hwith
      cases hnonce : nonceOf event.message with
      | none =>
          rw [hnonce] at hwith
          rw [← hwith] at hencoded
          exact absurd hresponse
            (not_isResponse_of_xform hM hencoded rfl nofun)
      | some nonce =>
          rw [hnonce] at hwith
          rw [← hwith] at hencoded
          exact ⟨items, nonce, answer, first.2, hdict, hnonce, hanswer,
            hencoded⟩

/-- The frame of an answer that can be encoded. -/
theorem framesFor_of_answer {items : List (PyObject × PyObject)}
    {nonce : PyObject} (hmessage : event.message = .dict items)
    (hnonce : nonceOf event.message = some nonce)
    {answer : String × PyObject}
    (hanswer : answerOf M (get items "c") (event.api.invoke M items) =
      .ok answer) {msg : Bytes}
    (hencoded : xformToCborMessage M
      (.dict [(.str answer.1, answer.2), (.str "n", nonce)]) = .ok msg) :
    framesFor M event = .ok [(event.writer, msg)] := by
  have hresponse : responseForMessage M event.api event.message =
      .ok (responseWith event.message answer) :=
    responseForMessage_eq_ok_iff.mpr ⟨items, answer, hmessage, hanswer, rfl⟩
  apply framesFor_of_toCbor hresponse
  unfold toCbor responseWith
  rw [hnonce]
  dsimp only
  rw [hencoded]

/-- An answerable message is answered with one frame. -/
theorem ServerEvent.Answerable.exists_frame (hM : M.Lawful)
    (hdecoded : event.message.Decoded) (h : event.Answerable M) :
    ∃ frame nonce, framesFor M event = .ok [(event.writer, frame)] ∧
      nonceOf event.message = some nonce ∧ IsResponse M nonce frame := by
  obtain ⟨items, nonce, answer, msg, hmessage, hnonce, hanswer, hencoded⟩ := h
  exact ⟨msg, nonce, framesFor_of_answer hmessage hnonce hanswer hencoded,
    hnonce, isResponse_of_xform hM (decoded_nonceOf hdecoded hnonce)
      (answerOf_key hanswer) hencoded⟩

/-- A regular message causes what it should cause. -/
theorem ServerEvent.Regular.eventLaw (hM : M.Lawful) (hdrops : M.DropsItems)
    (hdecoded : event.message.Decoded) (h : event.Regular M) :
    ∃ frames, framesFor M event = .ok frames ∧
      EventLaw M event frames := by
  cases h with
  | answered h =>
      obtain ⟨frame, nonce, hframes, hnonce, hresponse⟩ :=
        h.exists_frame hM hdecoded
      refine ⟨_, hframes, ?_⟩
      unfold EventLaw
      rw [hnonce]
      exact ⟨frame, rfl, hresponse⟩
  | noMap h =>
      have hraised : responseForMessage M event.api event.message =
          .error (.raised .unboundLocalError) := by
        unfold responseForMessage
        split
        next items hitems => exact absurd hitems (h items)
        next => rfl
      have hnone : nonceOf event.message = Option.none := by
        unfold nonceOf
        split
        next items hitems => exact absurd hitems (h items)
        next => rfl
      refine ⟨[], framesFor_of_raised hdrops hraised, ?_⟩
      unfold EventLaw
      rw [hnone]
  | noText hmessage hnonce h =>
      rename_i items kind
      have hraised : responseForMessage M event.api event.message =
          .error (.raised kind) := by
        rw [hmessage]
        unfold responseForMessage
        dsimp only
        rw [h]
        rfl
      refine ⟨[], framesFor_of_raised hdrops hraised, ?_⟩
      unfold EventLaw
      rw [hnonce]
  | unsent hmessage hnonce hanswer h =>
      have hresponse : responseForMessage M event.api event.message =
          .ok .none :=
        responseForMessage_eq_ok_iff.mpr
          ⟨_, _, hmessage, hanswer, by unfold responseWith; rw [hnonce]⟩
      refine ⟨[], framesFor_of_unencodable hdrops hresponse h, ?_⟩
      unfold EventLaw
      rw [hnonce]

/-- A message without a nonce that causes no frame is regular. -/
theorem regular_of_no_frame (hnonce : nonceOf event.message = Option.none)
    (h : framesFor M event = .ok []) : event.Regular M := by
  cases hmessage : event.message with
  | dict items =>
      cases hanswer : answerOf M (get items "c")
          (event.api.invoke M items) with
      | error failure =>
          cases failure with
          | raised kind => exact .noText hmessage hnonce hanswer
          | interrupted =>
              have hresponse : responseForMessage M event.api event.message =
                  .error .interrupted := by
                rw [hmessage]
                unfold responseForMessage
                dsimp only
                rw [hanswer]
                rfl
              rw [framesFor_of_interrupted M hresponse] at h
              cases h
      | ok answer =>
          have hresponse : responseForMessage M event.api event.message =
              .ok .none :=
            responseForMessage_eq_ok_iff.mpr
              ⟨_, _, hmessage, hanswer, by unfold responseWith; rw [hnonce]⟩
          rcases toCbor_ok_or_unencodable (M := M) (.none, event.writer) with
            ⟨frame, hframe⟩ | hunencodable
          · rw [framesFor_of_toCbor hresponse hframe] at h
            cases h
          · exact .unsent hmessage hnonce hanswer hunencodable
  | _ =>
      apply ServerEvent.Regular.noMap
      intro items hitems
      rw [hmessage] at hitems
      cases hitems

end Frames

/-! ## All messages -/

theorem serveEvent_run_ok {event : ServerEvent Writer}
    {frames : List (Writer × Bytes)} (h : framesFor M event = .ok frames)
    (written : List (Writer × Bytes)) :
    (serveEvent M event).run written = (.ok (), written ++ frames) := by
  unfold serveEvent
  rw [h]
  rfl

theorem serveEvent_run_error {event : ServerEvent Writer} {e : MapperFailure}
    (h : framesFor M event = .error e) (written : List (Writer × Bytes)) :
    (serveEvent M event).run written = (.error e, written) := by
  unfold serveEvent
  rw [h]
  rfl

/-- The loop writes what comes out for each message, or fails. -/
theorem apiServer_run_ok_iff {events : List (ServerEvent Writer)}
    {written written' : List (Writer × Bytes)} :
    (apiServer M events).run written = (.ok (), written') ↔
      ∃ frames, events.mapM (framesFor M) = .ok frames ∧
        written' = written ++ frames.flatten := by
  induction events generalizing written with
  | nil =>
      constructor
      · intro h
        have hsame : written = written' := congrArg Prod.snd h
        exact ⟨[], rfl, by simp [hsame]⟩
      · rintro ⟨frames, hframes, rfl⟩
        have hnil : [] = frames := Except.ok.inj hframes
        rw [← hnil, List.flatten_nil, List.append_nil]
        rfl
  | cons event rest ih =>
      rw [List.mapM_cons]
      cases hframe : framesFor M event with
      | error e =>
          have hrun : (apiServer M (event :: rest)).run written =
              (.error e, written) :=
            Exec.run_bind_of_error (serveEvent_run_error hframe written) _
          rw [hrun]
          constructor
          · intro h
            cases h
          · rintro ⟨frames, hframes, -⟩
            cases hframes
      | ok first =>
          have hrun : (apiServer M (event :: rest)).run written =
              (apiServer M rest).run (written ++ first) :=
            Exec.run_bind_of_ok (serveEvent_run_ok hframe written) _
          rw [hrun, ih]
          constructor
          · rintro ⟨frames, hframes, rfl⟩
            refine ⟨first :: frames, ?_, ?_⟩
            · exact Except.bind_eq_ok rfl (Except.bind_eq_ok hframes rfl)
            · rw [List.flatten_cons, List.append_assoc]
          · rintro ⟨all, hall, rfl⟩
            obtain ⟨_, hfirst, hall⟩ := Except.bind_eq_ok_iff.mp hall
            obtain ⟨frames, hframes, hall⟩ := Except.bind_eq_ok_iff.mp hall
            refine ⟨frames, hframes, ?_⟩
            rw [← Except.ok.inj hall, ← Except.ok.inj hfirst,
              List.flatten_cons, List.append_assoc]

/-! ## The law against what is written -/

/-- The messages that ask for a response. -/
def asking (events : List (ServerEvent Writer)) : ℕ :=
  events.countP fun event => (nonceOf event.message).isSome

theorem eventLaw_length {event : ServerEvent Writer}
    {frames : List (Writer × Bytes)} (h : EventLaw M event frames) :
    frames.length = asking [event] := by
  unfold EventLaw at h
  cases hnonce : nonceOf event.message with
  | none =>
      rw [hnonce] at h
      rw [show frames = [] from h]
      simp [asking, hnonce]
  | some nonce =>
      rw [hnonce] at h
      obtain ⟨frame, hframes, -⟩ := h
      simp [asking, hframes, hnonce]

theorem asking_cons (event : ServerEvent Writer)
    (events : List (ServerEvent Writer)) :
    asking (event :: events) = asking [event] + asking events := by
  simp [asking, List.countP_cons, Nat.add_comm]

theorem flatten_length_of_laws {events : List (ServerEvent Writer)}
    {frames : List (List (Writer × Bytes))}
    (h : List.Forall₂ (EventLaw M) events frames) :
    frames.flatten.length = asking events := by
  induction h with
  | nil => rfl
  | cons hlaw _ ih =>
      rw [List.flatten_cons, List.length_append, eventLaw_length hlaw, ih]
      exact (asking_cons _ _).symm

theorem isResponse_of_laws {events : List (ServerEvent Writer)}
    {frames : List (List (Writer × Bytes))}
    (h : List.Forall₂ (EventLaw M) events frames) {frame : Writer × Bytes}
    (hmem : frame ∈ frames.flatten) :
    ∃ nonce, IsResponse M nonce frame.2 := by
  induction h with
  | nil => cases hmem
  | @cons event first events rest hlaw _ ih =>
      rw [List.flatten_cons] at hmem
      rcases List.mem_append.mp hmem with hfirst | hrest
      · unfold EventLaw at hlaw
        cases hnonce : nonceOf event.message with
        | none =>
            rw [hnonce] at hlaw
            rw [show first = [] from hlaw] at hfirst
            cases hfirst
        | some nonce =>
            rw [hnonce] at hlaw
            obtain ⟨frame', rfl, hresponse⟩ := hlaw
            rw [List.mem_singleton.mp hfirst]
            exact ⟨nonce, hresponse⟩
      · exact ih hrest

/-- As many responses come out as are asked for only if every message is
regular. -/
theorem regular_of_responses (hM : M.Lawful)
    {events : List (ServerEvent Writer)}
    {frames : List (List (Writer × Bytes))}
    (h : List.Forall₂ (fun event frames => framesFor M event = .ok frames)
      events frames)
    (hresponses : ∀ frame ∈ frames.flatten, ∃ nonce,
      IsResponse M nonce frame.2) :
    frames.flatten.length ≤ asking events ∧
      (frames.flatten.length = asking events →
        ∀ event ∈ events, event.Regular M) := by
  induction h with
  | nil => exact ⟨le_rfl, fun _ => nofun⟩
  | @cons event first events rest hframes _ ih =>
      rw [List.flatten_cons] at hresponses ⊢
      rw [asking_cons, List.length_append]
      obtain ⟨hle, hall⟩ := ih fun frame hmem =>
        hresponses frame (List.mem_append_right _ hmem)
      cases first with
      | nil =>
          refine ⟨?_, ?_⟩
          · simp only [List.length_nil]
            omega
          · intro heq
            simp only [List.length_nil] at heq
            have hnonce : nonceOf event.message = Option.none := by
              by_contra hne
              have hone : asking [event] = 1 := by
                simp [asking, Option.isSome_iff_ne_none.mpr hne]
              omega
            have hzero : asking [event] = 0 := by simp [asking, hnonce]
            rw [List.forall_mem_cons]
            exact ⟨regular_of_no_frame hnonce hframes, hall (by omega)⟩
      | cons frame more =>
          obtain ⟨rfl, -⟩ := framesFor_eq_cons hframes
          obtain ⟨nonce, hresponse⟩ := hresponses frame (by simp)
          have hanswerable := answerable_of_isResponse hM hframes
            (List.mem_singleton_self frame) hresponse
          have hone : asking [event] = 1 := by
            obtain ⟨_, _, _, _, _, hnonce, _⟩ := hanswerable
            simp [asking, hnonce]
          rw [List.length_singleton]
          refine ⟨by omega, fun heq => ?_⟩
          rw [List.forall_mem_cons]
          exact ⟨.answered hanswerable, hall (by omega)⟩

/-- The loop obeys the law of requests and responses exactly if every message
is regular. -/
theorem apiServer_obeys_iff (hM : M.Lawful) (hdrops : M.DropsItems)
    {events : List (ServerEvent Writer)}
    (hdecoded : ∀ event ∈ events, event.message.Decoded) :
    ServerObeys M events ↔ ∀ event ∈ events, event.Regular M := by
  constructor
  · rintro ⟨lawful, hlaws, hrun⟩
    obtain ⟨frames, hframes, hwritten⟩ := apiServer_run_ok_iff.mp hrun
    rw [List.nil_append] at hwritten
    have hregular := regular_of_responses hM (Except.mapM_eq_ok_iff.mp hframes)
      (by
        rw [← hwritten]
        exact fun frame hmem => isResponse_of_laws hlaws hmem)
    apply hregular.2
    rw [← hwritten]
    exact flatten_length_of_laws hlaws
  · intro hregular
    have hevents : ∀ event ∈ events, ∃ frames,
        framesFor M event = .ok frames ∧ EventLaw M event frames := by
      intro event hevent
      exact (hregular event hevent).eventLaw hM hdrops (hdecoded event hevent)
    obtain ⟨frames, hframes⟩ := Except.exists_mapM_eq_ok
      fun event hevent => (hevents event hevent).imp fun _ h => h.1
    refine ⟨frames, ?_, ?_⟩
    · have hforall := (List.forall₂_and_left events frames).mpr
        ⟨fun _ hevent => hevent, Except.mapM_eq_ok_iff.mp hframes⟩
      refine hforall.imp ?_
      rintro event frames ⟨hevent, hrun⟩
      obtain ⟨frames', hrun', hlaw⟩ := hevents event hevent
      rw [Except.ok.inj (hrun.symm.trans hrun')]
      exact hlaw
    · rw [apiServer_run_ok_iff]
      exact ⟨frames, hframes, (List.nil_append _).symm⟩

namespace Reference

/-! The encoding of a small result with a small nonce, and of `None`. -/

def dumps : PyObject → Except PyException Bytes
  | .none => .ok [0xf6]
  | .dict [(.str "r", .int r), (.str "n", .int n)] =>
      if 0 ≤ r ∧ r < 24 ∧ 0 ≤ n ∧ n < 24 then
        .ok [0xa2, 0x61, 0x72, UInt8.ofNat r.toNat, 0x61, 0x6e,
          UInt8.ofNat n.toNat]
      else .error .valueError
  | _ => .error .valueError

def loads : Bytes → Except PyException PyObject
  | [0xf6] => .ok .none
  | [0xa2, 0x61, 0x72, r, 0x61, 0x6e, n] =>
      .ok (.dict [(.str "r", .int r.toNat), (.str "n", .int n.toNat)])
  | _ => .error .valueError

def messaging : Messaging where
  format
    | .str s => s
    | _ => "None"
  text _ := "exception"
  dumps := dumps
  loads := loads
  mapAiterRaises _ := none

theorem toNat_ofNat_small {n : ℤ} (hnonneg : 0 ≤ n) (hlt : n < 24) :
    ((UInt8.ofNat n.toNat).toNat : ℤ) = n := by
  rw [UInt8.toNat_ofNat', Nat.mod_eq_of_lt (by omega)]
  omega

theorem messaging_lawful : messaging.Lawful where
  loads_dumps _ d' blob _ h := by
    change dumps d' = .ok blob at h
    change loads blob = .ok d'
    unfold dumps at h
    split at h
    next =>
      rw [← Except.ok.inj h]
      rfl
    next r n =>
      split_ifs at h with hsmall
      obtain ⟨hr, hr24, hn, hn24⟩ := hsmall
      rw [← Except.ok.inj h, loads, toNat_ofNat_small hr hr24,
        toNat_ofNat_small hn hn24]
    next => cases h

theorem messaging_dropsItems : messaging.DropsItems :=
  fun _ => rfl

/-- An API whose only method returns 7. -/
def sevenApi : Api
  | "do_seven" => some fun _ => .returned (.int 7)
  | _ => Option.none

def sevenEvent : ServerEvent ℕ :=
  ⟨.dict [(.str "c", .str "seven"), (.str "n", .int 5)], 0, sevenApi⟩

/-- A message that is a list. -/
def listEvent : ServerEvent ℕ :=
  ⟨.list [], 1, sevenApi⟩

/-- A message that asks for no response. -/
def silentEvent : ServerEvent ℕ :=
  ⟨.dict [(.str "c", .str "seven")], 0, sevenApi⟩

theorem silentEvent_decoded : silentEvent.message.Decoded :=
  ⟨⟨trivial, trivial, trivial⟩, List.pairwise_singleton _ _⟩

end Reference

open Reference in
theorem apiServer_obeys_iff_seven :
    ServerObeys messaging [sevenEvent, listEvent, sevenEvent] ↔
      ∀ event ∈ [sevenEvent, listEvent, sevenEvent],
        event.Regular messaging := by
  apply apiServer_obeys_iff messaging_lawful messaging_dropsItems
  intro event hevent
  have hcases : event = sevenEvent ∨ event = listEvent := by
    simpa [or_comm, or_left_comm] using hevent
  rcases hcases with rfl | rfl
  · refine ⟨⟨trivial, trivial, trivial, trivial, trivial⟩, ?_⟩
    simp [PyObject.key]
  · trivial

open Reference in
/-- A message without a nonce is answered with `None`. -/
theorem apiServer_answers_silent :
    ¬ (messaging.Lawful → messaging.DropsItems →
      ∀ events : List (ServerEvent ℕ),
        (∀ event ∈ events, event.message.Decoded) →
          ServerObeys messaging events) := by
  intro h
  have hdecoded : ∀ event ∈ [silentEvent], event.message.Decoded := by
    intro event hevent
    rw [List.mem_singleton.mp hevent]
    exact silentEvent_decoded
  obtain ⟨frames, hlaws, hrun⟩ :=
    h messaging_lawful messaging_dropsItems [silentEvent] hdecoded
  have hwritten : ((apiServer messaging [silentEvent]).run []).2 =
      [(0, [0, 0, 0, 1, 0xf6])] := rfl
  have hlength := flatten_length_of_laws hlaws
  rw [hrun] at hwritten
  have hframes : frames.flatten = [(0, [0, 0, 0, 1, 0xf6])] := hwritten
  rw [hframes] at hlength
  cases hlength

end LedgerSim
