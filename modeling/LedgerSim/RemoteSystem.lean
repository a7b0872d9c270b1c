import LedgerSim.ClientMessages
import LedgerSim.Interleaving
import LedgerSim.ReferenceMessaging

/-!
# Clients and server

Any number of clients are connected to one server.  Each connection carries
bytes in both directions, in order; it may break, and then what is on the way
is lost from some point on.  The server takes complete messages from the
connections in any order and handles one at a time.  Besides the clients that
call through a proxy there may be other programs that write what they like.
-/

namespace LedgerSim

open PyObject NonceWatcher

variable (M : Messaging) {σ ι : Type}

/-! ## An API with a state -/

/-- The methods of an API object: what a call answers and the state that it
leaves. -/
abbrev Service (σ : Type) :=
  String → Option (List (String × PyObject) → σ → CallOutcome × σ)

namespace Service

variable (service : Service σ)

def api (s : σ) : Api := fun name =>
  (service name).map fun f kwargs => (f kwargs s).1

/-- The state after a message has been handled. -/
def after (s : σ) : PyObject → σ
  | .dict items =>
      let args := if contains items "q" then get items "q" else .dict []
      match service ("do_" ++ M.format (get items "c")), kwargsOf args with
      | some f, some kwargs => (f kwargs s).2
      | _, _ => s
  | _ => s

def stateAfter (s : σ) (messages : List PyObject) : σ :=
  messages.foldl (service.after M) s

/-- The messages with the API as the handler of each finds it. -/
def eventsFrom (s : σ) : List (ι × PyObject) → List (ServerEvent ι)
  | [] => []
  | (c, message) :: later =>
      ⟨message, c, service.api s⟩ ::
        eventsFrom (service.after M s message) later

variable {M} {service} {s : σ}

theorem stateAfter_append (messages : List PyObject) (message : PyObject) :
    service.stateAfter M s (messages ++ [message]) =
      service.after M (service.stateAfter M s messages) message := by
  simp [stateAfter]

theorem eventsFrom_append (served : List (ι × PyObject)) (c : ι)
    (message : PyObject) :
    service.eventsFrom M s (served ++ [(c, message)]) =
      service.eventsFrom M s served ++ [⟨message, c,
        service.api (service.stateAfter M s (served.map Prod.snd))⟩] := by
  induction served generalizing s with
  | nil => rfl
  | cons first rest ih =>
      rw [List.cons_append, eventsFrom, eventsFrom, ih]
      rfl

/-- An event is a message that was handled in the state which the messages
before it had left. -/
theorem mem_eventsFrom {served : List (ι × PyObject)} {event : ServerEvent ι}
    (h : event ∈ service.eventsFrom M s served) :
    ∃ earlier later,
      served = earlier ++ (event.writer, event.message) :: later ∧
        event.api =
          service.api (service.stateAfter M s (earlier.map Prod.snd)) := by
  induction served generalizing s with
  | nil => cases h
  | cons first rest ih =>
      rcases List.mem_cons.mp h with rfl | hrest
      · exact ⟨[], rest, rfl, rfl⟩
      · obtain ⟨earlier, later, rfl, hapi⟩ := ih hrest
        exact ⟨first :: earlier, later, rfl, hapi⟩

end Service

/-! ## Connections -/

/-- A connection with what has happened at its client. -/
structure Connection where
  events : List ClientEvent
  toServer : Bytes
  toClient : Bytes
  isOpen : Bool

namespace Connection

def initial : Connection :=
  ⟨[], [], [], true⟩

/-- The client takes part in an event, and what it writes is sent. -/
def act (conn : Connection) (event : ClientEvent) : Connection :=
  let before := NonceWatcher.run M conn.events
  let after := before.step M event
  { conn with
    events := conn.events ++ [event]
    toServer :=
      if conn.isOpen then
        conn.toServer ++ (after.written.drop before.written.length).flatten
      else conn.toServer }

/-- `writer.write(cbor_msg)` of the server. -/
def reply (conn : Connection) (frames : List Bytes) : Connection :=
  { conn with
    toClient := if conn.isOpen then conn.toClient ++ frames.flatten
      else conn.toClient }

end Connection

/-! ## The system -/

/-- The server's state with the messages that it has handled and the frames
that it has written so far. -/
structure RemoteSystem (σ ι : Type) where
  state : σ
  serving : Bool
  served : List (ι × PyObject)
  written : List (ι × Bytes)
  connections : ι → Connection

namespace RemoteSystem

def initial (s : σ) : RemoteSystem σ ι :=
  ⟨s, true, [], [], fun _ => Connection.initial⟩

section Steps

variable [DecidableEq ι]

def update (sys : RemoteSystem σ ι) (c : ι) (conn : Connection) :
    RemoteSystem σ ι :=
  { sys with connections := Function.update sys.connections c conn }

/-- A round of the server's loop; what leaves the mapped streams ends it. -/
def handle (service : Service σ) (sys : RemoteSystem σ ι) (c : ι)
    (message : PyObject) (rest : Bytes) : RemoteSystem σ ι :=
  let conn := { sys.connections c with toServer := rest }
  let next := { sys with
    state := service.after M sys.state message
    served := sys.served ++ [(c, message)] }
  match framesFor M ⟨message, c, service.api sys.state⟩ with
  | .ok frames =>
      { next with written := sys.written ++ frames }.update c
        (conn.reply (frames.map Prod.snd))
  | .error _ => { next with serving := false }.update c conn

theorem handle_served (service : Service σ) (sys : RemoteSystem σ ι) (c : ι)
    (message : PyObject) (rest : Bytes) :
    (sys.handle M service c message rest).served =
      sys.served ++ [(c, message)] := by
  unfold handle
  dsimp only
  split <;> rfl

theorem handle_state (service : Service σ) (sys : RemoteSystem σ ι) (c : ι)
    (message : PyObject) (rest : Bytes) :
    (sys.handle M service c message rest).state =
      service.after M sys.state message := by
  unfold handle
  dsimp only
  split <;> rfl

end Steps

end RemoteSystem

/-- An event at the client alone. -/
def ClientEvent.IsLocal : ClientEvent → Prop
  | .receive _ | .endOfStream => False
  | _ => True

/-- What can happen next; `proxies` are the connections of clients that call
through a proxy. -/
inductive RemoteSystem.Step [DecidableEq ι] (service : Service σ)
    (proxies : ι → Prop) : RemoteSystem σ ι → RemoteSystem σ ι → Prop
  | act {sys : RemoteSystem σ ι} (c : ι) (event : ClientEvent)
      (hproxy : proxies c) (hlocal : event.IsLocal) :
      Step service proxies sys (sys.update c ((sys.connections c).act M event))
  /-- The client's task takes the next message from its reader. -/
  | deliver {sys : RemoteSystem σ ι} (c : ι) {value : PyObject} {rest : Bytes}
      (hproxy : proxies c)
      (hrunning : (NonceWatcher.run M (sys.connections c).events).task =
        .running)
      (hread : readMessage M (sys.connections c).toClient =
        .ok (value, rest)) :
      Step service proxies sys (sys.update c
        { (sys.connections c).act M (.receive value) with toClient := rest })
  /-- The client's reader ends; on an open connection it waits for the rest of
  a message. -/
  | hangUp {sys : RemoteSystem σ ι} (c : ι) {failure : ReadFailure}
      (hproxy : proxies c)
      (hrunning : (NonceWatcher.run M (sys.connections c).events).task =
        .running)
      (hread : readMessage M (sys.connections c).toClient = .error failure)
      (hended : (sys.connections c).isOpen = true →
        failure ≠ .incompleteRead) :
      Step service proxies sys
        (sys.update c ((sys.connections c).act M .endOfStream))
  | serve {sys : RemoteSystem σ ι} (c : ι) {message : PyObject} {rest : Bytes}
      (hserving : sys.serving = true)
      (hread : readMessage M (sys.connections c).toServer =
        .ok (message, rest)) :
      Step service proxies sys (sys.handle M service c message rest)
  /-- The connection breaks. -/
  | close {sys : RemoteSystem σ ι} (c : ι) (sent received : ℕ) :
      Step service proxies sys (sys.update c
        { sys.connections c with
          toServer := (sys.connections c).toServer.take sent
          toClient := (sys.connections c).toClient.take received
          isOpen := false })
  /-- Another program writes to the server. -/
  | intrude {sys : RemoteSystem σ ι} (c : ι) (bytes : Bytes)
      (hother : ¬ proxies c) :
      Step service proxies sys (sys.update c
        { sys.connections c with
          toServer := (sys.connections c).toServer ++ bytes })

abbrev RemoteSystem.Run [DecidableEq ι] (service : Service σ)
    (proxies : ι → Prop) : RemoteSystem σ ι → RemoteSystem σ ι → Prop :=
  Relation.ReflTransGen (RemoteSystem.Step M service proxies)

/-! ## What the server has done -/

variable {M} in
/-- What comes out for an event goes to the client that it came from. -/
theorem framesFor_writer {event : ServerEvent ι} {frames : List (ι × Bytes)}
    (h : framesFor M event = .ok frames) :
    ∀ frame ∈ frames, frame.1 = event.writer := by
  cases frames with
  | nil => exact nofun
  | cons first rest =>
      obtain ⟨rfl, response, -, hframe⟩ := framesFor_eq_cons h
      rw [List.forall_mem_singleton]
      exact toCbor_writer hframe

namespace RemoteSystem

variable {M} {service : Service σ} {s₀ : σ} {sys : RemoteSystem σ ι}

variable (M service s₀) in
/-- The state is the one that the served messages leave one after the other,
and what has come out for each of them has been written; only the last one may
have ended the loop. -/
structure ServerInv (sys : RemoteSystem σ ι) : Prop where
  state : sys.state = service.stateAfter M s₀ (sys.served.map Prod.snd)
  written : ∃ answered frames,
    answered <+: service.eventsFrom M s₀ sys.served ∧
    List.Forall₂ (fun event frames => framesFor M event = .ok frames)
      answered frames ∧
    sys.written = frames.flatten ∧
    (sys.serving = true → answered = service.eventsFrom M s₀ sys.served)

theorem serverInv_initial :
    ServerInv M service s₀ (initial s₀ : RemoteSystem σ ι) where
  state := rfl
  written := ⟨[], [], List.prefix_refl _, .nil, rfl, fun _ => rfl⟩

/-- What the server has written is what the loop writes for the messages that
it has handled. -/
theorem ServerInv.apiServer_run (h : ServerInv M service s₀ sys)
    (hserving : sys.serving = true) :
    (apiServer M (service.eventsFrom M s₀ sys.served)).run [] =
      (.ok (), sys.written) := by
  obtain ⟨answered, frames, -, hframes, hwritten, hall⟩ := h.written
  rw [apiServer_run_ok_iff]
  refine ⟨frames, ?_, ?_⟩
  · rw [Except.mapM_eq_ok_iff, ← hall hserving]
    exact hframes
  · rw [List.nil_append, hwritten]

section Steps

variable [DecidableEq ι]

theorem ServerInv.update (h : ServerInv M service s₀ sys) (c : ι)
    (conn : Connection) : ServerInv M service s₀ (sys.update c conn) :=
  ⟨h.state, h.written⟩

theorem ServerInv.handle (h : ServerInv M service s₀ sys)
    (hserving : sys.serving = true) (c : ι) (message : PyObject)
    (rest : Bytes) :
    ServerInv M service s₀ (sys.handle M service c message rest) := by
  obtain ⟨answered, frames, -, hframes, hwritten, hall⟩ := h.written
  have hanswered := hall hserving
  have hstate : service.after M sys.state message =
      service.stateAfter M s₀
        ((sys.served ++ [(c, message)]).map Prod.snd) := by
    rw [List.map_append, List.map_singleton, Service.stateAfter_append,
      ← h.state]
  have hevents : service.eventsFrom M s₀ (sys.served ++ [(c, message)]) = _ :=
    Service.eventsFrom_append sys.served c message
  rw [← h.state] at hevents
  unfold RemoteSystem.handle
  dsimp only
  split
  next new hnew =>
      apply ServerInv.update
      refine ⟨hstate, _, frames ++ [new], List.prefix_refl _, ?_, ?_,
        fun _ => rfl⟩
      · rw [hevents, ← hanswered]
        exact List.rel_append hframes (.cons hnew .nil)
      · dsimp only
        rw [hwritten, List.flatten_append, List.flatten_singleton]
  next e _ =>
      apply ServerInv.update
      refine ⟨hstate, answered, frames, ?_, hframes, hwritten, nofun⟩
      rw [hevents, hanswered]
      exact List.prefix_append _ _

end Steps

end RemoteSystem

/-! ## What is on the way -/

/-- The values that a client has received. -/
def received (events : List ClientEvent) : List PyObject :=
  events.filterMap fun event =>
    match event with
    | .receive value => some value
    | _ => Option.none

theorem received_append (events : List ClientEvent) (event : ClientEvent) :
    received (events ++ [event]) = received events ++ received [event] :=
  List.filterMap_append

theorem mem_received {events : List ClientEvent} {value : PyObject} :
    value ∈ received events ↔ .receive value ∈ events := by
  unfold received
  rw [List.mem_filterMap]
  constructor
  · rintro ⟨event, hevent, hvalue⟩
    cases event with
    | receive value' =>
        rw [← Option.some.inj hvalue]
        exact hevent
    | _ => cases hvalue
  · intro h
    exact ⟨_, h, rfl⟩

theorem received_of_isLocal {event : ClientEvent} (h : event.IsLocal) :
    received [event] = [] := by
  cases event with
  | receive value => exact h.elim
  | endOfStream => exact h.elim
  | _ => rfl

/-- The client's messages have been served or are on their way, in this order,
and the server's answers have been received or are on their way back. -/
structure Connection.Inv (M : Messaging) (conn : Connection) (served : List PyObject)
    (written : List Bytes) : Prop where
  requests : ∃ waiting, NonceWatcher.sent M conn.events = served ++ waiting ∧
    InFlight M conn.isOpen conn.toServer waiting
  responses : ∃ waiting,
    List.Forall₂ (Carries M) written (received conn.events ++ waiting) ∧
      InFlight M conn.isOpen conn.toClient waiting

namespace Connection.Inv

variable {M} {conn : Connection} {served : List PyObject}
  {written : List Bytes}

theorem initial : Connection.initial.Inv M [] [] where
  requests := ⟨[], rfl, inFlight_nil⟩
  responses := ⟨[], .nil, inFlight_nil⟩

/-- The client's own events write its calls. -/
theorem act (hM : M.Lawful) (h : conn.Inv M served written)
    (event : ClientEvent) :
    ∃ waiting, NonceWatcher.sent M (conn.act M event).events =
        served ++ waiting ∧
      InFlight M conn.isOpen (conn.act M event).toServer waiting := by
  obtain ⟨waiting, hsent, hwaiting⟩ := h.requests
  obtain ⟨frames, hframes, hcarries⟩ :=
    (NonceWatcher.run M conn.events).step_written hM event
  have hnew : ((step M (run M conn.events) event).written.drop
      (run M conn.events).written.length) = frames := by
    rw [hframes, List.drop_left]
  refine ⟨waiting ++ (run M conn.events).sends M event, ?_, ?_⟩
  · unfold Connection.act
    dsimp only
    rw [NonceWatcher.sent_append, hsent, List.append_assoc]
  · unfold Connection.act
    dsimp only
    rw [hnew]
    exact hwaiting.write hcarries

theorem act_local (hM : M.Lawful) (h : conn.Inv M served written)
    {event : ClientEvent} (hlocal : received [event] = []) :
    (conn.act M event).Inv M served written where
  requests := h.act hM event
  responses := by
    have hsame : received (conn.act M event).events =
        received conn.events := by
      unfold Connection.act
      dsimp only
      rw [received_append, hlocal, List.append_nil]
    rw [hsame]
    exact h.responses

theorem deliver (hM : M.Lawful) (h : conn.Inv M served written)
    {value : PyObject} {rest : Bytes}
    (hread : readMessage M conn.toClient = .ok (value, rest)) :
    Connection.Inv M { conn.act M (.receive value) with toClient := rest }
      served written where
  requests := h.act hM _
  responses := by
    obtain ⟨waiting, hvalues, hwaiting⟩ := h.responses
    obtain ⟨later, rfl, hlater⟩ := hwaiting.read hread
    refine ⟨later, ?_, hlater⟩
    unfold Connection.act
    dsimp only
    rw [received_append, List.append_assoc]
    exact hvalues

theorem request (h : conn.Inv M served written) {message : PyObject}
    {rest : Bytes} (hread : readMessage M conn.toServer = .ok (message, rest)) :
    Connection.Inv M { conn with toServer := rest } (served ++ [message])
      written where
  requests := by
    obtain ⟨waiting, hsent, hwaiting⟩ := h.requests
    obtain ⟨later, rfl, hlater⟩ := hwaiting.read hread
    refine ⟨later, ?_, hlater⟩
    rw [hsent, List.append_assoc, List.singleton_append]
  responses := h.responses

theorem reply (h : conn.Inv M served written) {frames : List Bytes}
    {values : List PyObject}
    (hcarries : List.Forall₂ (Carries M) frames values) :
    (conn.reply frames).Inv M served (written ++ frames) where
  requests := h.requests
  responses := by
    obtain ⟨waiting, hvalues, hwaiting⟩ := h.responses
    refine ⟨waiting ++ values, ?_, hwaiting.write hcarries⟩
    rw [← List.append_assoc]
    exact List.rel_append hvalues hcarries

theorem close (h : conn.Inv M served written) (sent received : ℕ) :
    Connection.Inv M { conn with
      toServer := conn.toServer.take sent
      toClient := conn.toClient.take received
      isOpen := false } served written where
  requests := by
    obtain ⟨waiting, hsent, hwaiting⟩ := h.requests
    exact ⟨waiting, hsent, hwaiting.broken sent⟩
  responses := by
    obtain ⟨waiting, hvalues, hwaiting⟩ := h.responses
    exact ⟨waiting, hvalues, hwaiting.broken received⟩

end Connection.Inv

/-! ## Two clients of a counter -/

namespace Reference

/-- `f` returns the counter and advances it. -/
def counter : Service ℕ
  | "do_f" => some fun _ n => (.returned (.int n), n + 1)
  | _ => Option.none

/-- The first call of a client. -/
def firstCall : PyObject :=
  .dict [(.str "c", .str "f"), (.str "n", .int 0), (.str "q", .dict [])]

def firstCallFrame : Bytes :=
  [0, 0, 0, 11, 0xa3, 0x61, 0x63, 0x61, 0x66, 0x61, 0x6e, 0, 0x61, 0x71, 0xa0]

def firstResult (r : UInt8) : PyObject :=
  .dict [(.str "r", .int r.toNat), (.str "n", .int 0)]

def firstResultFrame (r : UInt8) : Bytes :=
  [0, 0, 0, 7, 0xa2, 0x61, 0x72, r, 0x61, 0x6e, 0]

theorem readMessage_of_dumps {frame : Bytes} {d : PyObject}
    (hframe : IsFrame frame (frame.drop 4))
    (hdumps : cborDumps d = .ok (frame.drop 4)) :
    readMessage cborMessaging frame = .ok (d, []) := by
  have hloads : cborMessaging.loads (frame.drop 4) = .ok d :=
    cborLoads_of_dumps hdumps
  have hread := readMessage_frame hframe hloads []
  rw [List.append_nil] at hread
  exact hread

/-- A client calls `f`. -/
def calledBy (c : ℕ) (sys : RemoteSystem ℕ ℕ) : RemoteSystem ℕ ℕ :=
  sys.update c ((sys.connections c).act cborMessaging (.invoke "f" []))

/-- The server handles the call. -/
def handledFor (c : ℕ) (sys : RemoteSystem ℕ ℕ) : RemoteSystem ℕ ℕ :=
  sys.handle cborMessaging counter c firstCall []

/-- The client receives the result. -/
def answeredTo (c : ℕ) (r : UInt8) (sys : RemoteSystem ℕ ℕ) :
    RemoteSystem ℕ ℕ :=
  sys.update c
    { (sys.connections c).act cborMessaging (.receive (firstResult r)) with
      toClient := [] }

/-- Client 0 has its result. -/
def oneAnswered : RemoteSystem ℕ ℕ :=
  answeredTo 0 0 (handledFor 0 (calledBy 0 (RemoteSystem.initial 0)))

/-- Client 1 has its result as well. -/
def twoAnswered : RemoteSystem ℕ ℕ :=
  answeredTo 1 1 (handledFor 1 (calledBy 1 oneAnswered))

abbrev CounterRun : RemoteSystem ℕ ℕ → RemoteSystem ℕ ℕ → Prop :=
  RemoteSystem.Run cborMessaging counter fun _ => True

/-- A call of `f` that goes through, with what is on the way in between. -/
theorem counterRun_of_frames {sys : RemoteSystem ℕ ℕ} {c : ℕ} {r : UInt8}
    (hserving : (calledBy c sys).serving = true)
    (hcall : ((calledBy c sys).connections c).toServer = firstCallFrame)
    (hrunning : (NonceWatcher.run cborMessaging
      ((handledFor c (calledBy c sys)).connections c).events).task = .running)
    (hresult : ((handledFor c (calledBy c sys)).connections c).toClient =
      firstResultFrame r)
    (hread : readMessage cborMessaging (firstResultFrame r) =
      .ok (firstResult r, [])) :
    CounterRun sys (answeredTo c r (handledFor c (calledBy c sys))) := by
  have hcalled : CounterRun sys (calledBy c sys) :=
    .single (.act c (.invoke "f" []) trivial trivial)
  have hhandled : CounterRun sys (handledFor c (calledBy c sys)) := by
    apply hcalled.tail
    apply RemoteSystem.Step.serve c hserving
    rw [hcall]
    exact readMessage_of_dumps ⟨by decide, rfl⟩ rfl
  apply hhandled.tail
  apply RemoteSystem.Step.deliver c trivial hrunning
  rw [hresult]
  exact hread

theorem oneAnswered_run : CounterRun (RemoteSystem.initial 0) oneAnswered :=
  counterRun_of_frames rfl rfl rfl rfl
    (readMessage_of_dumps ⟨by decide, rfl⟩ rfl)

theorem twoAnswered_run : CounterRun oneAnswered twoAnswered :=
  counterRun_of_frames rfl rfl rfl rfl
    (readMessage_of_dumps ⟨by decide, rfl⟩ rfl)

theorem oneAnswered_events :
    (oneAnswered.connections 0).events =
      [.invoke "f" [], .receive (firstResult 0)] :=
  rfl

theorem oneAnswered_events_other : (oneAnswered.connections 1).events = [] :=
  rfl

theorem twoAnswered_events :
    (twoAnswered.connections 1).events =
      [.invoke "f" [], .receive (firstResult 1)] :=
  rfl

end Reference

end LedgerSim
