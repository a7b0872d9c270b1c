import LedgerSim.RemoteSystem

/-!
# One history for all clients

The messages that the server has handled are one history.  A client's part of
it is the beginning of what the client has sent, every result that a call gets
is the answer of its own message in that history, and the history grows at its
end only.
-/

namespace LedgerSim

open PyObject NonceWatcher

variable {M : Messaging} {σ ι : Type} {service : Service σ} {s₀ : σ}

/-! ## A response and its message -/

/-- What the client makes of an item of a response. -/
def replyWith (answer : String) (value : PyObject) : Reply :=
  if answer = "e" then .remoteError value else .value value

/-- The message has been handled with this reply. -/
def Answers (M : Messaging) (api : Api) (message : PyObject) (reply : Reply) :
    Prop :=
  ∃ items answer value, message = .dict items ∧
    answerOf M (get items "c") (api.invoke M items) = .ok answer ∧
    answer.2.transformToStreamable = .ok value ∧
    reply = replyWith answer.1 value

theorem replyTo_response {answer : String} (hanswer : answer = "r" ∨ answer = "e")
    (value : PyObject) (n : ℤ) (nonce : ℕ) :
    replyTo nonce (.dict [(.str answer, value), (.str "n", .int n)]) =
      if n = nonce then some (replyWith answer value) else Option.none := by
  rcases hanswer with rfl | rfl
  all_goals simp [replyTo, eventStreamToNonceResult, PyObject.get,
    PyObject.contains, PyObject.key, replyWith]

/-- What a frame of the server carries: the text that replaces a response, or
the response itself. -/
theorem toCbor_carries (hM : M.Lawful) {pair : PyObject × ι}
    {frame : ι × Bytes} (h : toCbor M pair = .ok frame) :
    ∃ value, Carries M frame.2 value ∧
      ((∃ text, value = .str text) ∨
        (xformToCborMessage M pair.1 = .ok frame.2 ∧
          pair.1.transformToStreamable = .ok value)) := by
  unfold toCbor at h
  cases hencoded : xformToCborMessage M pair.1 with
  | error ex =>
      rw [hencoded] at h
      obtain ⟨msg, hmsg, h⟩ := Except.bind_eq_ok_iff.mp h
      have htext := Except.mapError_eq_ok_iff.mp hmsg
      rw [← Except.ok.inj h]
      exact ⟨_, carries_of_frame hM rfl htext, .inl ⟨_, rfl⟩⟩
  | ok encoded =>
      rw [hencoded] at h
      obtain ⟨streamable, _, hstreamable, -, -⟩ :=
        xformToCborMessage_eq_ok_iff.mp hencoded
      rw [← Except.ok.inj h]
      exact ⟨streamable, carries_of_frame hM hstreamable hencoded,
        .inr ⟨rfl, hstreamable⟩⟩

theorem exists_carries_of_frames (hM : M.Lawful) {event : ServerEvent ι}
    {frames : List (ι × Bytes)} (hframes : framesFor M event = .ok frames) :
    ∃ values, List.Forall₂ (Carries M) (frames.map Prod.snd) values := by
  cases frames with
  | nil => exact ⟨[], .nil⟩
  | cons frame rest =>
      obtain ⟨rfl, response, -, hframe⟩ := framesFor_eq_cons hframes
      obtain ⟨value, hvalue, -⟩ := toCbor_carries hM hframe
      exact ⟨[value], .cons hvalue .nil⟩

/-- The value in a frame that comes out for a message with a nonce: a text in
the place of a response that cannot be encoded, or the answer. -/
theorem response_cases (hM : M.Lawful) {event : ServerEvent ι}
    {frames : List (ι × Bytes)} (hframes : framesFor M event = .ok frames)
    {frame : ι × Bytes} (hmem : frame ∈ frames) {value : PyObject}
    (hcarries : Carries M frame.2 value) {n : ℤ}
    (hn : nonceOf event.message = some (.int n)) :
    (∃ text, value = .str text) ∨
      ∃ items answer w, event.message = .dict items ∧
        answerOf M (get items "c") (event.api.invoke M items) = .ok answer ∧
        xformToCborMessage M
          (.dict [(.str answer.1, answer.2), (.str "n", .int n)]) =
            .ok frame.2 ∧
        answer.2.transformToStreamable = .ok w ∧
        value = .dict [(.str answer.1, w), (.str "n", .int n)] := by
  cases frames with
  | nil => cases hmem
  | cons first rest =>
      obtain ⟨rfl, response, hresponse, hframe⟩ := framesFor_eq_cons hframes
      obtain rfl := List.mem_singleton.mp hmem
      obtain ⟨carried, hcarried, hvalue⟩ := toCbor_carries hM hframe
      obtain rfl := hcarries.unique hcarried
      rcases hvalue with htext | ⟨hencoded, hstreamable⟩
      · exact .inl htext
      · obtain ⟨items, answer, hmessage, hanswer, hwith⟩ :=
          responseForMessage_eq_ok_iff.mp hresponse
        have hne : answer.1 ≠ "n" := by
          rcases answerOf_key hanswer with hr | he
          · simp [hr]
          · simp [he]
        unfold responseWith at hwith
        rw [hn] at hwith
        dsimp only at hwith hencoded hstreamable
        rw [← hwith] at hencoded hstreamable
        obtain ⟨w, _, hw, hint, hdict⟩ :=
          (transformToStreamable_two_iff hne).mp hstreamable
        rw [← Except.ok.inj hint] at hdict
        exact .inr ⟨items, answer, w, hmessage, hanswer, hencoded, hw,
          hdict.symm⟩

/-- A reply that arrives is the answer to the message of its nonce. -/
theorem answers_of_replyTo (hM : M.Lawful) {event : ServerEvent ι}
    {frames : List (ι × Bytes)} (hframes : framesFor M event = .ok frames)
    {frame : ι × Bytes} (hmem : frame ∈ frames) {value : PyObject}
    (hcarries : Carries M frame.2 value) {n : ℤ}
    (hn : nonceOf event.message = some (.int n)) {nonce : ℕ} {reply : Reply}
    (hreply : replyTo nonce value = some reply) :
    n = nonce ∧ event.Answerable M ∧
      Answers M event.api event.message reply := by
  rcases response_cases hM hframes hmem hcarries hn with
    ⟨text, rfl⟩ | ⟨items, answer, w, hmessage, hanswer, hencoded, hw, rfl⟩
  · cases hreply
  · rw [replyTo_response (answerOf_key hanswer)] at hreply
    split_ifs at hreply with hnonce
    exact ⟨hnonce, ⟨items, _, answer, _, hmessage, hn, hanswer, hencoded⟩,
      items, answer, w, hmessage, hanswer, hw, (Option.some.inj hreply).symm⟩

/-- A client's task goes on after every value that the server sends in answer
to a message of the client. -/
theorem routable_of_response (hM : M.Lawful) {event : ServerEvent ι}
    {frames : List (ι × Bytes)} (hframes : framesFor M event = .ok frames)
    {frame : ι × Bytes} (hmem : frame ∈ frames) {value : PyObject}
    (hcarries : Carries M frame.2 value) {n : ℤ}
    (hn : nonceOf event.message = some (.int n)) : Routable value := by
  rcases response_cases hM hframes hmem hcarries hn with
    ⟨text, rfl⟩ | ⟨items, answer, w, -, hanswer, -, -, rfl⟩
  · exact nofun
  · intro items hitems
    rw [← PyObject.dict.inj hitems]
    rcases answerOf_key hanswer with hr | he
    · simp [PyObject.get, PyObject.key, PyObject.hashable, hr]
    · simp [PyObject.get, PyObject.key, PyObject.hashable, he]

/-- The call made after the events `before` has got a reply. -/
def Connection.Gets (M : Messaging) (conn : Connection)
    (before : List ClientEvent) (method : String)
    (kwargs : List (String × PyObject)) (reply : Reply) : Prop :=
  (∃ later, conn.events = before ++ .invoke method kwargs :: later) ∧
    (NonceWatcher.run M conn.events).futures[
      (NonceWatcher.run M before).initialNonce]? = some (.result reply)

/-! ## The invariant -/

namespace RemoteSystem

variable {proxies : ι → Prop} [DecidableEq ι] {sys sys' : RemoteSystem σ ι}
  {c : ι}

variable (M) in
/-- Every value that replies to a call comes after the call. -/
def Causal (events : List ClientEvent) : Prop :=
  ∀ before value later, events = before ++ .receive value :: later →
    ∀ nonce reply, replyTo nonce value = some reply →
      nonce < (NonceWatcher.run M before).initialNonce

variable (M service s₀ proxies) in
structure Inv (sys : RemoteSystem σ ι) : Prop where
  server : ServerInv M service s₀ sys
  connection : ∀ c, proxies c → (sys.connections c).Inv M
    (streamOf c sys.served) (streamOf c sys.written)
  causal : ∀ c, proxies c → Causal M (sys.connections c).events

theorem inv_initial : Inv M service s₀ proxies (initial s₀) where
  server := serverInv_initial
  connection _ _ := Connection.Inv.initial
  causal _ _ before value later h := by
    cases before with
    | nil => cases h
    | cons first rest => cases h

/-- What the server has written to a client has come out for what it has
handled for that client. -/
theorem ServerInv.exists_event (h : ServerInv M service s₀ sys) {frame : Bytes}
    (hframe : frame ∈ streamOf c sys.written) :
    ∃ earlier message later frames,
      sys.served = earlier ++ (c, message) :: later ∧
      framesFor M ⟨message, c, service.api
        (service.stateAfter M s₀ (earlier.map Prod.snd))⟩ = .ok frames ∧
      (c, frame) ∈ frames := by
  obtain ⟨answered, written, hstart, hframes, hwritten, -⟩ := h.written
  rw [mem_streamOf, hwritten] at hframe
  obtain ⟨frames, hmem, hframe⟩ := List.mem_flatten.mp hframe
  obtain ⟨event, hevent, hresponse⟩ := hframes.exists_of_mem_right hmem
  have hwriter : c = event.writer := framesFor_writer hresponse _ hframe
  obtain ⟨earlier, later, hserved, hapi⟩ :=
    Service.mem_eventsFrom (hstart.subset hevent)
  refine ⟨earlier, event.message, later, frames, ?_, ?_, hframe⟩
  · rw [hwriter]
    exact hserved
  · rw [← hapi, hwriter]
    exact hresponse

/-- What the server has written to a proxy has come out for a message that the
proxy has sent. -/
theorem Inv.exists_sent (h : Inv M service s₀ proxies sys)
    (hproxy : proxies c) {frame : Bytes}
    (hframe : frame ∈ streamOf c sys.written) :
    ∃ earlier message later frames, ∃ nonce : ℕ,
      sys.served = earlier ++ (c, message) :: later ∧
      message ∈ NonceWatcher.sent M (sys.connections c).events ∧
      nonceOf message = some (.int nonce) ∧
      framesFor M ⟨message, c, service.api
        (service.stateAfter M s₀ (earlier.map Prod.snd))⟩ = .ok frames ∧
      (c, frame) ∈ frames := by
  obtain ⟨earlier, message, later, frames, hserved, hframes, hmem⟩ :=
    h.server.exists_event hframe
  obtain ⟨waiting, hsent, -⟩ := (h.connection c hproxy).requests
  have hmessage : message ∈
      NonceWatcher.sent M (sys.connections c).events := by
    rw [hsent]
    apply List.mem_append_left
    rw [mem_streamOf, hserved]
    exact List.mem_append_right _ List.mem_cons_self
  obtain ⟨n, hn, -, -⟩ := nonceOf_mem_sentFrom hmessage
  exact ⟨earlier, message, later, frames, n, hserved, hmessage, hn, hframes,
    hmem⟩

/-- A reply on its way to a client, or there already, answers a message that
the client has sent. -/
theorem Inv.exists_answer (hM : M.Lawful) (h : Inv M service s₀ proxies sys)
    (hproxy : proxies c) {frame : Bytes}
    (hframe : frame ∈ streamOf c sys.written) {value : PyObject}
    (hcarries : Carries M frame value) {nonce : ℕ} {reply : Reply}
    (hreply : replyTo nonce value = some reply) :
    ∃ earlier message later, sys.served = earlier ++ (c, message) :: later ∧
      nonceOf message = some (.int nonce) ∧
      message ∈ NonceWatcher.sent M (sys.connections c).events ∧
      ServerEvent.Answerable M ⟨message, c, service.api
        (service.stateAfter M s₀ (earlier.map Prod.snd))⟩ ∧
      Answers M (service.api
        (service.stateAfter M s₀ (earlier.map Prod.snd))) message reply := by
  obtain ⟨earlier, message, later, frames, n, hserved, hsent, hn, hframes,
    hmem⟩ := h.exists_sent hproxy hframe
  obtain ⟨hsame, hanswerable, hanswers⟩ :=
    answers_of_replyTo hM hframes hmem hcarries hn hreply
  rw [Int.ofNat.inj hsame] at hn
  exact ⟨earlier, message, later, hserved, hn, hsent, hanswerable, hanswers⟩

theorem update_connections (sys : RemoteSystem σ ι) (c c' : ι)
    (conn : Connection) :
    (sys.update c conn).connections c' =
      if c' = c then conn else sys.connections c' := by
  simp [update, Function.update_apply]

/-- A step at one connection concerns no other one. -/
theorem Inv.of_others (h : Inv M service s₀ proxies sys)
    (hserver : ServerInv M service s₀ sys')
    (hothers : ∀ c', c' ≠ c → sys'.connections c' = sys.connections c' ∧
      streamOf c' sys'.served = streamOf c' sys.served ∧
      streamOf c' sys'.written = streamOf c' sys.written)
    (hconn : proxies c → (sys'.connections c).Inv M
      (streamOf c sys'.served) (streamOf c sys'.written))
    (hcausal : proxies c → Causal M (sys'.connections c).events) :
    Inv M service s₀ proxies sys' where
  server := hserver
  connection c' hproxy := by
    by_cases hsame : c' = c
    · rw [hsame] at hproxy ⊢
      exact hconn hproxy
    · obtain ⟨hconnection, hserved, hwritten⟩ := hothers c' hsame
      rw [hconnection, hserved, hwritten]
      exact h.connection c' hproxy
  causal c' hproxy := by
    by_cases hsame : c' = c
    · rw [hsame] at hproxy ⊢
      exact hcausal hproxy
    · rw [(hothers c' hsame).1]
      exact h.causal c' hproxy

theorem Inv.update (h : Inv M service s₀ proxies sys) {conn : Connection}
    (hconn : proxies c → conn.Inv M (streamOf c sys.served)
      (streamOf c sys.written))
    (hcausal : proxies c → Causal M conn.events) :
    Inv M service s₀ proxies (sys.update c conn) := by
  apply h.of_others (h.server.update c conn)
  · intro c' hne
    rw [update_connections, if_neg hne]
    exact ⟨rfl, rfl, rfl⟩
  · rw [update_connections, if_pos rfl]
    exact hconn
  · rw [update_connections, if_pos rfl]
    exact hcausal

theorem Causal.append {events : List ClientEvent} (h : Causal M events)
    {event : ClientEvent}
    (hevent : ∀ value, event = .receive value → ∀ nonce reply,
      replyTo nonce value = some reply →
        nonce < (NonceWatcher.run M events).initialNonce) :
    Causal M (events ++ [event]) := by
  intro before value later hsplit nonce reply hreply
  rcases List.eq_nil_or_concat later with rfl | ⟨later', last, rfl⟩
  · have hparts := List.append_inj' hsplit rfl
    rw [← hparts.1]
    exact hevent value (List.cons.inj hparts.2).1 nonce reply hreply
  · rw [List.concat_eq_append, ← List.cons_append, ← List.append_assoc]
      at hsplit
    have hparts := List.append_inj' hsplit rfl
    exact h before value later' hparts.1 nonce reply hreply

/-- The server handles a message of one connection. -/
theorem Inv.handle (hM : M.Lawful) (h : Inv M service s₀ proxies sys)
    (hserving : sys.serving = true) {message : PyObject} {rest : Bytes}
    (hread : readMessage M (sys.connections c).toServer =
      .ok (message, rest)) :
    Inv M service s₀ proxies (sys.handle M service c message rest) := by
  have hserver := h.server.handle hserving c message rest
  have hrequest : proxies c → Connection.Inv M
      { sys.connections c with toServer := rest }
      (streamOf c (sys.served ++ [(c, message)]))
      (streamOf c sys.written) := by
    intro hproxy
    rw [streamOf_append, streamOf_singleton_self]
    exact (h.connection c hproxy).request hread
  have hserved : ∀ c' : ι, c' ≠ c →
      streamOf c' (sys.served ++ [(c, message)]) = streamOf c' sys.served := by
    intro c' hne
    rw [streamOf_append, streamOf_singleton_ne hne.symm, List.append_nil]
  unfold RemoteSystem.handle at hserver ⊢
  dsimp only at hserver ⊢
  split at hserver
  next frames hframes =>
      have hwriter := framesFor_writer hframes
      obtain ⟨values, hcarries⟩ := exists_carries_of_frames hM hframes
      apply h.of_others hserver
      · intro c' hne
        rw [update_connections, if_neg hne]
        refine ⟨rfl, hserved c' hne, ?_⟩
        unfold RemoteSystem.update
        dsimp only
        rw [streamOf_append, streamOf_of_ne hwriter hne.symm, List.append_nil]
      · intro hproxy
        rw [update_connections, if_pos rfl]
        unfold RemoteSystem.update
        dsimp only
        rw [streamOf_append _ sys.written, streamOf_of_all hwriter]
        exact (hrequest hproxy).reply hcarries
      · intro hproxy
        rw [update_connections, if_pos rfl]
        exact h.causal c hproxy
  next e hframe =>
      apply h.of_others hserver
      · intro c' hne
        rw [update_connections, if_neg hne]
        exact ⟨rfl, hserved c' hne, rfl⟩
      · intro hproxy
        rw [update_connections, if_pos rfl]
        exact hrequest hproxy
      · intro hproxy
        rw [update_connections, if_pos rfl]
        exact h.causal c hproxy

theorem Inv.step (hM : M.Lawful) (h : Inv M service s₀ proxies sys)
    (hstep : Step M service proxies sys sys') :
    Inv M service s₀ proxies sys' := by
  cases hstep with
  | act c event hproxy hlocal =>
      apply h.update
      · intro _
        exact (h.connection c hproxy).act_local hM (received_of_isLocal hlocal)
      · intro _
        apply (h.causal c hproxy).append
        rintro value rfl
        exact hlocal.elim
  | @deliver c value rest hproxy _ hread =>
      apply h.update
      · intro _
        exact (h.connection c hproxy).deliver hM hread
      · intro _
        apply (h.causal c hproxy).append
        intro value' hvalue nonce reply hreply
        obtain rfl := ClientEvent.receive.inj hvalue
        -- the value is carried by a frame that the server has written
        obtain ⟨waiting, hvalues, hwaiting⟩ :=
          (h.connection c hproxy).responses
        obtain ⟨later, rfl, -⟩ := hwaiting.read hread
        have hmem : value ∈ received (sys.connections c).events ++
            value :: later := List.mem_append_right _ List.mem_cons_self
        obtain ⟨frame, hframe, hcarries⟩ := hvalues.exists_of_mem_right hmem
        obtain ⟨_, message, _, -, hnonce, hsent, -, -⟩ :=
          h.exists_answer hM hproxy hframe hcarries hreply
        obtain ⟨n, hn, -, hlt⟩ := nonceOf_mem_sentFrom hsent
        rw [hn] at hnonce
        have heq := PyObject.int.inj (Option.some.inj hnonce)
        rw [← Int.ofNat.inj heq]
        exact hlt
  | @hangUp c failure hproxy _ hread hended =>
      apply h.update
      · intro _
        exact (h.connection c hproxy).act_local hM rfl
      · intro _
        apply (h.causal c hproxy).append
        rintro value hvalue
        cases hvalue
  | serve c hserving hread => exact h.handle hM hserving hread
  | close c sent received =>
      apply h.update
      · intro hproxy
        exact (h.connection c hproxy).close sent received
      · intro hproxy
        exact h.causal c hproxy
  | intrude c bytes hother =>
      apply h.update
      · intro hproxy
        exact absurd hproxy hother
      · intro hproxy
        exact absurd hproxy hother

theorem inv_of_run (hM : M.Lawful)
    (hrun : Run M service proxies (initial s₀) sys) :
    Inv M service s₀ proxies sys := by
  induction hrun with
  | refl => exact inv_initial
  | tail _ hstep ih => exact ih.step hM hstep

/-! ## Answers -/

/-- The history of a client's calls is the beginning of what it has sent. -/
theorem Inv.served_prefix (h : Inv M service s₀ proxies sys)
    (hproxy : proxies c) :
    streamOf c sys.served <+:
      NonceWatcher.sent M (sys.connections c).events := by
  obtain ⟨waiting, hsent, -⟩ := (h.connection c hproxy).requests
  rw [hsent]
  exact List.prefix_append _ _

theorem Inv.served_distinct (h : Inv M service s₀ proxies sys)
    (hproxy : proxies c) :
    (streamOf c sys.served).Pairwise fun message message' =>
      nonceOf message ≠ nonceOf message' :=
  (NonceWatcher.sent_pairwise _).sublist (h.served_prefix hproxy).sublist

/-- A result is the answer to the call's own message, which has been handled
once. -/
theorem Inv.answered (hM : M.Lawful) (h : Inv M service s₀ proxies sys)
    (hproxy : proxies c) {before : List ClientEvent} {method : String}
    {kwargs : List (String × PyObject)} {reply : Reply}
    (hgets : (sys.connections c).Gets M before method kwargs reply) :
    ∃ earlier message after, sys.served = earlier ++ (c, message) :: after ∧
      (callMessage method (NonceWatcher.run M before).initialNonce
        kwargs).transformToStreamable = .ok message ∧
      ServerEvent.Answerable M ⟨message, c, service.api
        (service.stateAfter M s₀ (earlier.map Prod.snd))⟩ ∧
      Answers M (service.api
        (service.stateAfter M s₀ (earlier.map Prod.snd))) message reply := by
  obtain ⟨⟨later, hcall⟩, hreply⟩ := hgets
  obtain ⟨value, hreceived, hvalue⟩ := exists_receive_of_result hreply
  obtain ⟨waiting, hvalues, -⟩ := (h.connection c hproxy).responses
  have hmem : value ∈ received (sys.connections c).events ++ waiting :=
    List.mem_append_left _ (mem_received.mpr hreceived)
  obtain ⟨frame, hframe, hcarries⟩ := hvalues.exists_of_mem_right hmem
  obtain ⟨earlier, message, after, hserved, hnonce, hsent, hanswers⟩ :=
    h.exists_answer hM hproxy hframe hcarries hvalue
  rw [hcall] at hsent
  exact ⟨earlier, message, after, hserved,
    NonceWatcher.sent_eq_of_nonce hsent hnonce, hanswers⟩

/-- In every state that clients and server reach together, the server has
handled each client's messages in the order of its calls and none twice; and
every result that a call has got is the answer to the call's own message in the
state that the messages before it have left, whoever sent them. -/
theorem calls_answered_once (hM : M.Lawful)
    (hrun : Run M service proxies (initial s₀) sys) (hproxy : proxies c) :
    streamOf c sys.served <+:
        NonceWatcher.sent M (sys.connections c).events ∧
      ∀ before method kwargs reply,
        (sys.connections c).Gets M before method kwargs reply →
          ∃ earlier message after,
            sys.served = earlier ++ (c, message) :: after ∧
            (callMessage method (NonceWatcher.run M before).initialNonce
              kwargs).transformToStreamable = .ok message ∧
            Answers M (service.api (service.stateAfter M s₀
              (earlier.map Prod.snd))) message reply ∧
            ∀ other, (c, other) ∈ earlier ++ after →
              nonceOf message ≠ nonceOf other := by
  have h := inv_of_run hM hrun
  refine ⟨h.served_prefix hproxy, ?_⟩
  intro before method kwargs reply hgets
  obtain ⟨earlier, message, after, hserved, hmessage, -, hanswers⟩ :=
    h.answered hM hproxy hgets
  refine ⟨earlier, message, after, hserved, hmessage, hanswers, ?_⟩
  exact streamOf_pairwise_split (fun _ _ hne => hne.symm)
    (h.served_distinct hproxy) hserved

open Reference in
theorem calls_answered_once_counter :
    ∃ earlier message after,
      twoAnswered.served = earlier ++ (1, message) :: after ∧
      (callMessage "f" 0 []).transformToStreamable = .ok message ∧
      Answers cborMessaging (counter.api (counter.stateAfter cborMessaging 0
        (earlier.map Prod.snd))) message (.value (.int 1)) ∧
      ∀ other, (1, other) ∈ earlier ++ after →
        nonceOf message ≠ nonceOf other :=
  (calls_answered_once cborMessaging_lawful
    (oneAnswered_run.trans twoAnswered_run) trivial).2 [] "f" [] _
      ⟨⟨_, rfl⟩, rfl⟩

/-! ## Order -/

theorem served_prefix_of_step (hstep : Step M service proxies sys sys') :
    sys.served <+: sys'.served := by
  cases hstep with
  | serve c hserving hread =>
      unfold RemoteSystem.handle
      dsimp only
      split
      all_goals exact List.prefix_append _ _
  | _ => exact List.prefix_refl _

theorem served_prefix_of_run (hrun : Run M service proxies sys sys') :
    sys.served <+: sys'.served := by
  induction hrun with
  | refl => exact List.prefix_refl _
  | tail _ hstep ih => exact ih.trans (served_prefix_of_step hstep)

theorem events_prefix_of_step (hstep : Step M service proxies sys sys')
    (c : ι) : (sys.connections c).events <+: (sys'.connections c).events := by
  have hupdate : ∀ {sys : RemoteSystem σ ι} (c' : ι) {conn : Connection},
      (sys.connections c').events <+: conn.events →
        (sys.connections c).events <+:
          ((sys.update c' conn).connections c).events := by
    intro sys c' conn hconn
    rw [update_connections]
    split_ifs with hsame
    · rw [hsame]
      exact hconn
    · exact List.prefix_refl _
  cases hstep with
  | act c' event => exact hupdate c' (List.prefix_append _ _)
  | deliver c' => exact hupdate c' (List.prefix_append _ _)
  | hangUp c' => exact hupdate c' (List.prefix_append _ _)
  | serve c' =>
      unfold RemoteSystem.handle
      dsimp only
      split
      all_goals exact hupdate c' (List.prefix_refl _)
  | close c' => exact hupdate c' (List.prefix_refl _)
  | intrude c' => exact hupdate c' (List.prefix_refl _)

theorem events_prefix_of_run (hrun : Run M service proxies sys sys') (c : ι) :
    (sys.connections c).events <+: (sys'.connections c).events := by
  induction hrun with
  | refl => exact List.prefix_refl _
  | tail _ hstep ih => exact ih.trans (events_prefix_of_step hstep c)

/-- What had been handled when a call was made stands before the call's message
in the history. -/
theorem Inv.served_before (h : Inv M service s₀ proxies sys)
    (hlater : Run M service proxies sys sys') (hproxy : proxies c)
    {between : List ClientEvent} {method : String}
    {kwargs : List (String × PyObject)} {message : PyObject}
    (hmessage : (callMessage method (NonceWatcher.run M
      ((sys.connections c).events ++ between)).initialNonce
        kwargs).transformToStreamable = .ok message)
    {earlier after : List (ι × PyObject)}
    (hserved : sys'.served = earlier ++ (c, message) :: after) :
    sys.served <+: earlier := by
  -- the message had not been handled
  have hnew : (c, message) ∉ sys.served := by
    intro hmem
    have hsent := (h.served_prefix hproxy).subset (mem_streamOf.mpr hmem)
    obtain ⟨n, hn, -, hlt⟩ := nonceOf_mem_sentFrom hsent
    rw [nonceOf_callMessage hmessage] at hn
    have heq := Int.ofNat.inj (PyObject.int.inj (Option.some.inj hn))
    have hle := (NonceWatcher.run M
      (sys.connections c).events).initialNonce_le_foldl (M := M) between
    rw [← run_append, heq] at hle
    exact absurd hlt (not_lt.mpr hle)
  obtain ⟨more, hmore⟩ := served_prefix_of_run hlater
  rw [hserved] at hmore
  rcases List.append_eq_append_iff.mp hmore with
    ⟨middle, hearlier, -⟩ | ⟨rest, hbefore, hrest⟩
  · rw [hearlier]
    exact List.prefix_append _ _
  · cases rest with
    | nil =>
        rw [hbefore, List.append_nil]
    | cons first rest =>
        rw [List.cons_append] at hrest
        rw [hbefore, ← (List.cons.inj hrest).1] at hnew
        exact absurd (List.mem_append_right _ List.mem_cons_self) hnew

end RemoteSystem

end LedgerSim
