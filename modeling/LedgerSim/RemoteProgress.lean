import LedgerSim.IdleConnection

/-!
# Calls complete

Whatever has happened, as long as the server goes on and no method fails to
return, what an open connection carries can be handled and delivered until
nothing is on the way, and a call that is made then comes back with what the API
answers in the state that it finds.
-/

namespace LedgerSim

open PyObject NonceWatcher

variable {M : Messaging} {σ ι : Type} {service : Service σ} {s₀ : σ}

namespace NonceWatcher

variable {events : List ClientEvent}

/-- A call that is answered at once. -/
theorem result_of_answer (hrunning : (run M events).task = .running)
    (method : String) (kwargs : List (String × PyObject)) {value : PyObject}
    {reply : Reply}
    (hreply : replyTo (run M events).initialNonce value = some reply) :
    (run M (events ++ [.invoke method kwargs, .receive value])).futures[
      (run M events).initialNonce]? = some (.result reply) := by
  have hbefore : (run M events).Consistent := run_consistent events
  obtain ⟨state, written, -, hinvoke⟩ :=
    invokeRemote_of_running (M := M) hbefore hrunning method kwargs
  have hnext : run M (events ++ [.invoke method kwargs]) = _ :=
    (run_append _ _).trans hinvoke
  have hcalled : (run M (events ++ [.invoke method kwargs])).Consistent :=
    run_consistent _
  have hsplit : events ++ [.invoke method kwargs, .receive value] =
      (events ++ [.invoke method kwargs]) ++ [.receive value] := by
    rw [List.append_assoc]
    rfl
  have htask : (run M (events ++ [.invoke method kwargs])).task = .running := by
    rw [hnext]
  have hreceive := receive_of_reply M htask hreply
  have hnumber := hbefore.next hrunning
  have hmem : ((run M events).initialNonce, (run M events).initialNonce) ∈
      (run M (events ++ [.invoke method kwargs])).nonceToFuture := by
    rw [hnext, hnumber]
    exact List.mem_append_right _ List.mem_cons_self
  have hpending : (run M (events ++ [.invoke method kwargs])).futures[
      (run M events).initialNonce]? = some .pending := by
    rw [hnext, hnumber]
    exact List.getElem?_concat_length
  rw [hcalled.futureOf_of_mem hmem] at hreceive
  rw [hsplit, run_append, List.foldl_cons, List.foldl_nil, step, hreceive]
  exact complete_futures_self hpending _

theorem initialNonce_receives (events : List ClientEvent)
    (values : List PyObject) :
    (run M (events ++ values.map .receive)).initialNonce =
      (run M events).initialNonce := by
  induction values using List.reverseRecOn with
  | nil => rw [List.map_nil, List.append_nil]
  | append_singleton values value ih =>
      rw [List.map_append, List.map_singleton, ← List.append_assoc, run_append,
        ← ih]
      exact (receive_keeps M value).2

end NonceWatcher

theorem readMessage_of_carries {frame : Bytes} {message : PyObject}
    (h : Carries M frame message) :
    readMessage M frame = .ok (message, []) := by
  obtain ⟨blob, hframe, hloads⟩ := h
  have hread := readMessage_frame hframe hloads []
  rw [List.append_nil] at hread
  exact hread

/-! ## Methods that return -/

/-- No method fails to return while the messages are handled one after the
other. -/
def Service.Returns (M : Messaging) (service : Service σ) :
    σ → List PyObject → Prop
  | _, [] => True
  | s, message :: later =>
      (∀ items, message = .dict items →
        (service.api s).invoke M items ≠ some .interrupted) ∧
      service.Returns M (service.after M s message) later

theorem interrupted_of_response {api : Api} {message : PyObject}
    (h : responseForMessage M api message = .error .interrupted) :
    ∃ items, message = .dict items ∧
      api.invoke M items = some .interrupted := by
  cases message with
  | dict items =>
      refine ⟨items, rfl, ?_⟩
      cases hanswer : answerOf M (PyObject.get items "c")
          (api.invoke M items) with
      | ok answer =>
          have hresponse := responseForMessage_eq_ok_iff.mpr
            ⟨items, answer, rfl, hanswer, rfl⟩
          rw [hresponse] at h
          cases h
      | error failure =>
          unfold responseForMessage at h
          dsimp only at h
          rw [hanswer] at h
          obtain rfl : failure = .interrupted := Except.error.inj h
          unfold answerOf at hanswer
          split at hanswer
          case h_4 hinvoke => exact hinvoke
          all_goals cases hanswer
  | _ => cases h

theorem response_of_interrupted {api : Api} {message : PyObject}
    {items : List (PyObject × PyObject)} (hmessage : message = .dict items)
    (h : api.invoke M items = some .interrupted) :
    responseForMessage M api message = .error .interrupted := by
  have hanswer : answerOf M (PyObject.get items "c") (api.invoke M items) =
      .error .interrupted := by
    rw [h]
    rfl
  rw [hmessage]
  unfold responseForMessage
  dsimp only
  rw [hanswer]
  rfl

/-- Only a method that does not return stops the loop. -/
theorem exists_framesFor (hdrops : M.DropsItems) {event : ServerEvent ι}
    (hreturns : ∀ items, event.message = .dict items →
      event.api.invoke M items ≠ some .interrupted) :
    ∃ frames, framesFor M event = .ok frames := by
  cases hresponse : responseForMessage M event.api event.message with
  | ok response =>
      rcases toCbor_ok_or_unencodable (M := M) (response, event.writer) with
        ⟨frame, hframe⟩ | hunencodable
      · exact ⟨_, framesFor_of_toCbor hresponse hframe⟩
      · exact ⟨_, framesFor_of_unencodable hdrops hresponse hunencodable⟩
  | error failure =>
      cases failure with
      | raised kind => exact ⟨_, framesFor_of_raised hdrops hresponse⟩
      | interrupted =>
          obtain ⟨items, hmessage, hinvoke⟩ :=
            interrupted_of_response hresponse
          exact absurd hinvoke (hreturns items hmessage)

/-! ## A connection comes to rest -/

theorem Connection.act_receive_toServer (conn : Connection)
    (value : PyObject) :
    (conn.act M (.receive value)).toServer = conn.toServer := by
  unfold Connection.act
  dsimp only
  rw [step, (receive_keeps M value).1, List.drop_length, List.flatten_nil,
    List.append_nil, ite_self]

namespace RemoteSystem

variable {proxies : ι → Prop} [DecidableEq ι] {sys : RemoteSystem σ ι} {c : ι}

variable (M) in
/-- The messages that a client has sent and the server has not handled. -/
def unserved (sys : RemoteSystem σ ι) (c : ι) : List PyObject :=
  (NonceWatcher.sent M (sys.connections c).events).drop
    (streamOf c sys.served).length

theorem update_self (sys : RemoteSystem σ ι) (c : ι) (conn : Connection) :
    (sys.update c conn).connections c = conn := by
  rw [update_connections, if_pos rfl]

theorem unserved_of_initial (sys : RemoteSystem σ ι)
    (hnew : sys.connections c = Connection.initial) :
    sys.unserved M c = [] := by
  unfold unserved
  rw [hnew]
  exact List.drop_nil

/-- The server after a message. -/
theorem handle_of_frames {message : PyObject} {frames : List (ι × Bytes)}
    (hframes : framesFor M ⟨message, c, service.api sys.state⟩ = .ok frames)
    (rest : Bytes) :
    sys.handle M service c message rest =
      RemoteSystem.update
        { sys with
          state := service.after M sys.state message
          served := sys.served ++ [(c, message)]
          written := sys.written ++ frames } c
        ({ sys.connections c with toServer := rest }.reply
          (frames.map Prod.snd)) := by
  unfold handle
  rw [hframes]

/-- The server handles what has been sent to it. -/
theorem exists_served {waiting : List PyObject} (hdrops : M.DropsItems)
    (hserving : sys.serving = true)
    (hopen : (sys.connections c).isOpen = true)
    (hwaiting : InFlight M true (sys.connections c).toServer waiting)
    (hreturns : service.Returns M sys.state waiting) :
    ∃ sys', Run M service proxies sys sys' ∧ sys'.serving = true ∧
      sys'.state = service.stateAfter M sys.state waiting ∧
      sys'.served = sys.served ++ waiting.map (Prod.mk c) ∧
      (sys'.connections c).isOpen = true ∧
      (sys'.connections c).toServer = [] ∧
      (sys'.connections c).events = (sys.connections c).events ∧
      ∀ c' ≠ c, sys'.connections c' = sys.connections c' := by
  induction waiting generalizing sys with
  | nil =>
      exact ⟨sys, .refl, hserving, rfl, (List.append_nil _).symm, hopen,
        hwaiting.bytes_eq_nil, rfl, fun _ _ => rfl⟩
  | cons message later ih =>
      obtain ⟨rest, hread, hrest⟩ := hwaiting.exists_read
      obtain ⟨frames, hframes⟩ :=
        @exists_framesFor M ι hdrops ⟨message, c, service.api sys.state⟩
          hreturns.1
      have hhandle := handle_of_frames hframes rest
      have hstep : Step M service proxies sys
          (sys.handle M service c message rest) := .serve c hserving hread
      generalize sys.handle M service c message rest = next at hhandle hstep
      have hconn : next.connections c =
          { sys.connections c with toServer := rest }.reply
            (frames.map Prod.snd) := by
        rw [hhandle, update_self]
      have hstate : next.state = service.after M sys.state message := by
        rw [hhandle]
        rfl
      obtain ⟨sys', hrun, hserving', hstate', hserved, hopen', hempty, hevents,
          hothers⟩ := @ih next
        (by rw [hhandle]; exact hserving)
        (by rw [hconn]; exact hopen)
        (by rw [hconn]; exact hrest)
        (by rw [hstate]; exact hreturns.2)
      refine ⟨sys', .head hstep hrun, hserving', ?_, ?_, hopen', hempty, ?_, ?_⟩
      · rw [hstate', hstate]
        rfl
      · rw [hserved, hhandle]
        exact List.append_assoc _ _ _
      · rw [hevents, hconn]
        rfl
      · intro c' hne
        rw [hothers c' hne, hhandle, update_connections, if_neg hne]

/-- The client receives what has been sent to it. -/
theorem exists_delivered {waiting : List PyObject} (hM : M.Lawful)
    (hdrops : M.DropsItems) (hrun : Run M service proxies (initial s₀) sys)
    (hproxy : proxies c) (hopen : (sys.connections c).isOpen = true)
    (hempty : (sys.connections c).toServer = [])
    (hwaiting : InFlight M true (sys.connections c).toClient waiting) :
    ∃ sys', Run M service proxies sys sys' ∧
      sys'.serving = sys.serving ∧ sys'.state = sys.state ∧
      sys'.served = sys.served ∧ (sys'.connections c).Idle ∧
      (sys'.connections c).events =
        (sys.connections c).events ++ waiting.map .receive ∧
      ∀ c' ≠ c, sys'.connections c' = sys.connections c' := by
  induction waiting generalizing sys with
  | nil =>
      refine ⟨sys, .refl, rfl, rfl, rfl, ⟨hopen, hempty, hwaiting.bytes_eq_nil⟩,
        ?_, fun _ _ => rfl⟩
      rw [List.map_nil, List.append_nil]
  | cons value later ih =>
      obtain ⟨rest, hread, hrest⟩ := hwaiting.exists_read
      have hstep : Step M service proxies sys _ :=
        .deliver c hproxy (runs_of_run hM hdrops hrun c hproxy hopen) hread
      obtain ⟨sys', hlater, hserving, hstate, hserved, hidle, hevents,
          hothers⟩ :=
        @ih (sys.update c { (sys.connections c).act M (.receive value) with
            toClient := rest }) (hrun.tail hstep)
          (by rw [update_self]; exact hopen)
          (by
            rw [update_self]
            exact (Connection.act_receive_toServer _ _).trans hempty)
          (by rw [update_self]; exact hrest)
      refine ⟨sys', .head hstep hlater, hserving, hstate, hserved, hidle, ?_,
        ?_⟩
      · rw [hevents, update_self, List.map_cons]
        exact List.append_assoc _ _ _
      · intro c' hne
        rw [hothers c' hne, update_connections, if_neg hne]

/-- An open connection can come to rest: the server handles all its messages,
and everything arrives that comes out for them. -/
theorem exists_idle (hM : M.Lawful) (hdrops : M.DropsItems)
    (hrun : Run M service proxies (initial s₀) sys) (hproxy : proxies c)
    (hserving : sys.serving = true)
    (hopen : (sys.connections c).isOpen = true)
    (hreturns : service.Returns M sys.state (sys.unserved M c)) :
    ∃ sys' : RemoteSystem σ ι, ∃ values : List PyObject,
      Run M service proxies sys sys' ∧ sys'.serving = true ∧
      sys'.state = service.stateAfter M sys.state (sys.unserved M c) ∧
      sys'.served = sys.served ++ (sys.unserved M c).map (Prod.mk c) ∧
      (sys'.connections c).Idle ∧
      (sys'.connections c).events =
        (sys.connections c).events ++ values.map .receive ∧
      ∀ c' ≠ c, sys'.connections c' = sys.connections c' := by
  obtain ⟨requests, hsent, hrequests⟩ :=
    ((inv_of_run hM hrun).connection c hproxy).requests
  have hunserved : sys.unserved M c = requests := by
    unfold unserved
    rw [hsent, List.drop_left]
  rw [hunserved] at hreturns ⊢
  rw [hopen] at hrequests
  obtain ⟨sys₁, hrun₁, hserving₁, hstate₁, hserved₁, hopen₁, hempty₁, hevents₁,
      hothers₁⟩ :=
    @exists_served M σ ι service proxies _ sys c requests hdrops hserving hopen
      hrequests hreturns
  have hreached := hrun.trans hrun₁
  obtain ⟨responses, -, hresponses⟩ :=
    ((inv_of_run hM hreached).connection c hproxy).responses
  rw [hopen₁] at hresponses
  obtain ⟨sys₂, hrun₂, hserving₂, hstate₂, hserved₂, hidle, hevents₂,
      hothers₂⟩ := exists_delivered hM hdrops hreached hproxy hopen₁ hempty₁
    hresponses
  refine ⟨sys₂, responses, hrun₁.trans hrun₂, hserving₂.trans hserving₁,
    hstate₂.trans hstate₁, hserved₂.trans hserved₁, hidle, ?_, ?_⟩
  · rw [hevents₂, hevents₁]
  · intro c' hne
    rw [hothers₂ c' hne, hothers₁ c' hne]

/-- From every state in which the server goes on, the calls that have been made
on an open connection can be completed, all of them and without anything
happening elsewhere. -/
theorem calls_complete (hM : M.Lawful) (hdrops : M.DropsItems)
    (hrun : Run M service proxies (initial s₀) sys) (hproxy : proxies c)
    (hserving : sys.serving = true)
    (hopen : (sys.connections c).isOpen = true)
    (hreturns : service.Returns M sys.state (sys.unserved M c)) :
    ∃ sys' : RemoteSystem σ ι, ∃ values : List PyObject,
      Run M service proxies sys sys' ∧ sys'.serving = true ∧
      (∀ c' ≠ c, sys'.connections c' = sys.connections c') ∧
      (sys'.connections c).events =
        (sys.connections c).events ++ values.map .receive ∧
      ∀ before method kwargs later,
        (sys.connections c).events =
            before ++ .invoke method kwargs :: later →
          M.Encodes (callMessage method
            (NonceWatcher.run M before).initialNonce kwargs) →
          Completed M service s₀ sys' c before method kwargs := by
  obtain ⟨sys', values, hlater, hserving', -, -, hidle, hevents, hothers⟩ :=
    exists_idle hM hdrops hrun hproxy hserving hopen hreturns
  refine ⟨sys', values, hlater, hserving', hothers, hevents, ?_⟩
  intro before method kwargs later hcall hencoded
  rw [hcall, List.append_assoc, List.cons_append] at hevents
  have hreached := hrun.trans hlater
  exact (inv_of_run hM hreached).completed_of_idle hM hproxy hserving' hidle
    (runs_of_run hM hdrops hreached c hproxy hidle.isOpen) hevents hencoded

end RemoteSystem

namespace Reference

/-- The call of `calledBy` and its answer are still on the way. -/
theorem calls_complete_counter :
    ∃ sys' : RemoteSystem ℕ ℕ, ∃ values : List PyObject,
      CounterRun (calledBy 0 (RemoteSystem.initial 0)) sys' ∧
      sys'.serving = true ∧
      (∀ c' ≠ 0, sys'.connections c' = Connection.initial) ∧
      (sys'.connections 0).events =
        [.invoke "f" []] ++ values.map .receive ∧
      RemoteSystem.Completed cborMessaging counter 0 sys' 0 [] "f" [] := by
  have hrun : CounterRun (RemoteSystem.initial 0)
      (calledBy 0 (RemoteSystem.initial 0)) :=
    .single (.act 0 (.invoke "f" []) trivial trivial)
  have hreturns : counter.Returns cborMessaging
      (calledBy 0 (RemoteSystem.initial 0)).state
      ((calledBy 0 (RemoteSystem.initial 0)).unserved cborMessaging 0) := by
    refine ⟨?_, trivial⟩
    rintro items hitems
    obtain rfl := PyObject.dict.inj hitems
    exact nofun
  obtain ⟨sys', values, hlater, hserving, hothers, hevents, hcompleted⟩ :=
    RemoteSystem.calls_complete cborMessaging_lawful cborMessaging_dropsItems
      hrun (c := 0) trivial rfl rfl hreturns
  refine ⟨sys', values, hlater, hserving, ?_, hevents,
    hcompleted [] "f" [] [] rfl ⟨_, rfl⟩⟩
  intro c' hne
  rw [hothers c' hne]
  exact (RemoteSystem.update_connections _ _ _ _).trans (if_neg hne)

end Reference

/-! ## A call that is made now -/

namespace RemoteSystem

variable {proxies : ι → Prop} [DecidableEq ι] {sys : RemoteSystem σ ι} {c : ι}

/-- On an idle connection a call is all that is on the way to the server. -/
theorem Inv.call_inFlight (hM : M.Lawful) (h : Inv M service s₀ proxies sys)
    (hproxy : proxies c) (hidle : (sys.connections c).Idle)
    (hrunning : (NonceWatcher.run M (sys.connections c).events).task =
      .running) {method : String} {kwargs : List (String × PyObject)}
    {message : PyObject}
    (hmessage : (callMessage method
      (NonceWatcher.run M (sys.connections c).events).initialNonce
        kwargs).transformToStreamable = .ok message)
    {frame : Bytes}
    (hcall : xformToCborMessage M (callMessage method
      (NonceWatcher.run M (sys.connections c).events).initialNonce kwargs) =
        .ok frame) :
    InFlight M true
      ((sys.connections c).act M (.invoke method kwargs)).toServer
      [message] := by
  obtain ⟨old, hold, hwaiting⟩ := (h.connection c hproxy).requests
  rw [hidle.isOpen, hidle.toServer] at hwaiting
  rw [hwaiting.eq_nil, List.append_nil] at hold
  obtain ⟨waiting, hsent, hwaiting⟩ :=
    (h.connection c hproxy).act hM (.invoke method kwargs)
  have hsends : (NonceWatcher.run M (sys.connections c).events).sends M
      (.invoke method kwargs) = [message] := by
    unfold NonceWatcher.sends
    dsimp only
    rw [hrunning, hmessage, hcall]
  have hevents : ((sys.connections c).act M (.invoke method kwargs)).events =
      (sys.connections c).events ++ [.invoke method kwargs] := rfl
  rw [hevents, sent_append, hsends, hold] at hsent
  rw [← List.append_cancel_left hsent, hidle.isOpen] at hwaiting
  exact hwaiting

/-- A message that is all that is on the way is answered. -/
theorem exists_answered (hM : M.Lawful) (hproxy : proxies c)
    (hserving : sys.serving = true)
    (hopen : (sys.connections c).isOpen = true)
    (hrunning : (NonceWatcher.run M (sys.connections c).events).task =
      .running) (hclient : (sys.connections c).toClient = [])
    {items : List (PyObject × PyObject)}
    (hwaiting : InFlight M true (sys.connections c).toServer [.dict items])
    {nonce : ℕ} (hnonce : nonceOf (.dict items) = some (.int nonce))
    {answer : String × PyObject}
    (hanswer : answerOf M (PyObject.get items "c")
      ((service.api sys.state).invoke M items) = .ok answer)
    {value : PyObject} (hvalue : answer.2.transformToStreamable = .ok value)
    {frame : Bytes}
    (hframe : xformToCborMessage M
      (.dict [(.str answer.1, answer.2), (.str "n", .int nonce)]) =
        .ok frame) :
    ∃ sys', Run M service proxies sys sys' ∧ sys'.serving = true ∧
      sys'.state = service.after M sys.state (.dict items) ∧
      sys'.served = sys.served ++ [(c, .dict items)] ∧
      (sys'.connections c).events = (sys.connections c).events ++
        [.receive (.dict [(.str answer.1, value), (.str "n", .int nonce)])] ∧
      ∀ c' ≠ c, sys'.connections c' = sys.connections c' := by
  obtain ⟨rest, hread, hrest⟩ := hwaiting.exists_read
  obtain rfl := hrest.bytes_eq_nil
  have hframes := @framesFor_of_answer M ι
    ⟨.dict items, c, service.api sys.state⟩ items _ rfl hnonce answer hanswer
    frame hframe
  have hhandle := handle_of_frames hframes []
  have hserve : Step M service proxies sys
      (sys.handle M service c (.dict items) []) := .serve c hserving hread
  generalize sys.handle M service c (.dict items) [] = sys₁ at hhandle hserve
  have hne : answer.1 ≠ "n" := by
    rcases answerOf_key hanswer with hr | he
    · simp [hr]
    · simp [he]
  have hstreamable : PyObject.transformToStreamable
      (.dict [(.str answer.1, answer.2), (.str "n", .int nonce)]) =
        .ok (.dict [(.str answer.1, value), (.str "n", .int nonce)]) :=
    (transformToStreamable_two_iff hne).mpr ⟨_, _, hvalue, rfl, rfl⟩
  have hevents : (sys₁.connections c).events = (sys.connections c).events := by
    rw [hhandle, update_self]
    rfl
  have hback : (sys₁.connections c).toClient = frame := by
    rw [hhandle, update_self]
    unfold Connection.reply
    dsimp only
    rw [if_pos hopen, hclient, List.nil_append, List.map_singleton,
      List.flatten_singleton]
  have hresponse : readMessage M (sys₁.connections c).toClient =
      .ok (.dict [(.str answer.1, value), (.str "n", .int nonce)], []) := by
    rw [hback]
    exact readMessage_of_carries (carries_of_frame hM hstreamable hframe)
  have hdeliver : Step M service proxies sys₁ _ :=
    .deliver c hproxy (by rw [hevents]; exact hrunning) hresponse
  refine ⟨_, (Relation.ReflTransGen.single hserve).tail hdeliver, ?_, ?_, ?_,
    ?_, ?_⟩
  · rw [hhandle]
    exact hserving
  · rw [hhandle]
    rfl
  · rw [hhandle]
    rfl
  · rw [update_self]
    unfold Connection.act
    dsimp only
    rw [hevents]
  · intro c' hne
    rw [update_connections, if_neg hne, hhandle, update_connections, if_neg hne]

/-- A call on an open connection can come back, with the answer of the API in
the state that the client's messages before it leave. -/
theorem exists_gets (hM : M.Lawful) (hdrops : M.DropsItems)
    (hrun : Run M service proxies (initial s₀) sys) (hproxy : proxies c)
    (hserving : sys.serving = true)
    (hopen : (sys.connections c).isOpen = true)
    (hreturns : service.Returns M sys.state (sys.unserved M c)) {nonce : ℕ}
    (hnonce : (NonceWatcher.run M (sys.connections c).events).initialNonce =
      nonce) {method : String} {kwargs : List (String × PyObject)}
    {items : List (PyObject × PyObject)}
    (hmessage : (callMessage method nonce kwargs).transformToStreamable =
      .ok (.dict items))
    (hcall : M.Encodes (callMessage method nonce kwargs))
    {answer : String × PyObject}
    (hanswer : answerOf M (PyObject.get items "c") ((service.api
      (service.stateAfter M sys.state (sys.unserved M c))).invoke M items) =
        .ok answer)
    {value : PyObject} (hvalue : answer.2.transformToStreamable = .ok value)
    (hresult : M.Encodes
      (.dict [(.str answer.1, answer.2), (.str "n", .int nonce)])) :
    ∃ sys' between, Run M service proxies sys sys' ∧ sys'.serving = true ∧
      sys'.state = service.stateAfter M sys.state
        (sys.unserved M c ++ [PyObject.dict items]) ∧
      sys'.served = sys.served ++
        (sys.unserved M c ++ [PyObject.dict items]).map (Prod.mk c) ∧
      (∀ c' ≠ c, sys'.connections c' = sys.connections c') ∧
      (sys'.connections c).Gets M ((sys.connections c).events ++ between)
        method kwargs (replyWith answer.1 value) := by
  obtain ⟨callFrame, hcall⟩ := hcall
  obtain ⟨frame, hframe⟩ := hresult
  obtain ⟨rested, values, hrested, hserving', hstate, hserved, hidle, hevents,
      hothers⟩ :=
    exists_idle hM hdrops hrun hproxy hserving hopen hreturns
  have hreached := hrun.trans hrested
  have hrunning := runs_of_run hM hdrops hreached c hproxy hidle.isOpen
  have hnonce' : (NonceWatcher.run M
      (rested.connections c).events).initialNonce = nonce := by
    rw [hevents, initialNonce_receives, hnonce]
  have hinvoked : Step M service proxies rested (rested.update c
      ((rested.connections c).act M (.invoke method kwargs))) :=
    .act c (.invoke method kwargs) hproxy trivial
  have hwaiting := (inv_of_run hM hreached).call_inFlight hM hproxy hidle
    hrunning (hnonce'.symm ▸ hmessage) (hnonce'.symm ▸ hcall)
  have hcalled := update_self rested c
    ((rested.connections c).act M (.invoke method kwargs))
  have hopen' : ((rested.update c ((rested.connections c).act M
      (.invoke method kwargs))).connections c).isOpen = true := by
    rw [hcalled]
    exact hidle.isOpen
  have hanswer' : answerOf M (PyObject.get items "c")
      ((service.api rested.state).invoke M items) = .ok answer := by
    rw [hstate]
    exact hanswer
  obtain ⟨sys', hanswered, hserving'', hstate', hserved', hevents',
      hothers'⟩ :=
    @exists_answered M σ ι service proxies _
      (rested.update c ((rested.connections c).act M (.invoke method kwargs)))
      c hM hproxy hserving' hopen'
      (runs_of_run hM hdrops (hreached.tail hinvoked) c hproxy hopen')
      (by rw [hcalled]; exact hidle.toClient) items
      (by rw [hcalled]; exact hwaiting) nonce (nonceOf_callMessage hmessage)
      answer hanswer' value hvalue frame hframe
  have hall : (sys'.connections c).events = (rested.connections c).events ++
      [.invoke method kwargs,
        .receive (.dict [(.str answer.1, value), (.str "n", .int nonce)])] := by
    rw [hevents', hcalled]
    exact List.append_assoc _ _ _
  have hreply : replyTo (NonceWatcher.run M
      (rested.connections c).events).initialNonce
      (.dict [(.str answer.1, value), (.str "n", .int nonce)]) =
        some (replyWith answer.1 value) := by
    rw [hnonce', replyTo_response (answerOf_key hanswer), if_pos rfl]
  have hfuture := result_of_answer hrunning method kwargs hreply
  rw [← hall] at hfuture
  refine ⟨sys', values.map .receive,
    hrested.trans (.head hinvoked hanswered), hserving'', ?_, ?_, ?_, ?_⟩
  · rw [hstate', Service.stateAfter_append]
    exact congrArg (service.after M · _) hstate
  · rw [hserved', List.map_append, ← List.append_assoc, ← hserved]
    rfl
  · intro c' hne
    rw [hothers' c' hne, update_connections, if_neg hne, hothers c' hne]
  · rw [← hevents]
    exact ⟨⟨_, hall⟩, hfuture⟩

end RemoteSystem

/-! ## The loop goes on -/

theorem Service.returns_append {s : σ} {messages later : List PyObject} :
    service.Returns M s (messages ++ later) ↔
      service.Returns M s messages ∧
        service.Returns M (service.stateAfter M s messages) later := by
  induction messages generalizing s with
  | nil => exact iff_and_self.mpr fun _ => trivial
  | cons message rest ih =>
      rw [List.cons_append, Returns, Returns, ih, and_assoc]
      rfl

namespace RemoteSystem

variable {proxies : ι → Prop} [DecidableEq ι] {sys : RemoteSystem σ ι}

/-- As long as the methods return, nothing that is sent to the server stops
it. -/
theorem serving_of_returns (hM : M.Lawful) (hdrops : M.DropsItems)
    (hrun : Run M service proxies (initial s₀) sys)
    (hreturns : service.Returns M s₀ (sys.served.map Prod.snd)) :
    sys.serving = true := by
  induction hrun with
  | refl => rfl
  | @tail before after hrun hstep ih =>
      obtain ⟨more, hmore⟩ := served_prefix_of_step hstep
      rw [← hmore, List.map_append, Service.returns_append] at hreturns
      have hbefore := ih hreturns.1
      cases hstep with
      | @serve c message rest hserving hread =>
          rw [handle_served] at hmore
          rw [List.append_cancel_left hmore,
            ← (inv_of_run hM hrun).server.state] at hreturns
          obtain ⟨frames, hframes⟩ :=
            @exists_framesFor M ι hdrops
              ⟨message, c, service.api before.state⟩ hreturns.2.1
          rw [handle_of_frames hframes]
          exact hserving
      | _ => exact hbefore

/-- A server that goes on has returned from every method. -/
theorem returns_of_serving (hM : M.Lawful)
    (hrun : Run M service proxies (initial s₀) sys)
    (hserving : sys.serving = true) :
    service.Returns M s₀ (sys.served.map Prod.snd) := by
  induction hrun with
  | refl => trivial
  | tail hrun hstep ih =>
      cases hstep with
      | serve c hbefore hread =>
          cases hframes : framesFor M ⟨_, c, service.api _⟩ with
          | error failure =>
              unfold handle at hserving
              rw [hframes] at hserving
              cases hserving
          | ok frames =>
              rw [handle_of_frames hframes]
              change service.Returns M s₀ ((_ ++ [_]).map Prod.snd)
              rw [List.map_append, Service.returns_append]
              refine ⟨ih hbefore, ?_, trivial⟩
              intro items hmessage hinvoke
              rw [← (inv_of_run hM hrun).server.state] at hinvoke
              rw [framesFor_of_interrupted M
                (response_of_interrupted hmessage hinvoke)] at hframes
              cases hframes
      | _ => exact ih hserving

end RemoteSystem

end LedgerSim
