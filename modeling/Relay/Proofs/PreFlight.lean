/-
# Failures before the flight

Three kinds of failure say that nothing was sent. They are honest: only the steps before
the first exchange fail so, and each of these leaves the state as it is. They are also
complete: binding, selecting and building fail in no other way.

Key definitions: `FailsEarly`, `Connector.PlansEarly`.
Key theorems: `Rest.plansEarly_connector`, `OpenAi.plansEarly_connector`,
`refuses_clientCredentials`, `execute_early`, `discover_early`, `preFlight_honest`.
-/
import Relay.Connector.OpenAi.Commands
import Relay.Connector.Rest
import Relay.Proofs.Execution

namespace Relay

open Call Wire

/-! ### Computations that fail early -/

variable {α β : Type}

/-- The computation fails only with the kinds that are found before anything is sent. -/
def FailsEarly (x : Except Failure α) : Prop := ∀ f, x = .error f → f.kind.isPreFlight = true

theorem FailsEarly.ok (a : α) : FailsEarly (.ok a) := by
  intro f h
  cases h

theorem FailsEarly.error {f : Failure} (h : f.kind.isPreFlight = true) :
    FailsEarly (.error f : Except Failure α) := by
  intro f' hf
  cases hf
  exact h

theorem FailsEarly.bind {x : Except Failure α} {k : α → Except Failure β} (hx : FailsEarly x)
    (hk : ∀ a, x = .ok a → FailsEarly (k a)) : FailsEarly (x >>= k) := by
  intro f h
  rcases except_bind_eq_error_iff.mp h with h | ⟨a, ha, h⟩
  · exact hx f h
  · exact hk a ha f h

theorem FailsEarly.map {x : Except Failure α} (hx : FailsEarly x) (g : α → β) :
    FailsEarly (x.map g) := by
  intro f h
  cases x with
  | error f' =>
    cases h
    exact hx f rfl
  | ok a => cases h

/-- Faults that all stand for an early failure. -/
theorem FailsEarly.mapError {ε : Type} (x : Except ε α) {g : ε → Failure}
    (hg : ∀ e, (g e).kind.isPreFlight = true) : FailsEarly (x.mapError g) := by
  intro f h
  obtain ⟨e, -, rfl⟩ := except_mapError_eq_error_iff.mp h
  exact hg e

/-! ### Planning -/

theorem Request.webUrl_early (raw : String) : FailsEarly (webUrl raw) := by
  unfold webUrl
  split
  · exact .error rfl
  · split
    · exact .ok _
    · exact .error rfl

theorem Request.joinUrl_early (base path : Option String) : FailsEarly (joinUrl base path) := by
  unfold joinUrl
  dsimp only
  split
  · exact webUrl_early _
  · split
    · exact .error rfl
    · split
      · exact webUrl_early _
      · exact webUrl_early _

/-- A command builds its requests or fails early. -/
structure Command.BuildsEarly (c : Command) : Prop where
  build : ∀ action ds i, FailsEarly (c.build action ds i)
  buildDiscovery : ∀ ds request, FailsEarly (c.buildDiscovery ds request)

/-- A connector selects commands that build early, or fails early. -/
structure Connector.PlansEarly (c : Connector) : Prop where
  select : ∀ action, FailsEarly (c.select action)
  selected : ∀ action command, c.select action = .ok command → command.BuildsEarly
  selectDiscovery : ∀ request, FailsEarly (c.selectDiscovery request)
  selectedDiscovery : ∀ request command, c.selectDiscovery request = .ok command →
    command.BuildsEarly

theorem Rest.buildUrl_early (a : Action) (ds : Datasource) (i : Invocation) :
    FailsEarly (buildUrl a ds i) := by
  unfold buildUrl
  refine .bind (.mapError _ fun _ => rfl) fun page _ => ?_
  split
  · exact Request.joinUrl_early _ _
  · exact .bind (Request.joinUrl_early _ _) fun url _ => .ok _

theorem Rest.buildsEarly_command : Rest.command.BuildsEarly where
  build := fun a ds i => by
    show FailsEarly (Rest.build a ds i)
    unfold Rest.build
    exact .bind (Rest.buildUrl_early a ds i) fun url _ =>
      .bind (.mapError _ fun _ => rfl) fun body _ => .ok _
  buildDiscovery := fun ds request => .error rfl

/-- **Planning for a REST API fails early**, if it fails. -/
theorem Rest.plansEarly_connector : Rest.connector.PlansEarly where
  select := fun action => by
    show FailsEarly (Rest.select action)
    unfold Rest.select
    split
    · exact .ok _
    · exact .error rfl
  selected := fun action command h => by
    have hselect : Rest.select action = .ok command := h
    unfold Rest.select at hselect
    split at hselect
    · cases hselect
      exact Rest.buildsEarly_command
    · cases hselect
  selectDiscovery := fun request => .error rfl
  selectedDiscovery := fun request command h => by cases h

theorem OpenAi.request_early (method : Method) (ds : Datasource) (path : String) (body : Body)
    (headers : List Property) : FailsEarly (request method ds path body headers) := by
  unfold request
  exact .bind (Request.joinUrl_early _ _) fun url _ => .ok _

theorem OpenAi.buildsEarly_command (task : Task) : task.command.BuildsEarly where
  build := fun a ds i => by
    show FailsEarly (OpenAi.build task a ds i)
    unfold OpenAi.build
    cases task with
    | chat =>
      exact .bind (.mapError _ fun _ => rfl) fun chat _ => OpenAi.request_early _ _ _ _ _
    | embeddings =>
      exact .bind (.mapError _ fun _ => rfl) fun embeddings _ => OpenAi.request_early _ _ _ _ _
    | listModels => exact OpenAi.request_early _ _ _ _ _
  buildDiscovery := fun ds request => OpenAi.request_early _ _ _ _ _

theorem OpenAi.ofForm?_early (form : Table Json) : FailsEarly (Task.ofForm? form) := by
  unfold Task.ofForm?
  dsimp only
  split
  · exact .ok _
  split
  · exact .ok _
  split
  · exact .ok _
  split
  · exact .error rfl
  split
  · exact .ok _
  split
  · exact .ok _
  · exact .error rfl

theorem OpenAi.ofDiscovery?_early (r : DiscoveryRequest) : FailsEarly (Task.ofDiscovery? r) := by
  unfold Task.ofDiscovery?
  split
  · exact .ok _
  · split
    · exact .ok _
    · exact .error rfl

/-- A command that was picked for a task is the command of this task. -/
theorem OpenAi.buildsEarly_of_map {task : Except Failure Task} {command : Command}
    (h : task.map Task.command = .ok command) : command.BuildsEarly := by
  cases task with
  | error f => cases h
  | ok t =>
    cases h
    exact OpenAi.buildsEarly_command t

theorem OpenAi.connector_select : connector.select = select := by
  unfold connector
  rfl

theorem OpenAi.connector_selectDiscovery : connector.selectDiscovery = selectDiscovery := by
  unfold connector
  rfl

theorem OpenAi.select_early (action : Action) : FailsEarly (select action) := by
  unfold select
  exact (OpenAi.ofForm?_early action.formData).map Task.command

theorem OpenAi.selectDiscovery_early (request : DiscoveryRequest) :
    FailsEarly (selectDiscovery request) := by
  unfold selectDiscovery
  exact (OpenAi.ofDiscovery?_early request).map Task.command

/-- **Planning for the OpenAI service fails early**, if it fails. -/
theorem OpenAi.plansEarly_connector : OpenAi.connector.PlansEarly where
  select := fun action => by
    rw [OpenAi.connector_select]
    exact OpenAi.select_early action
  selected := fun action command h => by
    rw [OpenAi.connector_select, OpenAi.select] at h
    exact OpenAi.buildsEarly_of_map h
  selectDiscovery := fun request => by
    rw [OpenAi.connector_selectDiscovery]
    exact OpenAi.selectDiscovery_early request
  selectedDiscovery := fun request command h => by
    rw [OpenAi.connector_selectDiscovery, OpenAi.selectDiscovery] at h
    exact OpenAi.buildsEarly_of_map h

theorem Dispatcher.plan_early {c : Connector} (hc : c.PlansEarly) (i : Invocation) (ds : Datasource)
    (action : Action) : FailsEarly (plan c i ds action) := by
  unfold plan
  refine .bind (.mapError _ fun _ => rfl) fun bound _ => ?_
  refine .bind (hc.select _) fun command hcommand => ?_
  exact .bind ((hc.selected _ _ hcommand).build _ _ _) fun request _ => .ok _

theorem Dispatcher.planDiscovery_early {c : Connector} (hc : c.PlansEarly) (ds : Datasource)
    (request : DiscoveryRequest) : FailsEarly (planDiscovery c ds request) := by
  unfold planDiscovery
  refine .bind (hc.selectDiscovery _) fun command hcommand => ?_
  exact .bind ((hc.selectedDiscovery _ _ hcommand).buildDiscovery _ _) fun r _ => .ok _

/-! ### What fails after something was sent -/

variable {σ : Type} {net : Network σ} {timeout : Span}

theorem Grant.failureOf_isPreFlight (fault : Fault) :
    (failureOf fault).kind.isPreFlight = false := by
  unfold failureOf
  split
  · rfl
  · rfl

theorem Grant.tokenOf_isPreFlight {now : Instant} {status : Nat} {text : String} {f : Failure}
    (h : tokenOf now status text = .error (.failed f)) : f.kind.isPreFlight = false := by
  unfold tokenOf at h
  split at h
  · cases h
    rfl
  · split at h
    · cases h
      rfl
    · cases h
    · split at h
      · cases h
      · cases h

/-- The token endpoint never refuses a client for a reason that is found before. -/
theorem refuses_clientCredentials {f : Failure}
    (h : (clientCredentials net timeout).Refuses f) : f.kind.isPreFlight = false := by
  obtain ⟨client, outside, h⟩ := h
  have hfetch : (Grant.fetch net timeout client outside).1 = .error (.failed f) := h
  unfold Grant.fetch at hfetch
  split at hfetch
  · cases hfetch
    exact Grant.failureOf_isPreFlight _
  · split at hfetch
    · cases hfetch
      exact Grant.failureOf_isPreFlight _
    · split at hfetch
      · cases hfetch
        exact Grant.failureOf_isPreFlight _
      · exact Grant.tokenOf_isPreFlight hfetch

theorem Discovery.collect_isPreFlight {command : Command} {reply : Reply} {f : Failure}
    (h : collect command reply = .error f) : f.kind.isPreFlight = false := by
  have hitems : items command reply = .error f := by
    unfold collect at h
    cases hi : items command reply with
    | error f' =>
      rw [hi] at h
      cases h
      rfl
    | ok found =>
      rw [hi] at h
      cases h
  unfold items at hitems
  split at hitems
  · cases hitems
    rfl
  split at hitems
  · cases hitems
    rfl
  split at hitems
  · cases hitems
    rfl
  split at hitems
  · cases hitems
    rfl
  · cases hitems

namespace Dispatcher

variable (d : Dispatcher σ) {s t : State σ} {f : Failure} {name : String}
  {connection : Connection} {i : Invocation} {ds : Datasource} {action : Action}
  {request : DiscoveryRequest}

theorem collect_isPreFlight {command : Command} {r : Request}
    (h : (d.collect command r connection).run s = (.error (.failed f), t)) :
    f.kind.isPreFlight = false := by
  unfold collect at h
  obtain ⟨-, h⟩ := d.run_takePermit_bind_eq_failed_iff.mp h
  obtain ⟨answer, outside, hsend⟩ := d.run_send connection r d.settings.defaultTimeout
    d.settings.maxResponse s
  rw [run_bind, hsend] at h
  cases answer with
  | error fault =>
    cases h
    exact fault.failure_isPreFlight
  | ok reply =>
    obtain ⟨f', hcollect, hf, -⟩ := run_ofExcept_eq_error_iff.mp h
    cases hf
    exact Discovery.collect_isPreFlight hcollect

/-- What went wrong with a request that was sent is not found before. -/
theorem run_isPreFlight {p : Plan} {report : Report} {info : Failure.Info}
    (h : (d.run p connection).run s = (.ok report, t)) (hinfo : report.info? = some info) :
    info.kind.isPreFlight = false := by
  obtain ⟨report', outside, hrun, hsent⟩ := d.run_run p connection s
  rw [hrun] at h
  cases h
  exact hsent.kind info hinfo

/-! ### Early failures leave the state as it is -/

variable (htokens : d.tokens = clientCredentials net timeout)
include htokens

theorem connect_early {c : Connector} (h : (d.connect c ds).run s = (.error (.failed f), t))
    (hkind : f.kind.isPreFlight = true) : t = s := by
  rcases d.connect_eq_failed h with ⟨-, ht⟩ | hrefuses
  · exact ht
  · rw [htokens] at hrefuses
    rw [refuses_clientCredentials hrefuses] at hkind
    cases hkind

theorem prepare_early (h : (d.prepare name i ds action).run s = (.error (.failed f), t))
    (hkind : f.kind.isPreFlight = true) : t = s := by
  rcases d.prepare_eq_failed_iff.mp h with ⟨-, ht⟩ | ⟨c, -, -, ⟨-, ht⟩ | ⟨p, -, hconnect⟩⟩
  · exact ht
  · exact ht
  · exact d.connect_early htokens hconnect hkind

/-- An execution that reports an early failure has touched nothing. -/
theorem execute_early {report : Report} {info : Failure.Info}
    (h : (d.execute name i ds action).run s = (.ok report, t)) (hinfo : report.info? = some info)
    (hkind : info.kind.isPreFlight = true) : t = s := by
  rcases d.execute_eq_ok h with ⟨f, hprepare, rfl⟩ | ⟨p, connected, u, sent, -, hrun, rfl⟩
  · cases hinfo
    exact d.prepare_early htokens hprepare hkind
  · rw [d.run_isPreFlight hrun hinfo] at hkind
    cases hkind

/-- A discovery that fails early has touched nothing. -/
theorem discover_early (h : (d.discover name ds request).run s = (.error (.failed f), t))
    (hkind : f.kind.isPreFlight = true) : t = s := by
  unfold discover connector at h
  rcases run_ofExcept_bind_eq_failed_iff.mp h with ⟨-, ht⟩ | ⟨c, -, h⟩
  · exact ht
  rcases run_ofExcept_bind_eq_failed_iff.mp h with ⟨-, ht⟩ | ⟨⟨command, r⟩, -, h⟩
  · exact ht
  rcases run_bind_eq_error_iff.mp h with hconnect | ⟨connected, u, -, h⟩
  · exact d.connect_early htokens hconnect hkind
  rcases run_bind_eq_error_iff.mp h with hcollect | ⟨found, v, -, h⟩
  · rw [d.collect_isPreFlight hcollect] at hkind
    cases hkind
  · cases h

omit htokens

theorem executeOver_early {report : Report} {info : Failure.Info}
    (h : (d.executeOver name connection i ds action).run s = (.ok report, t))
    (hinfo : report.info? = some info) (hkind : info.kind.isPreFlight = true) : t = s := by
  rcases d.executeOver_eq_ok h with ⟨f, hprepare, rfl⟩ | ⟨p, u, -, hrun⟩
  · exact d.prepareOver_eq_failed hprepare
  · rw [d.run_isPreFlight hrun hinfo] at hkind
    cases hkind

theorem discoverOver_early
    (h : (d.discoverOver name connection ds request).run s = (.error (.failed f), t))
    (hkind : f.kind.isPreFlight = true) : t = s := by
  unfold discoverOver connector at h
  rcases run_ofExcept_bind_eq_failed_iff.mp h with ⟨-, ht⟩ | ⟨c, -, h⟩
  · exact ht
  rcases run_ofExcept_bind_eq_failed_iff.mp h with ⟨-, ht⟩ | ⟨_, -, h⟩
  · exact ht
  rcases run_ofExcept_bind_eq_failed_iff.mp h with ⟨-, ht⟩ | ⟨⟨command, r⟩, -, hcollect⟩
  · exact ht
  · rw [d.collect_isPreFlight hcollect] at hkind
    cases hkind

/-- **Early kinds of failure are honest and complete.** With tokens for client credentials,
an execution or a discovery that fails with such a kind leaves the record of what was
handed out, the pool and the outside as they were. And whatever fails in binding an
action, selecting its command and building its request fails with such a kind, and so does
whatever fails in planning a discovery. -/
theorem preFlight_honest (htokens : d.tokens = clientCredentials net timeout) (name : String)
    (connection : Connection) (i : Invocation) (ds : Datasource) (action : Action)
    (request : DiscoveryRequest) (s : State σ) :
    (∀ report t info, (d.execute name i ds action).run s = (.ok report, t) →
      report.info? = some info → info.kind.isPreFlight = true → t = s) ∧
    (∀ report t info, (d.executeOver name connection i ds action).run s = (.ok report, t) →
      report.info? = some info → info.kind.isPreFlight = true → t = s) ∧
    (∀ f t, (d.discover name ds request).run s = (.error (.failed f), t) →
      f.kind.isPreFlight = true → t = s) ∧
    (∀ f t, (d.discoverOver name connection ds request).run s = (.error (.failed f), t) →
      f.kind.isPreFlight = true → t = s) ∧
    ∀ c, c = Rest.connector ∨ c = OpenAi.connector →
      FailsEarly (plan c i ds action) ∧ FailsEarly (planDiscovery c ds request) := by
  refine ⟨fun report t info h => d.execute_early htokens h,
    fun report t info h => d.executeOver_early h,
    fun f t h => d.discover_early htokens h,
    fun f t h => d.discoverOver_early h,
    fun c hc => ?_⟩
  have hearly : c.PlansEarly := by
    rcases hc with rfl | rfl
    · exact Rest.plansEarly_connector
    · exact OpenAi.plansEarly_connector
  exact ⟨plan_early hearly i ds action, planDiscovery_early hearly ds request⟩

/-- A dispatcher for REST APIs that reaches nobody. -/
def offline (now : Instant) : Dispatcher Unit :=
  { network := unreachable now
    tokens := clientCredentials (unreachable now) (Span.ofMillis 10000)
    skew := 60
    registry := ⟨[("rest", Rest.connector)]⟩
    settings := {} }

/-- Without a URL no request is built, and nobody is asked for anything. -/
theorem preFlight_honest_urlless :
    (offline default).tokens = clientCredentials (unreachable default) (Span.ofMillis 10000) ∧
    ∃ report t info, ((offline default).execute "rest" {} {} {}).run { outside := () } =
        (.ok report, t) ∧
      report.info? = some info ∧ info.kind = .configuration ∧ t = { outside := () } := by
  have hrun : ((offline default).execute "rest" {} {} {}).run { outside := () } =
      (.ok (.ofFailure (.configuration "datasource URL is missing") none), { outside := () }) :=
    rfl
  refine ⟨rfl, _, _, _, hrun, rfl, rfl, ?_⟩
  exact (preFlight_honest (offline default) rfl "rest" {} {} {} {} {} { outside := () }).1
    _ _ _ hrun rfl rfl

end Dispatcher

end Relay
