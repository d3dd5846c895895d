/-
# Executions

An execution goes through its steps in a fixed order: the connector, the permit, the
plan, the connection, the request. What it comes to is read off from where the order
ends: before the request there is a failure that nothing was handed over for, and after
it a report on one request.

Key definitions: `Report.OfSent`, `Report.Accounts`, `Dispatcher.Accounted`.
Key theorems: `create?_eq_some_iff`, `prepare_eq_ok_iff`, `prepare_eq_failed_iff`, `run_run`,
`execute_eq_ok`, `executions_accounted`.
-/
import Relay.Dispatcher
import Relay.Proofs.Access
import Relay.Proofs.Reply

namespace Relay

open Call Wire

/-! ### Reports on a request -/

/-- A fault on the way is a failure by time or of the plugin. -/
theorem Wire.Fault.failure_isPreFlight (fault : Fault) : fault.failure.kind.isPreFlight = false := by
  unfold failure
  split
  · rfl
  · split
    · rfl
    · rfl

namespace Report

/-- The report on a request that was sent shows the request, and its failure is not of a
kind that is found before. -/
structure OfSent (report : Report) (snapshot : Snapshot) : Prop where
  shown : report.snapshot = some snapshot
  ended : report.WellEnded
  kind : ∀ info, report.info? = some info → info.kind.isPreFlight = false

/-- The report accounts for the requests that were handed over: there was one at most, it
shows one exactly if there was one, and if it shows none it is a failure with its own code
for the status and without headers. -/
structure Accounts (report : Report) (requests : List Request) : Prop where
  atMostOne : requests.length ≤ 1
  shown : report.snapshot.isSome = true ↔ requests.length = 1
  ended : report.WellEnded
  unsent : report.snapshot = none →
    ∃ info, report.info? = some info ∧ report.status = .internal info.kind.code ∧
      report.headers = []

theorem ofSent_classify (reply : Reply) (format : Format) (snapshot : Snapshot) :
    (reply.classify format (some snapshot)).OfSent snapshot := by
  have hended := reply.wellEnded_classify format (some snapshot)
  rcases reply.classify_cases format (some snapshot) with ⟨body, -, heq⟩ | ⟨f, hkind, heq⟩
  · refine ⟨by rw [heq]; rfl, hended, fun info hinfo => ?_⟩
    rw [heq] at hinfo
    cases hinfo
  · refine ⟨by rw [heq]; rfl, hended, fun info hinfo => ?_⟩
    rw [heq] at hinfo
    cases hinfo
    exact hkind

theorem ofSent_ofFailure (fault : Fault) (snapshot : Snapshot) :
    (ofFailure fault.failure (some snapshot)).OfSent snapshot := by
  refine ⟨rfl, wellEnded_failed .., fun info hinfo => ?_⟩
  cases hinfo
  exact fault.failure_isPreFlight

theorem accounts_ofFailure (f : Failure) : (ofFailure f none).Accounts [] where
  atMostOne := Nat.zero_le 1
  shown := by simp [ofFailure, failed]
  ended := wellEnded_failed ..
  unsent := fun _ => ⟨f.info, rfl, rfl, rfl⟩

/-- A credential that was renewed on the way changes nothing. -/
theorem OfSent.accounts {report : Report} {snapshot : Snapshot} (h : report.OfSent snapshot)
    (refreshed : Option Credential) (r : Request) :
    { report with refreshed }.Accounts [r] where
  atMostOne := Nat.le_refl 1
  shown := by simp [h.shown]
  ended := h.ended
  unsent := fun hnone => by
    have hsome : report.snapshot = none := hnone
    rw [h.shown] at hsome
    cases hsome

end Report

namespace Dispatcher

variable {σ : Type} (d : Dispatcher σ) {s t : State σ}

/-! ### Making a dispatcher -/

variable {d} in
/-- **A dispatcher can be made exactly for a skew that is a span and for permits that can be
handed out.** -/
theorem create?_eq_some_iff {registry : Registry} {settings : Settings} {network : Network σ} :
    create? registry settings network = some d ↔
    ((-Settings.maxSkew ≤ settings.skewSeconds ∧ settings.skewSeconds ≤ Settings.maxSkew) ∧
      settings.maxConcurrent ≤ Settings.maxPermits) ∧
    d = { network := networkFor settings network
          tokens := clientCredentials (networkFor settings network) settings.defaultTimeout
          skew := settings.skewSeconds
          registry
          settings } := by
  unfold create? Settings.skew?
  by_cases hskew : -Settings.maxSkew ≤ settings.skewSeconds ∧
    settings.skewSeconds ≤ Settings.maxSkew
  · by_cases hpermits : Settings.maxPermits < settings.maxConcurrent
    · have hmany : ¬settings.maxConcurrent ≤ Settings.maxPermits := by omega
      simp [hskew, hpermits, hmany]
    · have hfew : settings.maxConcurrent ≤ Settings.maxPermits := by omega
      simp [hskew, hpermits, hfew, eq_comm]
  · simp [hskew]

/-! ### Before the request -/

theorem run_takePermit_bind_eq_ok_iff {α : Type} {k : Unit → Call σ α} {a : α} :
    (d.takePermit >>= k).run s = (.ok a, t) ↔ d.permits ≠ 0 ∧ (k ()).run s = (.ok a, t) := by
  unfold takePermit
  by_cases hpermits : d.permits = 0
  · simp [hpermits]
  · simp [hpermits]

/-- Waiting for a permit is not a failure. -/
theorem run_takePermit_bind_eq_failed_iff {α : Type} {k : Unit → Call σ α} {f : Failure} :
    (d.takePermit >>= k).run s = (.error (.failed f), t) ↔
      d.permits ≠ 0 ∧ (k ()).run s = (.error (.failed f), t) := by
  unfold takePermit
  by_cases hpermits : d.permits = 0
  · simp [hpermits]
  · simp [hpermits]

theorem takePermit_within {P : Event → Prop} {Q : Failure → Prop} : d.takePermit.Within P Q := by
  unfold takePermit
  split
  · exact .of_quiet (fun _ => rfl) fun _ _ _ h => by cases h
  · exact .pure ()

variable {name : String} {connection : Connection} {i : Invocation} {ds : Datasource}
  {action : Action} {p : Plan} {f : Failure}

/-- An action is prepared when all steps before the request succeed. -/
theorem prepare_eq_ok_iff {connected : Connected} :
    (d.prepare name i ds action).run s = (.ok (p, connected), t) ↔
      ∃ c, d.registry.require name = .ok c ∧ d.permits ≠ 0 ∧ plan c i ds action = .ok p ∧
        (d.connect c ds).run s = (.ok connected, t) := by
  unfold prepare connector
  simp only [run_ofExcept_bind_eq_ok_iff, run_takePermit_bind_eq_ok_iff]
  simp only [run_bind_eq_ok_iff, run_pure]
  constructor
  · rintro ⟨c, hc, hpermits, p', hp, connected', u, hconnect, heq⟩
    cases heq
    exact ⟨c, hc, hpermits, hp, hconnect⟩
  · rintro ⟨c, hc, hpermits, hp, hconnect⟩
    exact ⟨c, hc, hpermits, p, hp, connected, t, hconnect, rfl⟩

/-- Preparing an action fails at one of its steps, and only connecting touches anything. -/
theorem prepare_eq_failed_iff :
    (d.prepare name i ds action).run s = (.error (.failed f), t) ↔
      (d.registry.require name = .error f ∧ t = s) ∨
      ∃ c, d.registry.require name = .ok c ∧ d.permits ≠ 0 ∧
        ((plan c i ds action = .error f ∧ t = s) ∨
          ∃ p, plan c i ds action = .ok p ∧ (d.connect c ds).run s = (.error (.failed f), t)) := by
  unfold prepare connector
  simp only [run_ofExcept_bind_eq_failed_iff, run_takePermit_bind_eq_failed_iff]
  simp only [run_bind_eq_error_iff, run_pure]
  simp

theorem prepareOver_eq_ok_iff :
    (d.prepareOver name connection i ds action).run s = (.ok p, t) ↔
      ∃ c, d.registry.require name = .ok c ∧
        Credential.check c.accepts connection.credential = .ok () ∧ d.permits ≠ 0 ∧
        plan c i ds action = .ok p ∧ t = s := by
  unfold prepareOver connector
  simp only [run_ofExcept_bind_eq_ok_iff, run_takePermit_bind_eq_ok_iff, run_ofExcept_eq_ok_iff]
  constructor
  · rintro ⟨c, hc, ⟨⟩, hcredential, hrest⟩
    exact ⟨c, hc, hcredential, hrest⟩
  · rintro ⟨c, hc, hcredential, hrest⟩
    exact ⟨c, hc, (), hcredential, hrest⟩

/-- Over a connection that the caller holds, nothing is touched before the request. -/
theorem prepareOver_eq_failed (h : (d.prepareOver name connection i ds action).run s =
    (.error (.failed f), t)) : t = s := by
  unfold prepareOver connector at h
  simp only [run_ofExcept_bind_eq_failed_iff, run_takePermit_bind_eq_failed_iff,
    run_ofExcept_eq_error_iff] at h
  rcases h with ⟨-, ht⟩ | ⟨c, -, ⟨-, ht⟩ | ⟨_, -, -, _, -, -, ht⟩⟩
  · exact ht
  · exact ht
  · exact ht

/-- Nothing but tokens is asked for before the request. -/
theorem prepare_within (name : String) (i : Invocation) (ds : Datasource) (action : Action) :
    (d.prepare name i ds action).Within Event.AboutToken fun _ => True := by
  unfold prepare connector
  refine .bind (.ofExcept fun _ _ => trivial) fun c => .bind d.takePermit_within fun _ =>
    .bind (.ofExcept fun _ _ => trivial) fun p => .bind ?_ fun connected => .pure _
  exact ⟨(d.connect_within c ds).records, fun _ _ _ _ => trivial⟩

/-! ### The request -/

/-- **One request is sent for a plan**, and the report is on this request. -/
theorem run_run (p : Plan) (connection : Connection) (s : State σ) :
    ∃ report outside, (d.run p connection).run s =
      (.ok report, { s with
        outside
        record := .request connection p.request
          (p.action.effectiveTimeout d.settings.defaultTimeout) d.settings.maxResponse
            :: s.record }) ∧
      report.OfSent (connection.snapshot p.request p.inserted) := by
  obtain ⟨answer, outside, hsend⟩ := d.run_send connection p.request
    (p.action.effectiveTimeout d.settings.defaultTimeout) d.settings.maxResponse s
  cases answer with
  | ok reply =>
    refine ⟨_, outside, ?_, Report.ofSent_classify reply p.command.format _⟩
    simp only [run, run_bind, hsend, run_pure]
  | error fault =>
    refine ⟨_, outside, ?_, Report.ofSent_ofFailure fault _⟩
    simp only [run, run_bind, hsend, run_pure]

/-! ### The whole execution -/

/-- What an execution comes to: a failure to prepare it, or a report on its request with
the credential that was renewed for it. -/
theorem execute_eq_ok {report : Report}
    (h : (d.execute name i ds action).run s = (.ok report, t)) :
    (∃ f, (d.prepare name i ds action).run s = (.error (.failed f), t) ∧
      report = .ofFailure f none) ∨
    ∃ p connected u sent, (d.prepare name i ds action).run s = (.ok (p, connected), u) ∧
      (d.run p connected.connection).run u = (.ok sent, t) ∧
      report = { sent with refreshed := connected.refreshed } := by
  unfold execute at h
  obtain ⟨prepared, u, hprepare, hrest⟩ := run_bind_eq_ok_iff.mp h
  cases prepared with
  | error f =>
    cases hrest
    exact .inl ⟨f, run_outcome_eq_failed_iff.mp hprepare, rfl⟩
  | ok ready =>
    obtain ⟨p, connected⟩ := ready
    obtain ⟨sent, v, hrun, hreport⟩ := run_bind_eq_ok_iff.mp hrest
    cases hreport
    exact .inr ⟨p, connected, u, sent, run_outcome_eq_ok_iff.mp hprepare, hrun, rfl⟩

theorem executeOver_eq_ok {report : Report}
    (h : (d.executeOver name connection i ds action).run s = (.ok report, t)) :
    (∃ f, (d.prepareOver name connection i ds action).run s = (.error (.failed f), t) ∧
      report = .ofFailure f none) ∨
    ∃ p u, (d.prepareOver name connection i ds action).run s = (.ok p, u) ∧
      (d.run p connection).run u = (.ok report, t) := by
  unfold executeOver at h
  obtain ⟨prepared, u, hprepare, hrest⟩ := run_bind_eq_ok_iff.mp h
  cases prepared with
  | error f =>
    cases hrest
    exact .inl ⟨f, run_outcome_eq_failed_iff.mp hprepare, rfl⟩
  | ok p => exact .inr ⟨p, u, run_outcome_eq_ok_iff.mp hprepare, hrest⟩

/-- The request is built by the plan of an action. -/
def Planned (name : String) (i : Invocation) (ds : Datasource) (action : Action)
    (r : Request) : Prop :=
  ∃ c p, d.registry.require name = .ok c ∧ plan c i ds action = .ok p ∧ p.request = r

/-- All that is reported of an execution: every run that returns ends in a report that
accounts for the requests it handed over, which the plan of the action has built, and no
run fails outside of its report. -/
structure Accounted (name : String) (i : Invocation) (ds : Datasource) (action : Action)
    (x : Call σ Report) : Prop where
  reported : ∀ s report t, x.run s = (.ok report, t) → ∃ events,
    t.record = events ++ s.record ∧ report.Accounts (requests events) ∧
      ∀ r ∈ requests events, d.Planned name i ds action r
  noFailure : ∀ s f t, x.run s ≠ (.error (.failed f), t)

theorem run_ne_failed (p : Plan) (connection : Connection) (f : Failure) :
    (d.run p connection).run s ≠ (.error (.failed f), t) := by
  obtain ⟨report, outside, hrun, -⟩ := d.run_run p connection s
  rw [hrun]
  intro h
  cases h

/-- What is handed over for a plan after some requests for tokens. -/
theorem accounts_run {p : Plan} {u : State σ} {events : List Event} {sent : Report}
    (hevents : ∀ e ∈ events, e.AboutToken) (hrecord : u.record = events ++ s.record)
    (hrun : (d.run p connection).run u = (.ok sent, t)) (refreshed : Option Credential) :
    ∃ later, t.record = later ++ s.record ∧ requests later = [p.request] ∧
      { sent with refreshed }.Accounts [p.request] := by
  obtain ⟨report, outside, hrun', hsent⟩ := d.run_run p connection u
  rw [hrun'] at hrun
  cases hrun
  refine ⟨.request connection p.request (p.action.effectiveTimeout d.settings.defaultTimeout)
    d.settings.maxResponse :: events, ?_, ?_, hsent.accounts refreshed _⟩
  · rw [List.cons_append, ← hrecord]
  · rw [requests_cons, requests_eq_nil hevents]

theorem accounted_execute (name : String) (i : Invocation) (ds : Datasource) (action : Action) :
    d.Accounted name i ds action (d.execute name i ds action) where
  reported := fun s report t h => by
    rcases d.execute_eq_ok h with ⟨f, hprepare, rfl⟩ |
      ⟨p, connected, u, sent, hprepare, hrun, rfl⟩
    · obtain ⟨events, hrecord, hevents⟩ := (d.prepare_within name i ds action).records s
      rw [hprepare] at hrecord
      refine ⟨events, hrecord, ?_⟩
      rw [requests_eq_nil hevents]
      exact ⟨Report.accounts_ofFailure f, by simp⟩
    · obtain ⟨events, hrecord, hevents⟩ := (d.prepare_within name i ds action).records s
      rw [hprepare] at hrecord
      obtain ⟨later, hlater, hrequests, haccounts⟩ :=
        d.accounts_run hevents hrecord hrun connected.refreshed
      obtain ⟨c, hc, -, hp, -⟩ := d.prepare_eq_ok_iff.mp hprepare
      refine ⟨later, hlater, hrequests ▸ haccounts, fun r hr => ?_⟩
      rw [hrequests, List.mem_singleton] at hr
      exact ⟨c, p, hc, hp, hr.symm⟩
  noFailure := fun s f t h => by
    unfold execute at h
    rcases run_bind_eq_error_iff.mp h with h | ⟨prepared, u, -, h⟩
    · exact run_outcome_ne_failed _ f h
    · cases prepared with
      | error f' => cases h
      | ok ready =>
        rcases run_bind_eq_error_iff.mp h with h | ⟨sent, v, -, h⟩
        · exact d.run_ne_failed _ _ f h
        · cases h

theorem accounted_executeOver (name : String) (connection : Connection) (i : Invocation)
    (ds : Datasource) (action : Action) :
    d.Accounted name i ds action (d.executeOver name connection i ds action) where
  reported := fun s report t h => by
    rcases d.executeOver_eq_ok h with ⟨f, hprepare, rfl⟩ | ⟨p, u, hprepare, hrun⟩
    · rw [d.prepareOver_eq_failed hprepare]
      exact ⟨[], rfl, Report.accounts_ofFailure f, by simp [requests]⟩
    · obtain ⟨c, hc, -, -, hp, rfl⟩ := d.prepareOver_eq_ok_iff.mp hprepare
      have hnone : ∀ e ∈ ([] : List Event), e.AboutToken := by simp
      obtain ⟨later, hlater, hrequests, haccounts⟩ :=
        d.accounts_run hnone rfl hrun report.refreshed
      refine ⟨later, hlater, hrequests ▸ haccounts, fun r hr => ?_⟩
      rw [hrequests, List.mem_singleton] at hr
      exact ⟨c, p, hc, hp, hr.symm⟩
  noFailure := fun s f t h => by
    unfold executeOver at h
    rcases run_bind_eq_error_iff.mp h with h | ⟨prepared, u, -, h⟩
    · exact run_outcome_ne_failed _ f h
    · cases prepared with
      | error f' => cases h
      | ok p => exact d.run_ne_failed p connection f h

/-- **An execution hands over one request at most, and its report accounts for it**,
whether it connects itself or goes over a connection that the caller holds. -/
theorem executions_accounted (name : String) (connection : Connection) (i : Invocation)
    (ds : Datasource) (action : Action) :
    d.Accounted name i ds action (d.execute name i ds action) ∧
      d.Accounted name i ds action (d.executeOver name connection i ds action) :=
  ⟨d.accounted_execute name i ds action, d.accounted_executeOver name connection i ds action⟩

end Dispatcher

end Relay
