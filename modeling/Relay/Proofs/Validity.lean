/-
# Invalid datasources

A datasource is looked at in two ways. One lists everything that is wrong with it, the other
stops at the first thing; both find something wrong with the same datasources. What is found
wrong ends every call for the datasource before anything is asked for: an execution and a
discovery where they connect, if their plan has not failed before, and a test at once, with the
whole list.

Key theorems: `Connector.validate_eq_ok_iff`, `Connector.problems_eq_nil_iff`,
`execute_of_invalid`, `discover_of_invalid`, `testDatasource_of_problems`,
`invalid_touches_nothing`.
-/
import Relay.Proofs.Carrying

namespace Relay

open Call Wire

/-! ### The two ways to look at a datasource -/

namespace Connector

variable (c : Connector) (ds : Datasource)

/-- A valid datasource has a credential that passes and nothing that the connector finds
wrong. -/
theorem validate_eq_ok_iff : c.validate ds = .ok () ↔
    Credential.check c.accepts ds.credential = .ok () ∧ c.invalids ds = [] := by
  unfold validate
  rw [except_bind_eq_ok_iff]
  dsimp only
  constructor
  · rintro ⟨⟨⟩, hcheck, hrest⟩
    refine ⟨hcheck, ?_⟩
    split at hrest
    · rename_i hempty
      exact List.isEmpty_iff.mp hempty
    · cases hrest
  · rintro ⟨hcheck, hnone⟩
    refine ⟨(), hcheck, ?_⟩
    rw [hnone]
    rfl

/-- **The list is empty exactly for valid datasources.** -/
theorem problems_eq_nil_iff : c.problems ds = [] ↔ c.validate ds = .ok () := by
  rw [validate_eq_ok_iff]
  unfold problems
  cases hcheck : Credential.check c.accepts ds.credential with
  | ok passed => exact ⟨fun hnone => ⟨rfl, hnone⟩, fun hvalid => hvalid.2⟩
  | error f =>
    have hlisted : f.message ∈ TextSet.insert (c.invalids ds) f.message :=
      (TextSet.mem_insert _ _ _).mpr (.inl rfl)
    exact ⟨fun hnone => absurd hnone (List.ne_nil_of_mem hlisted), fun hvalid => nomatch hvalid.1⟩

/-- What is wrong with a datasource is a failure to validate it. -/
theorem exists_error_of_problems (h : c.problems ds ≠ []) : ∃ f, c.validate ds = .error f := by
  cases hvalid : c.validate ds with
  | ok valid => exact absurd ((c.problems_eq_nil_iff ds).mpr hvalid) h
  | error f => exact ⟨f, rfl⟩

end Connector

/-! ### Calls for an invalid datasource -/

variable {σ : Type} {s t : State σ} {c : Connector} {f : Failure}

/-- Connecting to an invalid datasource is that failure, and nothing else happens. -/
theorem Access.Ends.of_invalid {a : Access σ} {ds : Datasource} {id : Option String}
    {always : Bool} {result : Except Halt Connected} (hinvalid : c.validate ds = .error f)
    (h : a.Ends c ds id always s result t) : result = .error (.failed f) ∧ t = s := by
  have hnot : c.validate ds ≠ .ok () := by
    rw [hinvalid]
    exact fun heq => nomatch heq
  cases h with
  | invalid h =>
    rw [hinvalid] at h
    cases h
    exact ⟨rfl, rfl⟩
  | transient hvalid => exact absurd hvalid hnot
  | pooled hvalid => exact absurd hvalid hnot

namespace Dispatcher

variable (d : Dispatcher σ) {name : String} {ds : Datasource} {i : Invocation} {action : Action}
  {request : DiscoveryRequest}

theorem problems_eq (hc : d.registry.require name = .ok c) (ds : Datasource) :
    d.problems name ds = c.problems ds := by
  unfold problems
  rw [hc]

/-- An execution for an invalid datasource fails in planning or in validating, and touches
nothing. Without any permits it waits for one, and has touched nothing either. -/
theorem execute_of_invalid (hc : d.registry.require name = .ok c)
    (hinvalid : c.validate ds = .error f) (i : Invocation) (action : Action) (s : State σ) :
    (d.permits ≠ 0 → ∃ f', (plan c i ds action = .error f' ∨ c.validate ds = .error f') ∧
      (d.execute name i ds action).run s = (.ok (.ofFailure f' none), s)) ∧
    (d.permits = 0 → (d.execute name i ds action).run s = (.error .noPermit, s)) := by
  rcases hrun : (d.execute name i ds action).run s with ⟨result, t⟩
  cases d.execute_ends hrun with
  | refused h =>
    cases h with
    | unknown hnone =>
      rw [hc] at hnone
      cases hnone
    | unplanned hc' hpermits hplan =>
      cases hc.symm.trans hc'
      exact ⟨fun _ => ⟨_, .inl hplan, rfl⟩, fun hzero => absurd hzero hpermits⟩
    | unconnected hc' hpermits hplan h =>
      cases hc.symm.trans hc'
      obtain ⟨heq, rfl⟩ := h.of_invalid hinvalid
      cases heq
      exact ⟨fun _ => ⟨_, .inr hinvalid, rfl⟩, fun hzero => absurd hzero hpermits⟩
  | halted hhalt h =>
    cases h with
    | unknown => exact absurd rfl (hhalt _)
    | noPermit _ hzero => exact ⟨fun hpermits => absurd hzero hpermits, fun _ => rfl⟩
    | unplanned => exact absurd rfl (hhalt _)
    | unconnected hc' _ _ h =>
      cases hc.symm.trans hc'
      cases (h.of_invalid hinvalid).1
      exact absurd rfl (hhalt _)
  | reported h =>
    cases h with
    | connected hc' _ _ h =>
      cases hc.symm.trans hc'
      cases (h.of_invalid hinvalid).1

/-- A discovery for an invalid datasource fails in planning or in validating, and touches
nothing. -/
theorem discover_of_invalid (hc : d.registry.require name = .ok c)
    (hinvalid : c.validate ds = .error f) (request : DiscoveryRequest) (s : State σ) :
    ∃ f', (planDiscovery c ds request = .error f' ∨ c.validate ds = .error f') ∧
      (d.discover name ds request).run s = (.error (.failed f'), s) := by
  rcases hrun : (d.discover name ds request).run s with ⟨result, t⟩
  cases d.discover_ends hrun with
  | unknown hnone =>
    rw [hc] at hnone
    cases hnone
  | unplanned hc' hplan =>
    cases hc.symm.trans hc'
    exact ⟨_, .inl hplan, rfl⟩
  | unconnected hc' _ h =>
    cases hc.symm.trans hc'
    obtain ⟨heq, rfl⟩ := h.of_invalid hinvalid
    cases heq
    exact ⟨_, .inr hinvalid, rfl⟩
  | uncollected hc' _ h =>
    cases hc.symm.trans hc'
    cases (h.of_invalid hinvalid).1
  | collected hc' _ h =>
    cases hc.symm.trans hc'
    cases (h.of_invalid hinvalid).1

/-- A test of a datasource that has problems is the list of them. -/
theorem testDatasource_of_problems (hc : d.registry.require name = .ok c)
    (h : c.problems ds ≠ []) (s : State σ) :
    (d.testDatasource name ds).run s = (.ok ⟨c.problems ds⟩, s) := by
  have hlisted : (c.problems ds).isEmpty = false := List.isEmpty_eq_false_iff.mpr h
  refine run_bind_eq_ok_iff.mpr ⟨.ok ⟨c.problems ds⟩, s, run_outcome_eq_ok_iff.mpr ?_, rfl⟩
  refine run_ofExcept_bind_eq_ok_iff.mpr ⟨c, hc, ?_⟩
  dsimp only
  rw [hlisted]
  rfl

/-- **An invalid datasource reaches neither the network nor the pool.** For a registered
connector, a datasource has no problems exactly if it is valid. If it has some, every execution,
discovery and test of it fails, the last with the list of problems, and leaves the outside, the
pool and the record of what was handed out as they were. If there are no permits at all, an
execution waits for one instead of failing, and has changed nothing. -/
theorem invalid_touches_nothing (hc : d.registry.require name = .ok c) (ds : Datasource) :
    (d.problems name ds = [] ↔ c.validate ds = .ok ()) ∧
    (d.problems name ds ≠ [] → ∀ (i : Invocation) (action : Action) (request : DiscoveryRequest)
      (s : State σ),
      (d.permits ≠ 0 → ∃ f, (plan c i ds action = .error f ∨ c.validate ds = .error f) ∧
        (d.execute name i ds action).run s = (.ok (.ofFailure f none), s)) ∧
      (d.permits = 0 → (d.execute name i ds action).run s = (.error .noPermit, s)) ∧
      (∃ f, (planDiscovery c ds request = .error f ∨ c.validate ds = .error f) ∧
        (d.discover name ds request).run s = (.error (.failed f), s)) ∧
      ∃ report : TestReport, (d.testDatasource name ds).run s = (.ok report, s) ∧
        report.invalids = d.problems name ds ∧ report.isSuccess = false) := by
  rw [d.problems_eq hc]
  refine ⟨c.problems_eq_nil_iff ds, fun hproblems i action request s => ?_⟩
  obtain ⟨f, hinvalid⟩ := c.exists_error_of_problems ds hproblems
  obtain ⟨hfails, hwaits⟩ := d.execute_of_invalid hc hinvalid i action s
  refine ⟨hfails, hwaits, d.discover_of_invalid hc hinvalid request s, ?_⟩
  exact ⟨_, d.testDatasource_of_problems hc hproblems s, rfl,
    List.isEmpty_eq_false_iff.mpr hproblems⟩

/-- A client's connector refuses a datasource without a credential where it would connect, for
its plan is made without one. -/
theorem invalid_touches_nothing_bare : lookingUp.registry.require "lookup" = .ok lookup ∧
    lookingUp.problems "lookup" {} ≠ [] ∧ (∃ p, plan lookup {} {} {} = .ok p) ∧
    (∃ f, (lookingUp.execute "lookup" {} {} {}).run { outside := () } =
      (.ok (.ofFailure f none), { outside := () })) ∧
    ∃ report, (lookingUp.testDatasource "lookup" {}).run { outside := () } =
      (.ok report, { outside := () }) ∧ report.isSuccess = false := by
  have hc : lookingUp.registry.require "lookup" = .ok lookup := rfl
  have hproblems : lookingUp.problems "lookup" {} ≠ [] := List.cons_ne_nil _ _
  obtain ⟨hfails, -, -, report, htest, -, hfailed⟩ :=
    (lookingUp.invalid_touches_nothing hc {}).2 hproblems {} {} {} { outside := () }
  obtain ⟨f, -, hrun⟩ := hfails (by decide)
  exact ⟨hc, hproblems, ⟨_, rfl⟩, ⟨f, hrun⟩, report, htest, hfailed⟩

end Dispatcher

end Relay
