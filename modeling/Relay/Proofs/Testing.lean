/-
# Tests of datasources

A test of a datasource without problems makes its credential fit for use and then makes the
test call of the connector. It is passed if there is no such call to make, or if the call is
answered in time, whole and within the limit, with a status that tells nothing against the
datasource. However a test ends, the pool is as it was, and one token and one request is the
most that it asks for.

Key definitions: `Call.AsksOnce`, `Access.Passes`, `Access.Called`, `Dispatcher.TestEnds`,
`Dispatcher.PassesTest`.
Key theorems: `Wire.Incoming.read_eq_ok_iff`, `Access.run_freshen_iff`, `Access.test_ends`,
`testDatasource_ends`, `TestEnds.isSuccess_iff`, `tests_truthful`.
-/
import Relay.Connector.Rest
import Relay.Proofs.Endings
import Relay.Proofs.Mirroring
import Relay.Proofs.Validity

namespace Relay

open Call Wire

variable {σ : Type} {s t u : State σ}

/-- An answer is read exactly if it ends and is within the limit. -/
theorem Wire.Incoming.read_eq_ok_iff {answer : Incoming} {limit : Nat} {timeout : Span}
    {reply : Reply} : answer.read limit timeout = .ok reply ↔
      answer.ending = .complete ∧ answer.size ≤ limit ∧ answer.reply = reply := by
  constructor
  · intro h
    have hcomplete : answer.ending = .complete := by
      obtain ⟨body, -, hfinish⟩ := except_bind_eq_ok_iff.mp h
      unfold finish at hfinish
      cases hending : answer.ending with
      | complete => rfl
      | broken =>
        rw [hending] at hfinish
        cases hfinish
      | late =>
        rw [hending] at hfinish
        cases hfinish
    rw [read_of_complete hcomplete] at h
    by_cases hsize : answer.size ≤ limit
    · rw [if_pos hsize] at h
      exact ⟨hcomplete, hsize, Except.ok.inj h⟩
    · rw [if_neg hsize] at h
      cases h
  · rintro ⟨hcomplete, hsize, rfl⟩
    rw [read_of_complete hcomplete, if_pos hsize]

/-- Between two states at most one token was asked for, and then at most one request was
handed over. -/
def Call.AsksOnce (s t : State σ) : Prop :=
  ∃ tokens sent, t.record = sent ++ tokens ++ s.record ∧ tokens.length ≤ 1 ∧ sent.length ≤ 1 ∧
    ∀ e ∈ tokens, e.AboutToken

theorem Call.AsksOnce.refl (s : State σ) : AsksOnce s s :=
  ⟨[], [], rfl, Nat.zero_le 1, Nat.zero_le 1, fun _ he => nomatch he⟩

namespace Access

variable (a : Access σ) {c : Connector} {ds : Datasource} {always : Bool}
  {credential : Option Credential} {connection : Connection} {timeout : Span} {limit : Nat}

/-! ### The credential -/

theorem run_due {client : OAuthClient} (h : a.Due always client (a.network.now s.outside)) :
    (if always then pure true else a.needsToken (.oauth client)).run s = (.ok true, s) := by
  cases always with
  | true => rfl
  | false =>
    rcases h with h | h
    · cases h
    · rw [if_neg Bool.false_ne_true, run_needsToken, h]
      rfl

/-- What becomes of a credential is certain. -/
theorem run_freshen_iff {result : Except Halt (Option Credential)} :
    (a.freshen always credential).run s = (result, t) ↔
      a.Freshened always s credential result t := by
  refine ⟨a.freshen_ends, fun h => ?_⟩
  cases h with
  | kept h => exact a.run_freshen_of_keeps h
  | undated honce h =>
    unfold freshen
    dsimp only
    rw [honce, if_neg Bool.false_ne_true, run_bind, run_needsToken, h]
    rfl
  | fetched hdue h =>
    unfold freshen
    dsimp only
    rw [run_bind, a.run_due hdue]
    dsimp only [freshenIf]
    rw [if_pos rfl, run_bind, run_renew, h]
    rfl
  | refused hdue h =>
    unfold freshen
    dsimp only
    rw [run_bind, a.run_due hdue]
    dsimp only [freshenIf]
    rw [if_pos rfl, run_bind, run_renew, h]
    rfl

variable {a}

/-- A token at most is asked for. -/
theorem Freshened.tokens {result : Except Halt (Option Credential)}
    (h : a.Freshened always s credential result t) :
    ∃ tokens, t.record = tokens ++ s.record ∧ tokens.length ≤ 1 ∧
      ∀ e ∈ tokens, e.AboutToken := by
  have one {e : Event} (he : e.AboutToken) : ∀ e' ∈ [e], e'.AboutToken := fun e' he' => by
    rw [List.mem_singleton.mp he']
    exact he
  cases h with
  | kept h => exact ⟨[], rfl, Nat.zero_le 1, fun _ he => nomatch he⟩
  | undated honce h => exact ⟨[], rfl, Nat.zero_le 1, fun _ he => nomatch he⟩
  | fetched hdue h => exact ⟨[_], rfl, Nat.le_refl 1, one rfl⟩
  | refused hdue h => exact ⟨[_], rfl, Nat.le_refl 1, one rfl⟩

theorem Freshened.asksOnce {result : Except Halt (Option Credential)}
    (h : a.Freshened always s credential result t) : AsksOnce s t := by
  obtain ⟨tokens, hrecord, hone, htokens⟩ := h.tokens
  exact ⟨tokens, [], hrecord, hone, Nat.zero_le 1, htokens⟩

theorem Freshened.unique {result result' : Except Halt (Option Credential)}
    (h : a.Freshened always s credential result t)
    (h' : a.Freshened always s credential result' u) : result = result' ∧ t = u := by
  have hrun := (a.run_freshen_iff.mpr h).symm.trans (a.run_freshen_iff.mpr h')
  exact Prod.mk.inj hrun

variable (a)

/-! ### The test call -/

/-- What comes of a request: the answer, as far as it can be read. -/
theorem run_send_eq (connection : Connection) (r : Request) (timeout : Span) (limit : Nat)
    (s : State σ) : (a.send connection r timeout limit).run s =
      (.ok ((a.network.send (.ofRequest connection r) timeout s.outside).1.bind
          fun answer => answer.read limit timeout),
        { s with
          outside := (a.network.send (.ofRequest connection r) timeout s.outside).2
          record := .request connection r timeout limit :: s.record }) := by
  rw [send]
  rcases hsend : a.network.send (.ofRequest connection r) timeout s.outside with
    ⟨fault | answer, outside⟩
  · simp [hsend, Except.bind]
  · simp [hsend, Except.bind]

/-- The test call of a connector is passed in `s`: there is none to make, or it is answered
within the time and the limit, with a status that the connector has nothing against. -/
inductive Passes (c : Connector) (ds : Datasource) (connection : Connection) (timeout : Span)
    (limit : Nat) (s : State σ) : Prop
  | unasked (h : c.testRequest ds = .ok none) : Passes c ds connection timeout limit s
  | answered {r : Request} {answer : Incoming} (hr : c.testRequest ds = .ok (some r))
    (h : (a.network.send (.ofRequest connection r) timeout s.outside).1 = .ok answer)
    (hcomplete : answer.ending = .complete) (hsize : answer.size ≤ limit)
    (hverdict : c.verdict answer.status = none) : Passes c ds connection timeout limit s

theorem passes_iff {r : Request} (hr : c.testRequest ds = .ok (some r)) :
    a.Passes c ds connection timeout limit s ↔
      ∃ reply, ((a.network.send (.ofRequest connection r) timeout s.outside).1.bind
        fun answer => answer.read limit timeout) = .ok reply ∧
          c.verdict reply.status = none := by
  constructor
  · intro h
    cases h with
    | unasked h => cases hr.symm.trans h
    | @answered r' answer hr' h hcomplete hsize hverdict =>
      cases hr.symm.trans hr'
      refine ⟨answer.reply, ?_, hverdict⟩
      rw [h]
      exact Incoming.read_eq_ok_iff.mpr ⟨hcomplete, hsize, rfl⟩
  · rintro ⟨reply, h, hverdict⟩
    obtain ⟨answer, hanswer, hread⟩ := except_bind_eq_ok_iff.mp h
    obtain ⟨hcomplete, hsize, rfl⟩ := Incoming.read_eq_ok_iff.mp hread
    exact .answered hr hanswer hcomplete hsize hverdict

/-- What a test call from `s` comes to: it is one request at most, it leaves the pool alone, and
it is a success exactly if it is passed. -/
structure Called (c : Connector) (ds : Datasource) (connection : Connection) (timeout : Span)
    (limit : Nat) (s : State σ) (report : TestReport) (t : State σ) : Prop where
  pool : t.pool = s.pool
  sent : ∃ sent, t.record = sent ++ s.record ∧ sent.length ≤ 1
  isSuccess_iff : report.isSuccess = true ↔ a.Passes c ds connection timeout limit s

/-- **A test call ends in a report.** -/
theorem test_ends (c : Connector) (ds : Datasource) (connection : Connection) (timeout : Span)
    (limit : Nat) (s : State σ) : ∃ report t,
      (a.test c ds connection timeout limit).run s = (.ok report, t) ∧
      a.Called c ds connection timeout limit s report t := by
  unfold test
  cases hr : c.testRequest ds with
  | error f =>
    refine ⟨.failure f.message, s, rfl, rfl, ⟨[], rfl, Nat.zero_le 1⟩,
      fun h => absurd h Bool.false_ne_true, fun h => ?_⟩
    cases h with
    | unasked h => cases hr.symm.trans h
    | answered h => cases hr.symm.trans h
  | ok asked =>
    cases asked with
    | none => exact ⟨{}, s, rfl, rfl, ⟨[], rfl, Nat.zero_le 1⟩, fun _ => .unasked hr, fun _ => rfl⟩
    | some r =>
      dsimp only
      rw [run_bind, run_send_eq]
      cases hanswer : (a.network.send (.ofRequest connection r) timeout s.outside).1.bind
        fun answer => answer.read limit timeout with
      | error fault =>
        refine ⟨.failure fault.failure.message, _, rfl, rfl, ⟨[_], rfl, Nat.le_refl 1⟩,
          fun h => absurd h Bool.false_ne_true, fun h => ?_⟩
        obtain ⟨reply, hreply, -⟩ := (a.passes_iff hr).mp h
        cases hanswer.symm.trans hreply
      | ok reply =>
        dsimp only
        cases hverdict : c.verdict reply.status with
        | none =>
          exact ⟨{}, _, rfl, rfl, ⟨[_], rfl, Nat.le_refl 1⟩,
            fun _ => (a.passes_iff hr).mpr ⟨reply, hanswer, hverdict⟩, fun _ => rfl⟩
        | some message =>
          refine ⟨.failure message, _, rfl, rfl, ⟨[_], rfl, Nat.le_refl 1⟩,
            fun h => absurd h Bool.false_ne_true, fun h => ?_⟩
          obtain ⟨reply', hreply, hnone⟩ := (a.passes_iff hr).mp h
          cases hanswer.symm.trans hreply
          cases hverdict.symm.trans hnone

end Access

namespace Dispatcher

variable (d : Dispatcher σ) {c : Connector} {name : String} {ds : Datasource}

/-! ### The steps of a test -/

/-- What a test does for a datasource without problems. -/
def attempt (c : Connector) (ds : Datasource) : Call σ TestReport := do
  d.takePermit
  let connected ← d.connectUncached c ds
  d.test c ds connected.connection d.settings.defaultTimeout d.settings.maxResponse

/-- A failure is put into the report. -/
def reported : Except Halt TestReport × State σ → Except Halt TestReport × State σ
  | (.error (.failed f), t) => (.ok (.failure f.message), t)
  | ended => ended

theorem run_testDatasource_of_valid (hc : d.registry.require name = .ok c)
    (h : c.problems ds = []) (s : State σ) :
    (d.testDatasource name ds).run s = reported ((d.attempt c ds).run s) := by
  -- with no problems found what is left of a test is its attempt, so the sides differ by what
  -- is made of its end
  rcases hrun : (d.attempt c ds).run s with ⟨(f | _ | _) | report, t⟩
  all_goals
    unfold attempt at hrun
    unfold testDatasource connector
    rw [run_bind, run_outcome, run_ofExcept_bind_ok hc]
    dsimp only
    rw [h]
    simp only [List.isEmpty_nil, Bool.not_true, Bool.false_eq_true, if_false, hrun]
    rfl

theorem run_attempt_of_noPermit (h : d.permits = 0) (c : Connector) (ds : Datasource)
    (s : State σ) : (d.attempt c ds).run s = (.error .noPermit, s) := by
  unfold attempt takePermit
  rw [if_pos h]
  rfl

/-- With a permit, what a valid datasource is tested with is its own credential or the one that
was renewed for it. -/
theorem run_attempt (hvalid : c.validate ds = .ok ()) (hpermits : d.permits ≠ 0) (s : State σ) :
    (d.attempt c ds).run s =
      (d.freshen false ds.credential >>= fun renewed =>
        d.test c ds ⟨0, renewed.or ds.credential⟩ d.settings.defaultTimeout
          d.settings.maxResponse).run s := by
  unfold attempt takePermit
  rw [if_neg hpermits]
  have hconnected : (d.connectUncached c ds >>= fun connected =>
      d.test c ds connected.connection d.settings.defaultTimeout d.settings.maxResponse).run s =
      (d.connectTransient ds >>= fun connected =>
        d.test c ds connected.connection d.settings.defaultTimeout
          d.settings.maxResponse).run s := by
    rw [run_bind, run_bind, Access.connectUncached, run_ofExcept_bind_ok hvalid]
  refine Eq.trans hconnected ?_
  rw [run_bind, run_bind, d.run_connectTransient]
  rcases (d.freshen false ds.credential).run s with ⟨halt | renewed, u⟩
  · rfl
  · rfl

/-! ### The whole test -/

/-- How a test of a datasource ends: with its problems, without a permit, with a credential that
cannot be had, or with the test call. -/
inductive TestEnds (c : Connector) (ds : Datasource) (s : State σ) :
    Except Halt TestReport → State σ → Prop
  | invalid (h : c.problems ds ≠ []) : TestEnds c ds s (.ok ⟨c.problems ds⟩) s
  | noPermit (hvalid : c.problems ds = []) (h : d.permits = 0) :
    TestEnds c ds s (.error .noPermit) s
  | refused {f : Failure} {t : State σ} (hvalid : c.problems ds = []) (hpermits : d.permits ≠ 0)
    (h : d.Freshened false s ds.credential (.error (.failed f)) t) :
    TestEnds c ds s (.ok (.failure f.message)) t
  | halted {halt : Halt} {t : State σ} (hvalid : c.problems ds = []) (hpermits : d.permits ≠ 0)
    (hhalt : ∀ f, halt ≠ .failed f) (h : d.Freshened false s ds.credential (.error halt) t) :
    TestEnds c ds s (.error halt) t
  | tested {renewed : Option Credential} {report : TestReport} {u t : State σ}
    (hvalid : c.problems ds = []) (hpermits : d.permits ≠ 0)
    (h : d.Freshened false s ds.credential (.ok renewed) u)
    (hcalled : d.Called c ds ⟨0, renewed.or ds.credential⟩ d.settings.defaultTimeout
      d.settings.maxResponse u report t) : TestEnds c ds s (.ok report) t

/-- **How a test ends.** -/
theorem testDatasource_ends (hc : d.registry.require name = .ok c)
    {result : Except Halt TestReport}
    (h : (d.testDatasource name ds).run s = (result, t)) : d.TestEnds c ds s result t := by
  by_cases hvalid : c.problems ds = []
  · rw [d.run_testDatasource_of_valid hc hvalid] at h
    by_cases hpermits : d.permits = 0
    · rw [d.run_attempt_of_noPermit hpermits] at h
      cases h
      exact .noPermit hvalid hpermits
    · rw [d.run_attempt ((c.problems_eq_nil_iff ds).mp hvalid) hpermits, run_bind] at h
      rcases hfresh : (d.freshen false ds.credential).run s with ⟨(f | _ | _) | renewed, u⟩
      · rw [hfresh] at h
        cases h
        exact .refused hvalid hpermits (d.freshen_ends hfresh)
      · rw [hfresh] at h
        cases h
        exact .halted hvalid hpermits (by simp) (d.freshen_ends hfresh)
      · rw [hfresh] at h
        cases h
        exact .halted hvalid hpermits (by simp) (d.freshen_ends hfresh)
      · obtain ⟨report, v, htest, hcalled⟩ := d.test_ends c ds ⟨0, renewed.or ds.credential⟩
          d.settings.defaultTimeout d.settings.maxResponse u
        rw [hfresh] at h
        dsimp only at h
        rw [htest] at h
        cases h
        exact .tested hvalid hpermits (d.freshen_ends hfresh) hcalled
  · rw [d.testDatasource_of_problems hc hvalid] at h
    cases h
    exact .invalid hvalid

/-- The test of a datasource is passed in `s`: it has no problems, its credential is fit for use
or a token is fetched for it, and then the test call of the connector is passed. -/
structure PassesTest (name : String) (c : Connector) (ds : Datasource) (s : State σ) : Prop where
  valid : d.problems name ds = []
  passes : ∃ renewed u, d.Freshened false s ds.credential (.ok renewed) u ∧
    d.Passes c ds ⟨0, renewed.or ds.credential⟩ d.settings.defaultTimeout d.settings.maxResponse u

variable {d} {result : Except Halt TestReport}

theorem TestEnds.pool (h : d.TestEnds c ds s result t) : t.pool = s.pool := by
  cases h with
  | invalid h => rfl
  | noPermit hvalid h => rfl
  | refused hvalid hpermits h => exact h.pool
  | halted hvalid hpermits hhalt h => exact h.pool
  | tested hvalid hpermits h hcalled => exact hcalled.pool.trans h.pool

theorem TestEnds.asksOnce (h : d.TestEnds c ds s result t) : AsksOnce s t := by
  cases h with
  | invalid h => exact .refl s
  | noPermit hvalid h => exact .refl s
  | refused hvalid hpermits h => exact h.asksOnce
  | halted hvalid hpermits hhalt h => exact h.asksOnce
  | tested hvalid hpermits h hcalled =>
    obtain ⟨tokens, hu, hone, htokens⟩ := h.tokens
    obtain ⟨sent, ht, hsent⟩ := hcalled.sent
    refine ⟨tokens, sent, ?_, hone, hsent, htokens⟩
    rw [ht, hu, List.append_assoc]

/-- **A report tells of success exactly if the test is passed.** -/
theorem TestEnds.isSuccess_iff (hc : d.registry.require name = .ok c) {report : TestReport}
    (h : d.TestEnds c ds s (.ok report) t) :
    report.isSuccess = true ↔ d.PassesTest name c ds s := by
  have hproblems := d.problems_eq hc ds
  cases h with
  | invalid h =>
    refine ⟨fun hsuccess => absurd (List.isEmpty_iff.mp hsuccess) h, fun hpasses => ?_⟩
    exact absurd (hproblems ▸ hpasses.valid) h
  | refused hvalid hpermits h =>
    refine ⟨fun hsuccess => absurd hsuccess Bool.false_ne_true, fun hpasses => ?_⟩
    obtain ⟨renewed, u, hready, -⟩ := hpasses.passes
    cases (h.unique hready).1
  | @tested renewed report u t hvalid hpermits h hcalled =>
    refine hcalled.isSuccess_iff.trans
      ⟨fun hpasses => ⟨hproblems.trans hvalid, renewed, u, h, hpasses⟩, ?_⟩
    rintro ⟨-, renewed', u', hready, hpasses⟩
    obtain ⟨heq, rfl⟩ := h.unique hready
    cases heq
    exact hpasses

/-- Only the lack of permits, and what the credential is waiting for, ends a test without a
report. -/
theorem TestEnds.of_error {halt : Halt} (h : d.TestEnds c ds s (.error halt) t) :
    (halt = .noPermit ∧ d.permits = 0 ∧ c.problems ds = []) ∨
      (∀ f, halt ≠ .failed f) ∧ d.Freshened false s ds.credential (.error halt) t := by
  cases h with
  | noPermit hvalid h => exact .inl ⟨rfl, h, hvalid⟩
  | halted hvalid hpermits hhalt h => exact .inr ⟨hhalt, h⟩

variable (d)

/-- **A test changes nothing and tells the truth.** Whatever the pool has and whatever lies
outside, a test of a datasource of a registered connector leaves the pool with its versions as it
was, and asks for one token and one request at most. It reports success exactly if it is passed.
A failure is always reported: the test ends without a report only if a time is off the calendar
or the source of tokens does not return, and if there are no permits at all it waits for one. -/
theorem tests_truthful (hc : d.registry.require name = .ok c) (ds : Datasource) (s : State σ) :
    ∃ result t, (d.testDatasource name ds).run s = (result, t) ∧
      t.pool = s.pool ∧ AsksOnce s t ∧
      (d.permits ≠ 0 ∨ d.problems name ds ≠ [] →
        ((∃ report, result = .ok report ∧ report.isSuccess = true) ↔ d.PassesTest name c ds s)) ∧
      ∀ halt, result = .error halt →
        (halt = .noPermit ∧ d.permits = 0 ∧ d.problems name ds = []) ∨
          (∀ f, halt ≠ .failed f) ∧ d.Freshened false s ds.credential (.error halt) t := by
  rcases hrun : (d.testDatasource name ds).run s with ⟨result, t⟩
  have hends := d.testDatasource_ends hc hrun
  refine ⟨result, t, rfl, hends.pool, hends.asksOnce, fun hreports => ?_, ?_⟩
  · cases result with
    | ok report =>
      rw [← hends.isSuccess_iff hc]
      exact ⟨fun ⟨_, heq, hsuccess⟩ => Except.ok.inj heq ▸ hsuccess, fun hsuccess =>
        ⟨report, rfl, hsuccess⟩⟩
    | error halt =>
      refine ⟨fun ⟨_, heq, _⟩ => (nomatch heq), fun hpasses => ?_⟩
      rcases hends.of_error with ⟨-, hnone, -⟩ | ⟨-, h⟩
      · exact absurd hpasses.valid (hreports.resolve_left (absurd hnone))
      · obtain ⟨renewed, u, hready, -⟩ := hpasses.passes
        cases (h.unique hready).1
  · rintro halt rfl
    rw [d.problems_eq hc]
    exact hends.of_error

/-- A dispatcher of the REST connector to which every request brings this status, and every
client the same token. -/
def restAnswering (status : Nat) : Dispatcher Unit :=
  { delivering { status } {} with registry := ⟨[("restapi-plugin", Rest.connector)]⟩ }

/-- A client without a token. -/
def tokenless : Datasource :=
  { url := some "http://a.test"
    credential := some (.oauth ⟨"me", ⟨"mine"⟩, "http://b.test/token", none, none⟩) }

/-- A datasource that answers is fine, even if there is nothing at its URL. -/
theorem tests_truthful_notFound :
    (restAnswering 404).registry.require "restapi-plugin" = .ok Rest.connector ∧
    ∃ report t, ((restAnswering 404).testDatasource "restapi-plugin" tokenless).run
        { outside := () } = (.ok report, t) ∧
      report.isSuccess = true ∧ t.pool = {} ∧ AsksOnce { outside := () } t := by
  have hc : (restAnswering 404).registry.require "restapi-plugin" = .ok Rest.connector := rfl
  have hvalid : (restAnswering 404).problems "restapi-plugin" tokenless = [] := by decide +kernel
  have hrequest : Rest.connector.testRequest tokenless = .ok (some
      { method := .head
        url := ⟨"http", some ⟨"", none, some (.domain "a.test"), none⟩, "/", none, none⟩ }) :=
    except_eq_ok_of_toOption (by decide +kernel)
  have hpasses : (restAnswering 404).PassesTest "restapi-plugin" Rest.connector tokenless
      { outside := () } :=
    ⟨hvalid, _, _, .fetched (.inr rfl) rfl, (Access.passes_iff _ hrequest).mpr
      ⟨{ status := 404 }, except_eq_ok_of_toOption (by decide +kernel), rfl⟩⟩
  obtain ⟨result, t, hrun, hpool, hasks, hsuccess, -⟩ :=
    (restAnswering 404).tests_truthful hc tokenless { outside := () }
  obtain ⟨report, rfl, hreport⟩ := (hsuccess (.inl (by decide))).mpr hpasses
  exact ⟨hc, report, t, hrun, hreport, hpool, hasks⟩

end Dispatcher

end Relay
