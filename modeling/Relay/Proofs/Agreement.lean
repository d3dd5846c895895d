/-
# Connecting again

Connecting twice gives the same connection, as long as nothing else is done to the pool in
between and no token falls due: with an id the second call finds what the first has put into
the pool, and without one both are made of the datasource. So an execution, which connects by
itself, comes to the same as an execution over the connection that was handed out before: it
is refused for the same reason, or sends the same request and reports the same on the same
answer.

Key definitions: `Dispatcher.ready`, `Dispatcher.conclude`, `Dispatcher.Alike`.
Key theorems: `Access.reconnect`, `run_execute`, `run_executeOver`, `conclude_alike`,
`executions_agree`.
-/
import Relay.Proofs.Carrying
import Relay.Proofs.Timeliness
import Relay.Proofs.Versions

namespace Relay

open Call Wire

namespace Access

variable {σ : Type} (a : Access σ) {s t u : State σ} {c : Connector} {d : Datasource}
  {x : Connected}

/-! ### Connecting where no token is due -/

/-- Without an id, the connection is made of the datasource. -/
theorem run_connect_transient (hvalid : c.validate d = .ok ()) (hid : d.id = none)
    (h : a.KeepsEntry false (a.network.now s.outside) d.credential) :
    (a.connect c d).run s = (.ok ⟨⟨0, d.credential⟩, none⟩, s) := by
  refine run_ofExcept_bind_eq_ok_iff.mpr ⟨(), hvalid, ?_⟩
  rw [hid]
  show (a.connectTransient d).run s = _
  rw [run_connectTransient, a.run_freshen_of_keeps h]
  rfl

/-- With an id, the connection is that of the entry that there is once the datasource is
entered, and entering it is all that happens. -/
theorem run_connect_entered {id : String} {e : Pool.Entry} (hvalid : c.validate d = .ok ())
    (hid : d.id = some id)
    (he : (s.pool.enter (Pool.key c.name id) d.credential).find? (Pool.key c.name id) = some e)
    (h : a.KeepsEntry false (a.network.now s.outside) e.credential) :
    (a.connect c d).run s = (.ok ⟨e.connection, none⟩,
      { s with pool := s.pool.enter (Pool.key c.name id) d.credential }) := by
  refine run_ofExcept_bind_eq_ok_iff.mpr ⟨(), hvalid, ?_⟩
  rw [hid]
  let entered : State σ := { s with pool := s.pool.enter (Pool.key c.name id) d.credential }
  have hrefresh : (a.refresh (Pool.key c.name id) false).run entered = (.ok none, entered) := by
    have hkeeps : a.KeepsEntry false (a.network.now entered.outside) e.credential := h
    rw [a.run_refresh he, a.run_freshen_of_keeps hkeeps]
    rfl
  show (a.refresh (Pool.key c.name id) false >>= fun refreshed =>
    pooled (Pool.key c.name id) >>= fun connection =>
      pure (⟨connection, refreshed⟩ : Connected)).run entered = _
  rw [run_bind, hrefresh]
  dsimp only
  rw [run_bind, run_pooled he]
  rfl

/-- With an entry for the datasource in the pool, the connection is that of the entry. -/
theorem run_connect_pooled {id : String} {e : Pool.Entry} (hvalid : c.validate d = .ok ())
    (hid : d.id = some id) (he : s.pool.find? (Pool.key c.name id) = some e)
    (hidentity : e.identity = d.credential.map Credential.identity)
    (h : a.KeepsEntry false (a.network.now s.outside) e.credential) :
    (a.connect c d).run s = (.ok ⟨e.connection, none⟩, s) := by
  have henter := Pool.enter_of_identity he hidentity
  rw [a.run_connect_entered hvalid hid (henter.symm ▸ he) h, henter]

/-- Without an entry there, the datasource's credential is put into the pool as it is. -/
theorem run_connect_entering {id : String} (hvalid : c.validate d = .ok ()) (hid : d.id = some id)
    (hnone : s.pool.find? (Pool.key c.name id) = none)
    (h : a.KeepsEntry false (a.network.now s.outside) d.credential) :
    (a.connect c d).run s = (.ok ⟨⟨s.pool.next, d.credential⟩, none⟩,
      { s with pool := s.pool.enter (Pool.key c.name id) d.credential }) := by
  have he : (s.pool.enter (Pool.key c.name id) d.credential).find? (Pool.key c.name id) =
      some ⟨d.credential.map Credential.identity, s.pool.next, d.credential⟩ := by
    rw [Pool.enter_of_none hnone, Pool.find?_store_self]
  exact a.run_connect_entered hvalid hid he h

/-- **Connecting again gives the same connection and touches nothing**, if the pool is as it
was left and no token is due. Without an id there is no place for a renewed token, so
there the first call must not have renewed one, as it has not unless the clock goes back. -/
theorem reconnect (h : (a.connect c d).run s = (.ok x, t)) (hpool : u.pool = t.pool)
    (hkeeps : a.KeepsEntry false (a.network.now u.outside) (atHand c d d.id u.pool))
    (hclock : d.id = none → x.refreshed = none ∨
      (a.network.now s.outside).le (a.network.now u.outside) = true) :
    (a.connect c d).run u = (.ok ⟨x.connection, none⟩, u) := by
  have hends := a.connect_ends h
  have hvalid := hends.valid
  cases hid : d.id with
  | none =>
    rw [hid] at hkeeps hends
    have hx : x.connection = ⟨0, d.credential⟩ := by
      rcases hclock hid with hnone | hle
      · cases hends with
        | transient _ _ _ hends =>
          cases hends with
          | kept hkept => rfl
          | renewed hrenewed => cases hnone
        | pooled _ hsome => cases hsome
      · rw [a.run_connect_transient hvalid hid (hkeeps.earlier hle)] at h
        cases h
        rfl
    rw [a.run_connect_transient hvalid hid hkeeps, hx]
  | some id =>
    rw [hid] at hkeeps hends
    obtain ⟨e, he, hidentity, hconnection⟩ := hends.entry
    rw [← hpool] at he
    have hhand : atHand c d (some id) u.pool = e.credential := by
      unfold atHand
      dsimp only
      rw [Pool.enter_of_identity he hidentity, he]
      rfl
    rw [hhand] at hkeeps
    rw [a.run_connect_pooled hvalid hid he hidentity hkeeps, hconnection]

end Access

/-! ### Executions -/

namespace Dispatcher

variable {σ : Type} (d : Dispatcher σ) {s t u : State σ} {name : String} {c : Connector}
  {connection : Connection} {i : Invocation} {ds : Datasource} {action : Action} {x : Connected}

/-- The plan of an action for which there is a permit. -/
def ready (c : Connector) (i : Invocation) (ds : Datasource) (action : Action) :
    Except Halt Plan :=
  if d.permits = 0 then .error .noPermit else (plan c i ds action).mapError .failed

/-- What an execution comes to, once there is a connection for its plan. -/
def conclude (connection : Connection) : Except Halt Plan → Call σ Report
  | .ok p => d.run p connection
  | .error (.failed f) => pure (.ofFailure f none)
  | .error other => halt other

/-- The report on the request of a plan, from what came back. -/
def reportOn (p : Plan) (connection : Connection) : Except Fault Reply → Report
  | .ok reply => reply.classify p.command.format (some (connection.snapshot p.request p.inserted))
  | .error fault => .ofFailure fault.failure (some (connection.snapshot p.request p.inserted))

/-- No report on a request hands a credential back by itself. -/
theorem reportOn_refreshed (p : Plan) (connection : Connection) (answer : Except Fault Reply) :
    (reportOn p connection answer).refreshed = none := by
  cases answer with
  | error fault => rfl
  | ok reply =>
    unfold reportOn
    dsimp only
    rcases reply.classify_cases p.command.format
      (some (connection.snapshot p.request p.inserted)) with ⟨body, -, heq⟩ | ⟨f, -, heq⟩
    · rw [heq]
      rfl
    · rw [heq]
      rfl

/-- The report depends on nothing but what came back. -/
theorem run_eq_reportOn (p : Plan) (connection : Connection) (s : State σ) :
    ∃ answer t, (d.send connection p.request
        (p.action.effectiveTimeout d.settings.defaultTimeout) d.settings.maxResponse).run s =
        (.ok answer, t) ∧
      (d.run p connection).run s = (.ok (reportOn p connection answer), t) := by
  obtain ⟨answer, outside, hsend⟩ := d.run_send connection p.request
    (p.action.effectiveTimeout d.settings.defaultTimeout) d.settings.maxResponse s
  refine ⟨answer, _, hsend, ?_⟩
  unfold run
  dsimp only
  rw [run_bind, hsend]
  cases answer with
  | ok reply => rfl
  | error fault => rfl

/-- An execution that finds its connection at hand. -/
theorem run_execute (hc : d.registry.require name = .ok c)
    (hconnect : (d.connect c ds).run s = (.ok ⟨connection, none⟩, s)) :
    (d.execute name i ds action).run s =
      (d.conclude connection (d.ready c i ds action)).run s := by
  have hprepare : (d.prepare name i ds action).run s =
      ((d.ready c i ds action).map fun p => (p, ⟨connection, none⟩), s) := by
    unfold prepare connector takePermit ready
    rw [run_ofExcept_bind_ok hc]
    by_cases hpermits : d.permits = 0
    · rw [if_pos hpermits, if_pos hpermits]
      rfl
    · rw [if_neg hpermits, if_neg hpermits]
      show (ofExcept (plan c i ds action) >>= fun p =>
        d.connect c ds >>= fun x => pure (p, x)).run s = _
      cases plan c i ds action with
      | error f => rfl
      | ok p =>
        show (d.connect c ds >>= fun x => pure (p, x)).run s = _
        rw [run_bind, hconnect]
        rfl
  unfold execute
  rw [run_bind, run_outcome, hprepare]
  rcases d.ready c i ds action with (f | _ | _) | p
  · rfl
  · rfl
  · rfl
  · obtain ⟨answer, t, -, hrun⟩ := d.run_eq_reportOn p connection s
    show (d.run p connection >>= fun report => pure { report with refreshed := none }).run s =
      (d.run p connection).run s
    rw [run_bind, hrun]
    have hsame : { reportOn p connection answer with refreshed := none } =
        reportOn p connection answer := by
      rw [← reportOn_refreshed p connection answer]
    exact congrArg (fun report => (Except.ok report, t)) hsame

/-- An execution over a connection whose credential passes the check. -/
theorem run_executeOver (hc : d.registry.require name = .ok c)
    (hcheck : Credential.check c.accepts connection.credential = .ok ()) (s : State σ) :
    (d.executeOver name connection i ds action).run s =
      (d.conclude connection (d.ready c i ds action)).run s := by
  have hprepare : (d.prepareOver name connection i ds action).run s =
      (d.ready c i ds action, s) := by
    unfold prepareOver connector takePermit ready
    rw [run_ofExcept_bind_ok hc, run_ofExcept_bind_ok hcheck]
    by_cases hpermits : d.permits = 0
    · rw [if_pos hpermits, if_pos hpermits]
      rfl
    · rw [if_neg hpermits, if_neg hpermits]
      show (ofExcept (plan c i ds action)).run s = _
      cases plan c i ds action with
      | error f => rfl
      | ok p => rfl
  unfold executeOver
  rw [run_bind, run_outcome, hprepare]
  rcases d.ready c i ds action with (f | _ | _) | p
  · rfl
  · rfl
  · rfl
  · rfl

/-- Two runs end alike, one from `u` and one from `v`: both are refused for the same reason
before anything is sent, or both wait for a permit, or both send the same request over the
connection, with the same time and size, and report the same if the same came back. -/
inductive Alike (connection : Connection) (u v : State σ) :
    Except Halt Report × State σ → Except Halt Report × State σ → Prop
  | refused (f : Failure) :
    Alike connection u v (.ok (.ofFailure f none), u) (.ok (.ofFailure f none), v)
  | waiting (h : d.permits = 0) : Alike connection u v (.error .noPermit, u) (.error .noPermit, v)
  | sent {r : Request} {timeout : Span} {limit : Nat} {answer answer' : Except Fault Reply}
    {report report' : Report} {u' v' : State σ}
    (h : (d.send connection r timeout limit).run u = (.ok answer, u'))
    (h' : (d.send connection r timeout limit).run v = (.ok answer', v'))
    (hsame : answer = answer' → report = report') :
    Alike connection u v (.ok report, u') (.ok report', v')

theorem ready_eq_error {halt : Halt} (h : d.ready c i ds action = .error halt) :
    (∃ f, halt = .failed f) ∨ halt = .noPermit ∧ d.permits = 0 := by
  unfold ready at h
  split at h
  · rename_i hpermits
    cases h
    exact .inr ⟨rfl, hpermits⟩
  · cases hplan : plan c i ds action with
    | error f =>
      rw [hplan] at h
      cases h
      exact .inl ⟨f, rfl⟩
    | ok p =>
      rw [hplan] at h
      cases h

/-- **Over one connection, the same action ends alike from any two states.** -/
theorem conclude_alike (connection : Connection) (u v : State σ) :
    d.Alike connection u v ((d.conclude connection (d.ready c i ds action)).run u)
      ((d.conclude connection (d.ready c i ds action)).run v) := by
  cases hready : d.ready c i ds action with
  | error halt =>
    rcases d.ready_eq_error hready with ⟨f, rfl⟩ | ⟨rfl, hpermits⟩
    · exact .refused f
    · exact .waiting hpermits
  | ok p =>
    obtain ⟨answer, u', hsend, hrun⟩ := d.run_eq_reportOn p connection u
    obtain ⟨answer', v', hsend', hrun'⟩ := d.run_eq_reportOn p connection v
    show d.Alike connection u v ((d.run p connection).run u) ((d.run p connection).run v)
    rw [hrun, hrun']
    exact .sent hsend hsend' fun h => congrArg _ h

theorem conclude_refreshed {ready : Except Halt Plan} {report : Report}
    (h : ((d.conclude connection ready).run s).1 = .ok report) : report.refreshed = none := by
  rcases ready with (f | _ | _) | p
  · cases h
    rfl
  · cases h
  · cases h
  · obtain ⟨answer, t, -, hrun⟩ := d.run_eq_reportOn p connection s
    have hreport : ((d.run p connection).run s).1 = .ok report := h
    rw [hrun] at hreport
    cases hreport
    exact reportOn_refreshed p connection answer

/-- **An execution and one over a connection that was handed out before are the same.** After
any history, let connecting to the datasource hand out a connection; from then on let the
pool be left alone, whatever else changes, and let no token be due. Then an execution for the
datasource and an execution over that connection are the same run. It hands back no
credential. And if the other execution is started later or earlier, from any other state,
the two still end alike. -/
theorem executions_agree (hs : d.Reachable s) (hc : d.registry.require name = .ok c)
    (h : (d.connect c ds).run s = (.ok x, t)) (hpool : u.pool = t.pool)
    (hkeeps : d.KeepsEntry false (d.network.now u.outside) (Access.atHand c ds ds.id u.pool))
    (hclock : ds.id = none → x.refreshed = none ∨
      (d.network.now s.outside).le (d.network.now u.outside) = true)
    (i : Invocation) (action : Action) :
    (d.execute name i ds action).run u =
        (d.executeOver name x.connection i ds action).run u ∧
      (∀ report, ((d.execute name i ds action).run u).1 = .ok report →
        report.refreshed = none) ∧
      ∀ v, d.Alike x.connection u v ((d.execute name i ds action).run u)
        ((d.executeOver name x.connection i ds action).run v) := by
  have hsame : Credential.SameButToken x.connection.credential ds.credential := by
    rcases d.connect_eq_ok hs.identified h with hkept | hrenewed
    · exact hkept.same
    · exact hrenewed.same
  have hcheck : Credential.check c.accepts x.connection.credential = .ok () :=
    hsame.check (Connector.check_of_validate (d.validate_of_eq_ok (.inl h)))
  have hexecute : (d.execute name i ds action).run u =
      (d.conclude x.connection (d.ready c i ds action)).run u :=
    d.run_execute hc (d.reconnect h hpool hkeeps hclock)
  have hover (v : State σ) : (d.executeOver name x.connection i ds action).run v =
      (d.conclude x.connection (d.ready c i ds action)).run v :=
    d.run_executeOver hc hcheck v
  rw [hexecute]
  refine ⟨(hover u).symm, fun report hreport => d.conclude_refreshed hreport, fun v => ?_⟩
  rw [hover v]
  exact d.conclude_alike x.connection u v

/-- A client's first connection fetches a token. The execution after it fetches none, and
sends its page over that connection. -/
theorem executions_agree_unserved : ∃ x t, lookingUp.Reachable { outside := () } ∧
    lookingUp.registry.require "lookup" = .ok lookup ∧
    (lookingUp.connect lookup Access.unserved).run { outside := () } = (.ok x, t) ∧
    x.refreshed.isSome = true ∧
    lookingUp.KeepsEntry false default (Access.atHand lookup Access.unserved (some "a") t.pool) ∧
    ((lookingUp.execute "lookup" {} Access.unserved {}).run t).2.record =
      .request x.connection lookup.page ⟨10000000⟩ 5242880 :: t.record ∧
    (lookingUp.execute "lookup" {} Access.unserved {}).run t =
      (lookingUp.executeOver "lookup" x.connection {} Access.unserved {}).run t := by
  have hrun : (lookingUp.connect lookup Access.unserved).run { outside := () } =
      (.ok ⟨⟨2, some (.oauth ⟨"me", ⟨"mine"⟩, "", none, some ⟨⟨"issued"⟩, none, default⟩⟩)⟩,
        some (.oauth ⟨"me", ⟨"mine"⟩, "", none, some ⟨⟨"issued"⟩, none, default⟩⟩)⟩, _) := rfl
  have hkeeps : lookingUp.KeepsEntry false default
      (some (.oauth ⟨"me", ⟨"mine"⟩, "", none, some ⟨⟨"issued"⟩, none, default⟩⟩)) :=
    .valid rfl rfl
  have hc : lookingUp.registry.require "lookup" = .ok lookup := rfl
  have hagree := lookingUp.executions_agree (.start ()) hc hrun rfl hkeeps (nomatch ·) {} {}
  exact ⟨_, _, .start (), hc, hrun, rfl, hkeeps, rfl, hagree.1⟩

end Dispatcher

end Relay
