/-
# How calls end

Connecting makes a credential fit for use. Without an id this is the credential of the
datasource itself. With one it is the credential of the entry that the pool has for the
datasource, or makes for it, and a new token is put there under the next version. Executions
and discoveries end before they connect, with connecting, or after their request.

Key definitions: `Access.Ends`, `Dispatcher.PrepareEnds`, `Dispatcher.ExecuteEnds`,
`Dispatcher.DiscoverEnds`.
Key theorems: `connect_ends`, `revalidate_ends`, `connectUncached_ends`, `execute_ends`,
`discover_ends`.
-/
import Relay.Proofs.Execution
import Relay.Proofs.Freshening

namespace Relay

open Call Wire

namespace Access

variable {σ : Type} (a : Access σ) {s t : State σ} {c : Connector} {d : Datasource}
  {always : Bool} {credential : Option Credential}

/-! ### Connecting -/

/-- How a connection past the pool ends. -/
inductive TransientEnds (credential : Option Credential) (s : State σ) :
    Except Halt Connected → State σ → Prop
  | kept {t : State σ} (h : a.Freshened false s credential (.ok none) t) :
    TransientEnds credential s (.ok ⟨⟨0, credential⟩, none⟩) t
  | renewed {renewed : Credential} {t : State σ}
    (h : a.Freshened false s credential (.ok (some renewed)) t) :
    TransientEnds credential s (.ok ⟨⟨0, some renewed⟩, some renewed⟩) t
  | halted {halt : Halt} {t : State σ} (h : a.Freshened false s credential (.error halt) t) :
    TransientEnds credential s (.error halt) t

/-- How a connection through the pool ends, once it has the entry `e` under the key. What a
revalidation keeps is put back under the next version. -/
inductive PooledEnds (key : String) (e : Pool.Entry) (always : Bool) (s : State σ) :
    Except Halt Connected → State σ → Prop
  | kept {t : State σ} (honce : always = false)
    (h : a.Freshened always s e.credential (.ok none) t) :
    PooledEnds key e always s (.ok ⟨e.connection, none⟩) t
  | putBack {t : State σ} (halways : always = true)
    (h : a.Freshened always s e.credential (.ok none) t) :
    PooledEnds key e always s (.ok ⟨⟨t.pool.next, e.credential⟩, none⟩)
      { t with pool := t.pool.replace key e.credential }
  | renewed {renewed : Credential} {t : State σ}
    (h : a.Freshened always s e.credential (.ok (some renewed)) t) :
    PooledEnds key e always s (.ok ⟨⟨t.pool.next, some renewed⟩, some renewed⟩)
      { t with pool := t.pool.replace key (some renewed) }
  | halted {halt : Halt} {t : State σ} (h : a.Freshened always s e.credential (.error halt) t) :
    PooledEnds key e always s (.error halt) t

/-- How connecting to a datasource ends, through the pool if an id is given. -/
inductive Ends (c : Connector) (d : Datasource) (id : Option String) (always : Bool)
    (s : State σ) : Except Halt Connected → State σ → Prop
  | invalid {f : Failure} (h : c.validate d = .error f) :
    Ends c d id always s (.error (.failed f)) s
  | transient {result : Except Halt Connected} {t : State σ} (hvalid : c.validate d = .ok ())
    (hid : id = none) (honce : always = false) (h : a.TransientEnds d.credential s result t) :
    Ends c d id always s result t
  | pooled {name : String} {e : Pool.Entry} {result : Except Halt Connected} {t : State σ}
    (hvalid : c.validate d = .ok ()) (hid : id = some name)
    (he : (s.pool.enter (Pool.key c.name name) d.credential).find? (Pool.key c.name name) = some e)
    (h : a.PooledEnds (Pool.key c.name name) e always
      { s with pool := s.pool.enter (Pool.key c.name name) d.credential } result t) :
    Ends c d id always s result t

variable {a}

theorem Ends.valid {id : Option String} {x : Connected}
    (h : a.Ends c d id always s (.ok x) t) : c.validate d = .ok () := by
  cases h with
  | transient hvalid hid honce h => exact hvalid
  | pooled hvalid hid he h => exact hvalid

/-- The connection is that of the entry, as the pool has it now. -/
theorem PooledEnds.entry {key : String} {e : Pool.Entry} (he : s.pool.find? key = some e)
    {x : Connected} (h : a.PooledEnds key e always s (.ok x) t) :
    ∃ e', t.pool.find? key = some e' ∧ e'.identity = e.identity ∧
      e'.connection = x.connection := by
  cases h with
  | kept honce h =>
    have hfind := h.pool ▸ he
    exact ⟨e, hfind, rfl, rfl⟩
  | putBack halways h =>
    have hfind := h.pool ▸ he
    exact ⟨_, Pool.find?_replace_self hfind _, rfl, rfl⟩
  | renewed h =>
    have hfind := h.pool ▸ he
    exact ⟨_, Pool.find?_replace_self hfind _, rfl, rfl⟩

theorem Ends.entry {name : String} {x : Connected}
    (h : a.Ends c d (some name) always s (.ok x) t) :
    ∃ e, t.pool.find? (Pool.key c.name name) = some e ∧
      e.identity = d.credential.map Credential.identity ∧ e.connection = x.connection := by
  cases h with
  | transient hvalid hid honce h => cases hid
  | @pooled name e result t hvalid hid he h =>
    cases hid
    obtain ⟨e₁, he₁, hidentity⟩ := s.pool.find?_enter_self (Pool.key c.name name) d.credential
    cases he.symm.trans he₁
    obtain ⟨e', he', hsame, hconnection⟩ := h.entry he
    exact ⟨e', he', hsame.trans hidentity, hconnection⟩

variable (a)

/-- Past the pool, a connection is made of what the credential has become. -/
theorem run_connectTransient (d : Datasource) (s : State σ) :
    (a.connectTransient d).run s =
      let ended := (a.freshen false d.credential).run s
      (ended.1.map fun renewed => ⟨⟨0, renewed.or d.credential⟩, renewed⟩, ended.2) := by
  unfold connectTransient
  cases d.credential with
  | none => rfl
  | some credential =>
    cases credential with
    | oauth client =>
      unfold freshen
      dsimp only
      rw [if_neg Bool.false_ne_true, run_bind, run_bind]
      rcases (a.needsToken (.oauth client)).run s with ⟨halt | due, u⟩
      · rfl
      · cases due with
        | false => rfl
        | true =>
          unfold freshenIf
          dsimp only
          rw [if_pos rfl, if_pos rfl, run_bind, run_bind]
          rcases (a.renew (.oauth client)).run u with ⟨halt | renewed, v⟩
          · rfl
          · rfl
    | none | bearer | basic | apiKey => rfl

theorem connectTransient_ends {result : Except Halt Connected}
    (h : (a.connectTransient d).run s = (result, t)) :
    a.TransientEnds d.credential s result t := by
  rw [run_connectTransient] at h
  rcases hfresh : (a.freshen false d.credential).run s with ⟨halt | renewed, u⟩
  · have hends := a.freshen_ends hfresh
    rw [hfresh] at h
    cases h
    exact .halted hends
  · have hends := a.freshen_ends hfresh
    rw [hfresh] at h
    cases renewed with
    | none =>
      cases h
      exact .kept hends
    | some renewed =>
      cases h
      exact .renewed hends

/-- A refresh, and what is done with the entry after it. -/
theorem refresh_bind_ends {key : String} {e : Pool.Entry} (he : s.pool.find? key = some e)
    {rest : Option Credential → Call σ Connected} {result : Except Halt Connected}
    (hkept : ∀ u, a.Freshened always s e.credential (.ok none) u → u.pool.find? key = some e →
      ∀ result t, (rest none).run u = (result, t) → a.PooledEnds key e always s result t)
    (hrest : ∀ renewed u, (rest (some renewed)).run u =
      (pooled key >>= fun connection => pure (⟨connection, some renewed⟩ : Connected)).run u)
    (h : (a.refresh key always >>= rest).run s = (result, t)) :
    a.PooledEnds key e always s result t := by
  rw [run_bind, a.run_refresh he] at h
  rcases hfresh : (a.freshen always e.credential).run s with ⟨halt | renewed, u⟩
  · have hends := a.freshen_ends hfresh
    rw [hfresh] at h
    cases h
    exact .halted hends
  · have hends := a.freshen_ends hfresh
    have hu : u.pool.find? key = some e := hends.pool ▸ he
    rw [hfresh] at h
    cases renewed with
    | none => exact hkept u hends hu _ _ h
    | some renewed =>
      dsimp only [putRenewed] at h
      rw [hrest, run_bind, run_pooled (Pool.find?_replace_self hu _)] at h
      cases h
      exact .renewed hends

/-- A datasource that does not pass the check ends the call. -/
theorem validated_ends {id : Option String} {k : Call σ Connected}
    {result : Except Halt Connected}
    (h : (ofExcept (c.validate d) >>= fun _ => k).run s = (result, t))
    (hk : c.validate d = .ok () → k.run s = (result, t) → a.Ends c d id always s result t) :
    a.Ends c d id always s result t := by
  cases hvalid : c.validate d with
  | error f =>
    rw [hvalid] at h
    cases h
    exact .invalid hvalid
  | ok valid =>
    rw [hvalid] at h
    exact hk hvalid h

theorem connectUncached_ends {result : Except Halt Connected}
    (h : (a.connectUncached c d).run s = (result, t)) : a.Ends c d none false s result t :=
  a.validated_ends h fun hvalid h => .transient hvalid rfl rfl (a.connectTransient_ends h)

/-- **How connecting ends.** -/
theorem connect_ends {result : Except Halt Connected}
    (h : (a.connect c d).run s = (result, t)) : a.Ends c d d.id false s result t := by
  refine a.validated_ends h fun hvalid h => ?_
  split at h
  · rename_i hid
    exact .transient hvalid hid rfl (a.connectTransient_ends h)
  · rename_i id hid
    obtain ⟨e, he, -⟩ := s.pool.find?_enter_self (Pool.key c.name id) d.credential
    refine .pooled hvalid hid he (a.refresh_bind_ends he (fun u hu hfind result t hrun => ?_)
      (fun renewed u => rfl) h)
    rw [run_bind, run_pooled hfind] at hrun
    cases hrun
    exact .kept rfl hu

/-- **How revalidating ends.** -/
theorem revalidate_ends {result : Except Halt Connected}
    (h : (a.revalidate c d).run s = (result, t)) : a.Ends c d d.id d.id.isSome s result t := by
  refine a.validated_ends h fun hvalid h => ?_
  split at h
  · rename_i hid
    rw [hid]
    exact .transient hvalid rfl rfl (a.connectTransient_ends h)
  · rename_i id hid
    rw [hid]
    obtain ⟨e, he, -⟩ := s.pool.find?_enter_self (Pool.key c.name id) d.credential
    refine .pooled hvalid rfl he (a.refresh_bind_ends he (fun u hu hfind result t hrun => ?_)
      (fun renewed u => rfl) h)
    -- the entry is put back as it is before the connection is made of it
    have hput : (pooled (Pool.key c.name id) >>= fun current =>
        modifyPool (fun p => p.replace (Pool.key c.name id) current.credential) >>= fun _ =>
          pooled (Pool.key c.name id) >>= fun connection =>
            pure (⟨connection, none⟩ : Connected)).run u = (result, t) := hrun
    rw [run_bind, run_pooled hfind] at hput
    have hreturn : (pooled (Pool.key c.name id) >>= fun connection =>
        pure (⟨connection, none⟩ : Connected)).run
          { u with pool := u.pool.replace (Pool.key c.name id) e.credential } = (result, t) := hput
    rw [run_bind, run_pooled (Pool.find?_replace_self hfind _)] at hreturn
    cases hreturn
    exact .putBack rfl hu

end Access

/-! ### Executions and discoveries -/

namespace Dispatcher

variable {σ : Type} (d : Dispatcher σ) {s t : State σ} {name : String} {i : Invocation}
  {ds : Datasource} {action : Action} {request : DiscoveryRequest}

/-- How the steps before the request of an action end. -/
inductive PrepareEnds (name : String) (i : Invocation) (ds : Datasource) (action : Action)
    (s : State σ) : Except Halt (Plan × Connected) → State σ → Prop
  | unknown {f : Failure} (h : d.registry.require name = .error f) :
    PrepareEnds name i ds action s (.error (.failed f)) s
  | noPermit {c : Connector} (hc : d.registry.require name = .ok c) (h : d.permits = 0) :
    PrepareEnds name i ds action s (.error .noPermit) s
  | unplanned {c : Connector} {f : Failure} (hc : d.registry.require name = .ok c)
    (hpermits : d.permits ≠ 0) (h : plan c i ds action = .error f) :
    PrepareEnds name i ds action s (.error (.failed f)) s
  | unconnected {c : Connector} {p : Plan} {halt : Halt} {t : State σ}
    (hc : d.registry.require name = .ok c) (hpermits : d.permits ≠ 0)
    (hp : plan c i ds action = .ok p) (h : d.Ends c ds ds.id false s (.error halt) t) :
    PrepareEnds name i ds action s (.error halt) t
  | connected {c : Connector} {p : Plan} {x : Connected} {t : State σ}
    (hc : d.registry.require name = .ok c) (hpermits : d.permits ≠ 0)
    (hp : plan c i ds action = .ok p) (h : d.Ends c ds ds.id false s (.ok x) t) :
    PrepareEnds name i ds action s (.ok (p, x)) t

theorem prepare_ends {result : Except Halt (Plan × Connected)}
    (h : (d.prepare name i ds action).run s = (result, t)) :
    d.PrepareEnds name i ds action s result t := by
  unfold prepare connector at h
  cases hc : d.registry.require name with
  | error f =>
    rw [hc] at h
    cases h
    exact .unknown hc
  | ok c =>
    rw [hc] at h
    by_cases hpermits : d.permits = 0
    · unfold takePermit at h
      rw [if_pos hpermits] at h
      cases h
      exact .noPermit hc hpermits
    · unfold takePermit at h
      rw [if_neg hpermits] at h
      have hplanned : (ofExcept (plan c i ds action) >>= fun p =>
          d.connect c ds >>= fun x => pure (p, x)).run s = (result, t) := h
      cases hp : plan c i ds action with
      | error f =>
        rw [hp] at hplanned
        cases hplanned
        exact .unplanned hc hpermits hp
      | ok p =>
        rw [hp] at hplanned
        have hconnect : (d.connect c ds >>= fun x => pure (p, x)).run s = (result, t) :=
          hplanned
        rw [run_bind] at hconnect
        rcases hrun : (d.connect c ds).run s with ⟨halt | x, u⟩
        · rw [hrun] at hconnect
          cases hconnect
          exact .unconnected hc hpermits hp (d.connect_ends hrun)
        · rw [hrun] at hconnect
          cases hconnect
          exact .connected hc hpermits hp (d.connect_ends hrun)

/-- How an execution ends: refused before its request, halted, or with a report on it. -/
inductive ExecuteEnds (name : String) (i : Invocation) (ds : Datasource) (action : Action)
    (s : State σ) : Except Halt Report → State σ → Prop
  | refused {f : Failure} {t : State σ}
    (h : d.PrepareEnds name i ds action s (.error (.failed f)) t) :
    ExecuteEnds name i ds action s (.ok (.ofFailure f none)) t
  | halted {halt : Halt} {t : State σ} (hhalt : ∀ f, halt ≠ .failed f)
    (h : d.PrepareEnds name i ds action s (.error halt) t) :
    ExecuteEnds name i ds action s (.error halt) t
  | reported {p : Plan} {x : Connected} {report : Report} {u t : State σ}
    (h : d.PrepareEnds name i ds action s (.ok (p, x)) u)
    (hrun : (d.run p x.connection).run u = (.ok report, t)) :
    ExecuteEnds name i ds action s (.ok { report with refreshed := x.refreshed }) t

/-- **How an execution ends.** -/
theorem execute_ends {result : Except Halt Report}
    (h : (d.execute name i ds action).run s = (result, t)) :
    d.ExecuteEnds name i ds action s result t := by
  unfold execute at h
  rw [run_bind, run_outcome] at h
  rcases hprepare : (d.prepare name i ds action).run s with ⟨(f | _ | _) | ⟨p, x⟩, u⟩
  · rw [hprepare] at h
    cases h
    exact .refused (d.prepare_ends hprepare)
  · rw [hprepare] at h
    cases h
    exact .halted (by simp) (d.prepare_ends hprepare)
  · rw [hprepare] at h
    cases h
    exact .halted (by simp) (d.prepare_ends hprepare)
  · rw [hprepare] at h
    obtain ⟨report, outside, hrun, -⟩ := d.run_run p x.connection u
    have hreport : (d.run p x.connection >>= fun report =>
        pure { report with refreshed := x.refreshed }).run u = (result, t) := h
    rw [run_bind, hrun] at hreport
    cases hreport
    exact .reported (d.prepare_ends hprepare) hrun

/-- How a discovery ends: refused before it connects, with connecting, or with what was
collected. -/
inductive DiscoverEnds (name : String) (ds : Datasource) (request : DiscoveryRequest)
    (s : State σ) : Except Halt Discovered → State σ → Prop
  | unknown {f : Failure} (h : d.registry.require name = .error f) :
    DiscoverEnds name ds request s (.error (.failed f)) s
  | unplanned {c : Connector} {f : Failure} (hc : d.registry.require name = .ok c)
    (h : planDiscovery c ds request = .error f) :
    DiscoverEnds name ds request s (.error (.failed f)) s
  | unconnected {c : Connector} {planned : Command × Request} {halt : Halt} {t : State σ}
    (hc : d.registry.require name = .ok c) (hplan : planDiscovery c ds request = .ok planned)
    (h : d.Ends c ds ds.id false s (.error halt) t) :
    DiscoverEnds name ds request s (.error halt) t
  | uncollected {c : Connector} {planned : Command × Request} {x : Connected} {halt : Halt}
    {u t : State σ} (hc : d.registry.require name = .ok c)
    (hplan : planDiscovery c ds request = .ok planned)
    (h : d.Ends c ds ds.id false s (.ok x) u)
    (hcollect : (d.collect planned.1 planned.2 x.connection).run u = (.error halt, t)) :
    DiscoverEnds name ds request s (.error halt) t
  | collected {c : Connector} {planned : Command × Request} {x : Connected}
    {found : Discovered} {u t : State σ} (hc : d.registry.require name = .ok c)
    (hplan : planDiscovery c ds request = .ok planned)
    (h : d.Ends c ds ds.id false s (.ok x) u)
    (hcollect : (d.collect planned.1 planned.2 x.connection).run u = (.ok found, t)) :
    DiscoverEnds name ds request s (.ok { found with refreshed := x.refreshed }) t

/-- **How a discovery ends.** -/
theorem discover_ends {result : Except Halt Discovered}
    (h : (d.discover name ds request).run s = (result, t)) :
    d.DiscoverEnds name ds request s result t := by
  unfold discover connector at h
  cases hc : d.registry.require name with
  | error f =>
    rw [hc] at h
    cases h
    exact .unknown hc
  | ok c =>
    rw [hc] at h
    have hplanned : (ofExcept (planDiscovery c ds request) >>= fun planned =>
        d.connect c ds >>= fun x => d.collect planned.1 planned.2 x.connection >>= fun found =>
          pure { found with refreshed := x.refreshed }).run s = (result, t) := h
    cases hplan : planDiscovery c ds request with
    | error f =>
      rw [hplan] at hplanned
      cases hplanned
      exact .unplanned hc hplan
    | ok planned =>
      rw [hplan] at hplanned
      have hconnect : (d.connect c ds >>= fun x =>
          d.collect planned.1 planned.2 x.connection >>= fun found =>
            pure { found with refreshed := x.refreshed }).run s = (result, t) := hplanned
      rw [run_bind] at hconnect
      rcases hrun : (d.connect c ds).run s with ⟨halt | x, u⟩
      · rw [hrun] at hconnect
        cases hconnect
        exact .unconnected hc hplan (d.connect_ends hrun)
      · rw [hrun] at hconnect
        dsimp only at hconnect
        rw [run_bind] at hconnect
        rcases hcollect : (d.collect planned.1 planned.2 x.connection).run u with ⟨halt | found, v⟩
        · rw [hcollect] at hconnect
          cases hconnect
          exact .uncollected hc hplan (d.connect_ends hrun) hcollect
        · rw [hcollect] at hconnect
          cases hconnect
          exact .collected hc hplan (d.connect_ends hrun) hcollect

end Dispatcher

end Relay
