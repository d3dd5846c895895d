/-
# Histories of the pool

Calls are made one after another, for any connectors and any datasources, whose
credentials may be edited between two calls; what lies outside changes as it likes. Through
all of this every entry of the pool holds a credential of the identity that it was made
for: a renewal changes nothing but the token, and whatever else changes makes a new entry.

Key definitions: `Pool.Identified`, `Call.Keeps`, `Call.Reachable`, `Access.Preserves`,
`Access.Step`, `Access.RefreshEnds`, `Dispatcher.Step`.
Key theorems: `refresh_ends`, `Access.Reachable.keeps`, `Access.Reachable.identified`,
`Dispatcher.Reachable.keeps`, `Dispatcher.Reachable.identified`.
-/
import Relay.Proofs.Execution
import Relay.Proofs.Freshening

namespace Relay

open Call Wire

/-! ### Entries and their identities -/

namespace Pool

/-- Every entry holds a credential of the identity that it was made for. -/
def Identified (p : Pool) : Prop :=
  ∀ key e, p.find? key = some e → e.credential.map Credential.identity = e.identity

variable {p : Pool}

theorem identified_empty : ({} : Pool).Identified := by
  intro key e h
  cases h

theorem Identified.store (h : p.Identified) (key : String) {identity credential : Option Credential}
    (hc : credential.map Credential.identity = identity) :
    (p.store key identity credential).Identified := by
  intro other e he
  by_cases ho : other = key
  · rw [ho, find?_store_self] at he
    cases he
    exact hc
  · rw [find?_store_of_ne _ _ _ ho] at he
    exact h other e he

theorem Identified.enter (h : p.Identified) (key : String) (credential : Option Credential) :
    (p.enter key credential).Identified := by
  unfold Pool.enter
  dsimp only
  split
  · split
    · exact h
    · exact h.store key rfl
  · exact h.store key rfl

/-- An entry may be given another credential of its identity. -/
theorem Identified.replace (h : p.Identified) {key : String} {e : Entry}
    (he : p.find? key = some e) {credential : Option Credential}
    (hc : credential.map Credential.identity = e.identity) :
    (p.replace key credential).Identified := by
  rw [replace_of_find? he]
  exact h.store key hc

theorem Identified.drop (h : p.Identified) (key : String) : (p.drop key).Identified := by
  intro other e he
  by_cases ho : other = key
  · rw [ho, find?_drop_self] at he
    cases he
  · rw [find?_drop_of_ne _ ho] at he
    exact h other e he

end Pool

/-! ### What calls keep of the pool -/

variable {σ α β : Type} {s t : State σ}

namespace Call

/-- However the call ends, what holds of the pool before it holds after it. -/
def Keeps (I : Pool → Prop) (x : Call σ α) : Prop := ∀ s, I s.pool → I (x.run s).2.pool

variable {I : Pool → Prop}

/-- A call that leaves the pool alone. -/
theorem Keeps.of_pool {x : Call σ α} (h : ∀ s, (x.run s).2.pool = s.pool) : x.Keeps I := by
  intro s hs
  rw [h s]
  exact hs

theorem Keeps.pure (a : α) : (Pure.pure a : Call σ α).Keeps I := .of_pool fun _ => rfl

theorem Keeps.halt (h : Halt) : (Call.halt h : Call σ α).Keeps I := .of_pool fun _ => rfl

theorem Keeps.get : (Call.get : Call σ _).Keeps I := .of_pool fun _ => rfl

theorem Keeps.ofExcept (e : Except Failure α) : (Call.ofExcept e : Call σ α).Keeps I := by
  cases e with
  | ok a => exact .pure a
  | error f => exact .halt _

theorem Keeps.ofTime? (a : Option α) : (Call.ofTime? a : Call σ α).Keeps I := by
  cases a with
  | some a => exact .pure a
  | none => exact .halt _

theorem Keeps.modifyPool {f : Pool → Pool} (h : ∀ p, I p → I (f p)) :
    (Call.modifyPool f : Call σ _).Keeps I :=
  fun s hs => h s.pool hs

theorem Keeps.bind {x : Call σ α} {f : α → Call σ β} (hx : x.Keeps I)
    (hf : ∀ a, (f a).Keeps I) : (x >>= f).Keeps I := by
  intro s hs
  have hs' := hx s hs
  rw [run_bind]
  rcases hrun : x.run s with ⟨h | a, u⟩
  · rw [hrun] at hs'
    exact hs'
  · rw [hrun] at hs'
    exact hf a u hs'

theorem Keeps.outcome {x : Call σ α} (hx : x.Keeps I) : x.outcome.Keeps I := by
  intro s hs
  rw [run_outcome_snd]
  exact hx s hs

/-- A state that some steps lead to, from an empty pool and an empty record. -/
inductive Reachable (step : State σ → State σ → Prop) : State σ → Prop
  | start (outside : σ) : Reachable step { outside }
  | step {s t : State σ} : Reachable step s → step s t → Reachable step t

/-- What every step keeps holds of every state that is reached. -/
theorem Reachable.pool {step : State σ → State σ → Prop} (hempty : I {})
    (hstep : ∀ s t, step s t → I s.pool → I t.pool) (h : Reachable step s) : I s.pool := by
  induction h with
  | start outside => exact hempty
  | step _ hst ih => exact hstep _ _ hst ih

end Call

namespace Access

variable (a : Access σ)

/-! ### The refresh of an entry -/

/-- How the refresh of an entry `e` ends, started in `s`: with the entry as it is, with a
token that was fetched for its client, or halted, and then the pool is as before. -/
inductive RefreshEnds (key : String) (e : Pool.Entry) (always : Bool) (s : State σ) :
    Except Halt (Option Credential) → State σ → Prop
  | kept (h : a.KeepsEntry always (a.network.now s.outside) e.credential) :
    RefreshEnds key e always s (.ok none) s
  | renewed {client : OAuthClient} {token : Token} {outside : σ}
    (hclient : e.credential = some (.oauth client))
    (hfetch : a.tokens.fetch (.oauth client) s.outside = (.ok token, outside)) :
    RefreshEnds key e always s (.ok (some (.oauth { client with token := some token })))
      { outside
        pool := s.pool.replace key (some (.oauth { client with token := some token }))
        record := .token (.oauth client) (.ok token) :: s.record }
  | halted {halt : Halt} {t : State σ} (hpool : t.pool = s.pool) :
    RefreshEnds key e always s (.error halt) t

/-- **What a refresh can come to.** -/
theorem refresh_ends {key : String} {e : Pool.Entry} (he : s.pool.find? key = some e)
    {always : Bool} {result : Except Halt (Option Credential)}
    (h : (a.refresh key always).run s = (result, t)) :
    a.RefreshEnds key e always s result t := by
  rw [a.run_refresh he] at h
  rcases hfresh : (a.freshen always e.credential).run s with ⟨ended, u⟩
  have hends := a.freshen_ends hfresh
  rw [hfresh] at h
  generalize hcredential : e.credential = credential at hends
  cases hends with
  | kept hkept =>
    cases h
    exact .kept (hcredential ▸ hkept)
  | undated honce hnone =>
    cases h
    exact .halted rfl
  | fetched hdue hfetch =>
    cases h
    exact .renewed hcredential hfetch
  | refused hdue hfetch =>
    cases h
    exact .halted rfl

/-! ### Every call keeps the identities -/

theorem refresh_keeps (key : String) (always : Bool) :
    (a.refresh key always).Keeps Pool.Identified := by
  intro s hs
  cases he : s.pool.find? key with
  | none =>
    have hrun : (a.refresh key always).run s = (.ok none, s) := by
      rw [refresh_eq, run_bind]
      unfold pooled
      rw [run_bind, run_get]
      dsimp only
      rw [he]
      rfl
    rw [hrun]
    exact hs
  | some e =>
    rcases hrun : (a.refresh key always).run s with ⟨result, t⟩
    cases a.refresh_ends he hrun with
    | kept h => exact hs
    | renewed hclient hfetch =>
      refine hs.replace he ?_
      rw [← hs key e he, hclient]
      rfl
    | halted hpool =>
      show t.pool.Identified
      rw [hpool]
      exact hs

theorem pooled_keeps {I : Pool → Prop} (key : String) : (pooled key : Call σ _).Keeps I :=
  .bind .get fun _ => .pure _

/-- An entry may be put back under a new version, whatever is done after it. -/
theorem putBack_keeps (key : String) {rest : Unit → Call σ α}
    (hrest : ∀ u, (rest u).Keeps Pool.Identified) :
    (pooled key >>= fun current =>
      modifyPool (fun p => p.replace key current.credential) >>= rest).Keeps Pool.Identified := by
  intro s hs
  cases he : s.pool.find? key with
  | none =>
    have hreplace : ∀ credential, s.pool.replace key credential = s.pool := by
      intro credential
      rw [Pool.replace, he]
    refine hrest () { s with pool := s.pool.replace key _ } ?_
    rw [hreplace]
    exact hs
  | some e =>
    rw [run_bind, run_pooled he]
    refine hrest () { s with pool := s.pool.replace key e.credential } ?_
    exact hs.replace he (hs key e he)

theorem needsToken_keeps {I : Pool → Prop} (credential : Credential) :
    (a.needsToken credential).Keeps I := by
  unfold needsToken
  split
  · split
    · exact .pure _
    · exact .bind .get fun _ => .ofTime? _
  · exact .pure _

theorem connectTransient_keeps {I : Pool → Prop} (d : Datasource) :
    (a.connectTransient d).Keeps I := by
  unfold connectTransient
  split
  · exact .pure _
  · refine .bind (a.needsToken_keeps _) fun needed => ?_
    split
    · exact .bind (.of_pool fun _ => rfl) fun renewed => .pure _
    · exact .pure _

theorem connect_keeps (c : Connector) (d : Datasource) :
    (a.connect c d).Keeps Pool.Identified := by
  unfold connect
  refine .bind (.ofExcept _) fun _ => ?_
  split
  · exact a.connectTransient_keeps d
  · exact .bind (.modifyPool fun _ hp => hp.enter _ _) fun _ =>
      .bind (a.refresh_keeps _ _) fun refreshed => .bind (pooled_keeps _) fun _ => .pure _

theorem revalidate_keeps (c : Connector) (d : Datasource) :
    (a.revalidate c d).Keeps Pool.Identified := by
  unfold revalidate
  refine .bind (.ofExcept _) fun _ => ?_
  split
  · exact a.connectTransient_keeps d
  · refine .bind (.modifyPool fun _ hp => hp.enter _ _) fun _ =>
      .bind (a.refresh_keeps _ _) fun refreshed => ?_
    have hreturn : ∀ key, ((pooled key : Call σ _) >>= fun connection =>
        pure (⟨connection, refreshed⟩ : Connected)).Keeps Pool.Identified :=
      fun key => .bind (pooled_keeps key) fun _ => .pure _
    dsimp only
    split
    · exact putBack_keeps _ fun _ => hreturn _
    · exact hreturn _

theorem connectUncached_keeps {I : Pool → Prop} (c : Connector) (d : Datasource) :
    (a.connectUncached c d).Keeps I :=
  .bind (.ofExcept _) fun _ => a.connectTransient_keeps d

/-- What connecting, revalidating and taking out keep of the pool. -/
structure Preserves (I : Pool → Prop) : Prop where
  connect : ∀ c d, (a.connect c d).Keeps I
  revalidate : ∀ c d, (a.revalidate c d).Keeps I
  drop : ∀ p key, I p → I (p.drop key)

theorem preserves_identified : a.Preserves Pool.Identified where
  connect := a.connect_keeps
  revalidate := a.revalidate_keeps
  drop _ key hp := hp.drop key

/-! ### Histories -/

/-- One thing that happens to an access and what lies outside of it. -/
inductive Step : State σ → State σ → Prop
  | meanwhile (s : State σ) (outside : σ) : Step s { s with outside }
  | connect (c : Connector) (d : Datasource) (s : State σ) : Step s ((a.connect c d).run s).2
  | revalidate (c : Connector) (d : Datasource) (s : State σ) : Step s ((a.revalidate c d).run s).2
  | connectUncached (c : Connector) (d : Datasource) (s : State σ) :
    Step s ((a.connectUncached c d).run s).2
  | invalidate (connector datasource : String) (s : State σ) :
    Step s ((Access.invalidate connector datasource).run s).2

/-- A state that calls, made one after another, may have led to. -/
def Reachable (s : State σ) : Prop := Call.Reachable a.Step s

variable {a} {I : Pool → Prop}

theorem Step.keeps (h : a.Step s t) (hI : a.Preserves I) (hs : I s.pool) : I t.pool := by
  cases h with
  | meanwhile s outside => exact hs
  | connect c d s => exact hI.connect c d s hs
  | revalidate c d s => exact hI.revalidate c d s hs
  | connectUncached c d s => exact a.connectUncached_keeps c d s hs
  | invalidate connector datasource s => exact hI.drop _ _ hs

/-- **What connecting keeps of the pool holds whatever has happened.** -/
theorem Reachable.keeps (h : a.Reachable s) (hI : a.Preserves I) (hempty : I {}) : I s.pool :=
  h.pool hempty fun _ _ hst => hst.keeps hI

/-- Every entry holds a credential of its identity. -/
theorem Reachable.identified (h : a.Reachable s) : s.pool.Identified :=
  h.keeps a.preserves_identified Pool.identified_empty

end Access

/-! ### Histories of a dispatcher -/

namespace Access

variable (a : Access σ) {I : Pool → Prop}

theorem send_keeps (c : Connection) (r : Request) (timeout : Span) (limit : Nat) :
    (a.send c r timeout limit).Keeps I := by
  refine .of_pool fun s => ?_
  obtain ⟨answer, outside, hrun⟩ := a.run_send c r timeout limit s
  rw [hrun]

theorem test_keeps (c : Connector) (d : Datasource) (connection : Connection) (timeout : Span)
    (limit : Nat) : (a.test c d connection timeout limit).Keeps I := by
  unfold test
  split
  · exact .pure _
  · exact .pure _
  · refine .bind (a.send_keeps _ _ _ _) fun answer => ?_
    split
    · exact .pure _
    · split
      · exact .pure _
      · exact .pure _

end Access

namespace Dispatcher

variable (d : Dispatcher σ) {I : Pool → Prop}

theorem takePermit_keeps : d.takePermit.Keeps I := by
  unfold takePermit
  split
  · exact .halt _
  · exact .pure _

theorem run_keeps (p : Plan) (connection : Connection) : (d.run p connection).Keeps I := by
  refine .bind (d.send_keeps _ _ _ _) fun answer => ?_
  split
  · exact .pure _
  · exact .pure _

theorem collect_keeps (command : Command) (r : Request) (connection : Connection) :
    (d.collect command r connection).Keeps I := by
  refine .bind d.takePermit_keeps fun _ => .bind (d.send_keeps _ _ _ _) fun answer => ?_
  split
  · exact .halt _
  · exact .ofExcept _

theorem execute_keeps (hconnect : ∀ c ds, (d.connect c ds).Keeps I) (name : String)
    (i : Invocation) (ds : Datasource) (action : Action) :
    (d.execute name i ds action).Keeps I := by
  have hprepare : (d.prepare name i ds action).Keeps I :=
    .bind (.ofExcept _) fun c => .bind d.takePermit_keeps fun _ => .bind (.ofExcept _) fun p =>
      .bind (hconnect c ds) fun _ => .pure _
  refine .bind hprepare.outcome fun prepared => ?_
  split
  · exact .pure _
  · exact .bind (d.run_keeps _ _) fun _ => .pure _

theorem executeOver_keeps (name : String) (connection : Connection) (i : Invocation)
    (ds : Datasource) (action : Action) :
    (d.executeOver name connection i ds action).Keeps I := by
  have hprepare : (d.prepareOver name connection i ds action).Keeps I :=
    .bind (.ofExcept _) fun c => .bind (.ofExcept _) fun _ => .bind d.takePermit_keeps fun _ =>
      .ofExcept _
  refine .bind hprepare.outcome fun prepared => ?_
  split
  · exact .pure _
  · exact d.run_keeps _ _

theorem discover_keeps (hconnect : ∀ c ds, (d.connect c ds).Keeps I) (name : String)
    (ds : Datasource) (request : DiscoveryRequest) :
    (d.discover name ds request).Keeps I :=
  .bind (.ofExcept _) fun c => .bind (.ofExcept _) fun _ => .bind (hconnect c ds) fun _ =>
    .bind (d.collect_keeps _ _ _) fun _ => .pure _

theorem discoverOver_keeps (name : String) (connection : Connection) (ds : Datasource)
    (request : DiscoveryRequest) : (d.discoverOver name connection ds request).Keeps I :=
  .bind (.ofExcept _) fun _ => .bind (.ofExcept _) fun _ => .bind (.ofExcept _) fun _ =>
    d.collect_keeps _ _ _

theorem testDatasource_keeps (name : String) (ds : Datasource) :
    (d.testDatasource name ds).Keeps I := by
  refine .bind (.outcome ?_) fun attempt => ?_
  · refine .bind (.ofExcept _) fun c => ?_
    dsimp only
    split
    · exact .pure _
    · exact .bind d.takePermit_keeps fun _ => .bind (d.connectUncached_keeps c ds) fun _ =>
        d.test_keeps _ _ _ _ _
  · split
    · exact .pure _
    · exact .pure _

/-- One thing that happens to a dispatcher, to its access and to what lies outside. -/
inductive Step : State σ → State σ → Prop
  | access {s t : State σ} (h : d.toAccess.Step s t) : Step s t
  | execute (name : String) (i : Invocation) (ds : Datasource) (action : Action) (s : State σ) :
    Step s ((d.execute name i ds action).run s).2
  | executeOver (name : String) (connection : Connection) (i : Invocation) (ds : Datasource)
    (action : Action) (s : State σ) : Step s ((d.executeOver name connection i ds action).run s).2
  | discover (name : String) (ds : Datasource) (request : DiscoveryRequest) (s : State σ) :
    Step s ((d.discover name ds request).run s).2
  | discoverOver (name : String) (connection : Connection) (ds : Datasource)
    (request : DiscoveryRequest) (s : State σ) :
    Step s ((d.discoverOver name connection ds request).run s).2
  | testDatasource (name : String) (ds : Datasource) (s : State σ) :
    Step s ((d.testDatasource name ds).run s).2

/-- A state that calls, made one after another, may have led to. -/
def Reachable (s : State σ) : Prop := Call.Reachable d.Step s

variable {d}

theorem Step.keeps (h : d.Step s t) (hI : d.toAccess.Preserves I) (hs : I s.pool) : I t.pool := by
  cases h with
  | access h => exact h.keeps hI hs
  | execute name i ds action s => exact d.execute_keeps hI.connect name i ds action s hs
  | executeOver name connection i ds action s =>
    exact d.executeOver_keeps name connection i ds action s hs
  | discover name ds request s => exact d.discover_keeps hI.connect name ds request s hs
  | discoverOver name connection ds request s =>
    exact d.discoverOver_keeps name connection ds request s hs
  | testDatasource name ds s => exact d.testDatasource_keeps name ds s hs

/-- **The same through executions, discoveries and tests.** -/
theorem Reachable.keeps (h : d.Reachable s) (hI : d.toAccess.Preserves I) (hempty : I {}) :
    I s.pool :=
  h.pool hempty fun _ _ hst => hst.keeps hI

theorem Reachable.identified (h : d.Reachable s) : s.pool.Identified :=
  h.keeps d.preserves_identified Pool.identified_empty

end Dispatcher

end Relay
