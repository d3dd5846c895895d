/-
# Renewed credentials are handed back

A token that is fetched in the course of a call is part of the connection that the call goes
on with, and all that it asks for goes over this connection. An execution then ends with a
report that hands the renewed credential back, however its request ends. A discovery hands
it back with what it collects; if nothing can be collected its failure hands nothing back.
The pool alone has the renewed credential then, and the next call finds its token good.

Key definitions: `Call.Obtained`, `Access.Asked`, `Access.HandsBack`,
`Dispatcher.ReportsBack`, `Dispatcher.CollectsBack`.
Key theorems: `Ends.asked`, `Ends.handsBack`, `execute_reportsBack`,
`discover_collectsBack`, `renewed_handed_back`.
-/
import Relay.Proofs.Carrying
import Relay.Proofs.Endings
import Relay.Proofs.Mirroring

namespace Relay

open Call Wire

variable {σ : Type} {s t u : State σ} {credential : Credential} {token : Token}

/-! ### What the record tells -/

namespace Call

/-- Between two states the token was fetched for the credential. -/
def Obtained (s t : State σ) (credential : Credential) (token : Token) : Prop :=
  ∃ events, t.record = events ++ s.record ∧ .token credential (.ok token) ∈ events

/-- A request over a connection with this credential. -/
def Event.With (credential : Option Credential) : Event → Prop
  | .request c _ _ _ => c.credential = credential
  | .token .. => False

variable {events : List Event}

/-- Only what was added to the record counts. -/
theorem obtained_iff (h : t.record = events ++ s.record) :
    Obtained s t credential token ↔ .token credential (.ok token) ∈ events := by
  constructor
  · rintro ⟨others, hothers, hmem⟩
    have hsame : events = others := List.append_cancel_right (h.symm.trans hothers)
    exact hsame ▸ hmem
  · exact fun hmem => ⟨events, h, hmem⟩

theorem not_obtained (h : t.record = s.record) : ¬Obtained s t credential token := by
  intro hobtained
  have hrecord : t.record = [] ++ s.record := h
  have hmem := (obtained_iff hrecord).mp hobtained
  cases hmem

/-- Requests over connections fetch nothing. -/
theorem Obtained.before {later : List Event} {carried : Option Credential}
    (h : Obtained s t credential token) (hu : u.record = events ++ s.record)
    (ht : t.record = later ++ u.record) (hlater : ∀ e ∈ later, e.With carried) :
    Obtained s u credential token := by
  have hrecord : t.record = (later ++ events) ++ s.record := by
    rw [ht, hu, List.append_assoc]
  have hmem := (obtained_iff hrecord).mp h
  rcases List.mem_append.mp hmem with hmem | hmem
  · exact absurd (hlater _ hmem) id
  · exact (obtained_iff hu).mpr hmem

end Call

/-! ### Connecting -/

namespace Access

variable {a : Access σ} {c : Connector} {d : Datasource} {id : Option String} {always : Bool}
  {old : Option Credential} {result : Except Halt Connected}

/-- The connection has the credential with the token, the credential is handed back, and
nothing but the token was asked for. -/
structure HandsBack (credential : Credential) (token : Token) (s : State σ) (x : Connected)
    (t : State σ) : Prop where
  renewed : x.connection.credential = some (credential.withToken token)
  refreshed : x.refreshed = some (credential.withToken token)
  record : t.record = .token credential (.ok token) :: s.record

/-- What connecting asks for: nothing, and then it hands nothing back, or one token. -/
inductive Asked (s : State σ) : Except Halt Connected → State σ → Prop
  | nothing {connection : Connection} {t : State σ} (h : t.record = s.record) :
    Asked s (.ok ⟨connection, none⟩) t
  | renewed {credential : Credential} {token : Token} {x : Connected} {t : State σ}
    (h : HandsBack credential token s x t) : Asked s (.ok x) t
  | halted {halt : Halt} {t : State σ} (h : t.record = s.record ∨
      ∃ credential, t.record = .token credential (.error halt) :: s.record) :
    Asked s (.error halt) t

theorem Freshened.record_of_none (h : a.Freshened always s old (.ok none) t) :
    t.record = s.record := by
  cases h with
  | kept h => rfl

theorem Freshened.record_of_some {renewed : Credential}
    (h : a.Freshened always s old (.ok (some renewed)) t) :
    ∃ credential token, renewed = credential.withToken token ∧
      t.record = .token credential (.ok token) :: s.record := by
  cases h with
  | @fetched client token outside hdue h => exact ⟨.oauth client, token, rfl, rfl⟩

theorem Freshened.record_of_error {halt : Halt}
    (h : a.Freshened always s old (.error halt) t) :
    t.record = s.record ∨ ∃ credential, t.record = .token credential (.error halt) :: s.record := by
  cases h with
  | undated honce h => exact .inl rfl
  | @refused client halt outside hdue h => exact .inr ⟨.oauth client, rfl⟩

theorem TransientEnds.asked (h : a.TransientEnds old s result t) : Asked s result t := by
  cases h with
  | kept h => exact .nothing h.record_of_none
  | renewed h =>
    obtain ⟨credential, token, rfl, hrecord⟩ := h.record_of_some
    exact .renewed ⟨rfl, rfl, hrecord⟩
  | halted h => exact .halted h.record_of_error

theorem PooledEnds.asked {key : String} {e : Pool.Entry}
    (h : a.PooledEnds key e always s result t) : Asked s result t := by
  cases h with
  | kept honce h => exact .nothing h.record_of_none
  | putBack halways h => exact .nothing h.record_of_none
  | renewed h =>
    obtain ⟨credential, token, rfl, hrecord⟩ := h.record_of_some
    exact .renewed ⟨rfl, rfl, hrecord⟩
  | halted h => exact .halted h.record_of_error

/-- An entry for the datasource is not asked for. -/
theorem Asked.of_pool {p : Pool} (h : Asked { s with pool := p } result t) :
    Asked s result t := by
  cases h with
  | nothing h => exact .nothing h
  | renewed h => exact .renewed ⟨h.renewed, h.refreshed, h.record⟩
  | halted h => exact .halted h

/-- **Connecting asks for one token at most.** -/
theorem Ends.asked (h : a.Ends c d id always s result t) : Asked s result t := by
  cases h with
  | invalid h => exact .halted (.inl rfl)
  | transient hvalid hid honce h => exact h.asked
  | pooled hvalid hid he h => exact h.asked.of_pool

/-- **A token that is fetched in connecting is part of the connection**, and its credential
is handed back. -/
theorem Ends.handsBack {x : Connected} (h : a.Ends c d id always s (.ok x) t)
    (hobtained : Obtained s t credential token) : HandsBack credential token s x t := by
  cases h.asked with
  | nothing hrecord => exact absurd hobtained (not_obtained hrecord)
  | @renewed asked issued x t hback =>
    have hrecord : t.record = [.token asked (.ok issued)] ++ s.record := hback.record
    have hmem := (obtained_iff hrecord).mp hobtained
    cases List.mem_singleton.mp hmem
    exact hback

/-- No token is fetched where connecting fails. -/
theorem Ends.not_obtained {halt : Halt} (h : a.Ends c d id always s (.error halt) t) :
    ¬Obtained s t credential token := by
  intro hobtained
  cases h.asked with
  | halted hrecord =>
    rcases hrecord with hrecord | ⟨asked, hrecord⟩
    · exact Call.not_obtained hrecord hobtained
    · have hsingle : t.record = [.token asked (.error halt)] ++ s.record := hrecord
      have hmem := (obtained_iff hsingle).mp hobtained
      cases List.mem_singleton.mp hmem

theorem Ends.record (h : a.Ends c d id always s result t) :
    ∃ events, t.record = events ++ s.record := by
  cases h.asked with
  | nothing hrecord => exact ⟨[], hrecord⟩
  | renewed hback => exact ⟨[_], hback.record⟩
  | halted hrecord =>
    rcases hrecord with hrecord | ⟨asked, hrecord⟩
    · exact ⟨[], hrecord⟩
    · exact ⟨[_], hrecord⟩

end Access

/-! ### Executions and discoveries -/

namespace Dispatcher

variable (d : Dispatcher σ) {name : String} {i : Invocation} {ds : Datasource} {action : Action}
  {request : DiscoveryRequest}

/-- The report hands the credential with the token back, and its request went over a
connection with this credential. -/
structure ReportsBack (credential : Credential) (token : Token) (s : State σ)
    (result : Except Halt Report) (t : State σ) : Prop where
  reported : ∃ report, result = .ok report ∧
    report.refreshed = some (credential.withToken token)
  sent : ∃ c r timeout limit, c.credential = some (credential.withToken token) ∧
    t.record = .request c r timeout limit :: .token credential (.ok token) :: s.record

/-- The discovery goes on as planned over a connection with the credential and the token, and
hands them back with what it collects there; if nothing can be collected it fails without
them. The pool has them either way, if the datasource has an id. -/
structure CollectsBack (name : String) (ds : Datasource) (request : DiscoveryRequest)
    (credential : Credential) (token : Token) (s : State σ) (result : Except Halt Discovered)
    (t : State σ) : Prop where
  collected : ∃ connector planned c u ended, d.registry.require name = .ok connector ∧
    planDiscovery connector ds request = .ok planned ∧
    c.credential = some (credential.withToken token) ∧
    u.record = .token credential (.ok token) :: s.record ∧
    (d.collect planned.1 planned.2 c).run u = (ended, t) ∧
    result = ended.map fun found => { found with refreshed := some (credential.withToken token) }
  sent : ∃ later, t.record = later ++ .token credential (.ok token) :: s.record ∧
    ∀ e ∈ later, e.With (some (credential.withToken token))
  kept : ∀ c id, d.registry.require name = .ok c → ds.id = some id →
    ∃ e, t.pool.find? (Pool.key c.name id) = some e ∧
      e.credential = some (credential.withToken token)

variable {d}

/-- What is collected is handed over with the credential. -/
theorem CollectsBack.refreshed {found : Discovered}
    (h : d.CollectsBack name ds request credential token s (.ok found) t) :
    found.refreshed = some (credential.withToken token) := by
  obtain ⟨connector, planned, c, u, ended, -, -, -, -, -, hresult⟩ := h.collected
  cases ended with
  | error halt => cases hresult
  | ok collected =>
    cases hresult
    rfl

theorem PrepareEnds.not_obtained {halt : Halt}
    (h : d.PrepareEnds name i ds action s (.error halt) t) :
    ¬Obtained s t credential token := by
  cases h with
  | unknown h => exact Call.not_obtained rfl
  | noPermit hc h => exact Call.not_obtained rfl
  | unplanned hc hpermits h => exact Call.not_obtained rfl
  | unconnected hc hpermits hp h => exact h.not_obtained

/-- **A discovery that has fetched a token goes on over the connection with it.** -/
theorem collectsBack_of_ends {c : Connector} {planned : Command × Request} {x : Connected}
    {ended : Except Halt Discovered} (hc : d.registry.require name = .ok c)
    (hplan : planDiscovery c ds request = .ok planned)
    (hends : d.Ends c ds ds.id false s (.ok x) u)
    (hcollect : (d.collect planned.1 planned.2 x.connection).run u = (ended, t))
    (hobtained : Obtained s t credential token) :
    d.CollectsBack name ds request credential token s
      (ended.map fun found => { found with refreshed := x.refreshed }) t := by
  obtain ⟨events, hevents⟩ := hends.record
  have hhands : (d.collect planned.1 planned.2 x.connection).Hands
      (Event.With x.connection.credential) u := d.collect_hands (fun _ _ => rfl) u
  obtain ⟨later, hlater, hwith⟩ := hhands
  rw [hcollect] at hlater
  have hback := hends.handsBack (hobtained.before hevents hlater hwith)
  rw [hback.record] at hlater
  rw [hback.renewed] at hwith
  refine ⟨⟨c, planned, x.connection, u, ended, hc, hplan, hback.renewed, hback.record, hcollect,
    ?_⟩, ⟨later, hlater, hwith⟩, fun c' id hc' hid => ?_⟩
  · rw [hback.refreshed]
  · cases hc.symm.trans hc'
    rw [hid] at hends
    obtain ⟨e, he, -, hconnection⟩ := hends.entry
    have hpool : t.pool = u.pool := by
      have hkeeps := d.collect_keeps (I := fun p => p = u.pool) planned.1 planned.2
        x.connection u rfl
      rw [hcollect] at hkeeps
      exact hkeeps
    refine ⟨e, hpool ▸ he, ?_⟩
    rw [← hback.renewed, ← hconnection]
    rfl

variable (d)

/-- **An execution hands a renewed credential back**, however its request ends. -/
theorem execute_reportsBack {result : Except Halt Report}
    (h : (d.execute name i ds action).run s = (result, t))
    (hobtained : Obtained s t credential token) : ReportsBack credential token s result t := by
  cases d.execute_ends h with
  | refused hprepare => exact absurd hobtained hprepare.not_obtained
  | halted hhalt hprepare => exact absurd hobtained hprepare.not_obtained
  | @reported p x report u t hprepare hrun =>
    cases hprepare with
    | connected hc hpermits hp hends =>
      obtain ⟨events, hevents⟩ := hends.record
      have hhands : (d.run p x.connection).Hands (Event.With x.connection.credential) u :=
        d.run_hands (fun _ _ => rfl) u
      obtain ⟨later, hlater, hwith⟩ := hhands
      rw [hrun] at hlater
      have hback := hends.handsBack (hobtained.before hevents hlater hwith)
      obtain ⟨report', outside, hrun', -⟩ := d.run_run p x.connection u
      cases hrun'.symm.trans hrun
      exact ⟨⟨_, rfl, hback.refreshed⟩, _, _, _, _, hback.renewed, by rw [hback.record]⟩

/-- **A discovery hands a renewed credential back with what it collects.** -/
theorem discover_collectsBack {result : Except Halt Discovered}
    (h : (d.discover name ds request).run s = (result, t))
    (hobtained : Obtained s t credential token) :
    d.CollectsBack name ds request credential token s result t := by
  cases d.discover_ends h with
  | unknown hunknown => exact absurd hobtained (not_obtained rfl)
  | unplanned hc hplan => exact absurd hobtained (not_obtained rfl)
  | unconnected hc hplan hends => exact absurd hobtained hends.not_obtained
  | uncollected hc hplan hends hcollect =>
    exact collectsBack_of_ends hc hplan hends hcollect hobtained
  | collected hc hplan hends hcollect =>
    exact collectsBack_of_ends hc hplan hends hcollect hobtained

/-- **Renewed credentials are handed back**: by every execution that has fetched a token, and
by a discovery that has, together with what it collects. What keeps it from collecting keeps
it from handing back. -/
theorem renewed_handed_back (name : String) (i : Invocation) (ds : Datasource) (action : Action)
    (request : DiscoveryRequest) (hobtained : Obtained s t credential token) :
    (∀ result, (d.execute name i ds action).run s = (result, t) →
      ReportsBack credential token s result t) ∧
    ∀ result, (d.discover name ds request).run s = (result, t) →
      d.CollectsBack name ds request credential token s result t :=
  ⟨fun _ h => d.execute_reportsBack h hobtained, fun _ h => d.discover_collectsBack h hobtained⟩

/-- The client of `unserved`, which has no token yet. -/
def client : Credential := .oauth { id := "me", secret := ⟨"mine"⟩, tokenUrl := "" }

/-- The token that it is issued. -/
def issued : Token := { secret := ⟨"issued"⟩, issuedAt := default }

/-- An answer without choices. -/
def noChoices : Incoming := { status := 200, chunks := [Text.Utf8.encode "\x7b\"data\":[]\x7d"] }

theorem collect_noChoices : Discovery.collect pages.command noChoices.reply = .ok {} := by
  have hjson : Reply.jsonOf? noChoices.reply.body = some (.obj [("data", .arr [])]) := by
    decide +kernel
  have hitems : Discovery.items pages.command noChoices.reply = .ok [] := by
    unfold Discovery.items
    rw [hjson]
    rfl
  have hentries : Discovery.entries pages.command [] = [] := by
    simp [Discovery.entries]
  unfold Discovery.collect
  rw [hitems]
  show Except.ok (⟨Discovery.entries pages.command [], none⟩ : Discovered) = .ok {}
  rw [hentries]

/-- The token is handed back by an execution that is refused, and by a discovery that finds
nothing to choose. -/
theorem renewed_handed_back_issued :
    (∃ report t, ((delivering refusal {}).execute "pages" {} Access.unserved {}).run
        { outside := () } = (.ok report, t) ∧
      report.refreshed = some (client.withToken issued)) ∧
    ∃ found t, ((delivering noChoices {}).discover "pages" Access.unserved {}).run
        { outside := () } = (.ok found, t) ∧
      found.refreshed = some (client.withToken issued) := by
  refine ⟨?_, ?_⟩
  · obtain ⟨t, hrun, hobtained⟩ : ∃ t, ((delivering refusal {}).execute "pages" {}
        Access.unserved {}).run { outside := () } = (.ok _, t) ∧
        Obtained { outside := () } t client issued :=
      ⟨_, rfl, [_, _], rfl, by simp [client, issued]⟩
    obtain ⟨⟨report, heq, hback⟩, -⟩ := (renewed_handed_back (delivering refusal {}) "pages" {}
      Access.unserved {} {} hobtained).1 _ hrun
    exact ⟨report, t, heq ▸ hrun, hback⟩
  · obtain ⟨t, hrun, hobtained⟩ : ∃ t, ((delivering noChoices {}).discover "pages"
        Access.unserved {}).run { outside := () } = (.ok _, t) ∧
        Obtained { outside := () } t client issued := by
      show ∃ t, (ofExcept (Discovery.collect pages.command noChoices.reply) >>= fun found =>
        pure { found with refreshed := some (client.withToken issued) }).run _ = _ ∧ _
      rw [collect_noChoices]
      exact ⟨_, rfl, [_, _], rfl, by simp [client, issued]⟩
    have hback := (renewed_handed_back (delivering noChoices {}) "pages" {}
      Access.unserved {} {} hobtained).2 _ hrun
    exact ⟨_, t, hrun, hback.refreshed⟩

/-- A discovery that fails on its answer fails without the token that it has fetched; the
next connection has the token from the pool and hands nothing back either. -/
theorem discover_withholds : ∃ f t,
    ((delivering { status := 500 } {}).discover "pages" Access.unserved {}).run
      { outside := () } = (.error (.failed f), t) ∧
    f.kind = .structural ∧ Obtained { outside := () } t client issued ∧
    ∃ x u, ((delivering { status := 500 } {}).connect pages Access.unserved).run t = (.ok x, u) ∧
      x.connection.credential = some (client.withToken issued) ∧ x.refreshed = none :=
  ⟨_, _, rfl, rfl, ⟨[_, _], rfl, by simp [client, issued]⟩, _, _, rfl, rfl, rfl⟩

end Dispatcher

end Relay
