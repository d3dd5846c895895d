/-
# Requests carry their credential

A connector that names the kinds of credential it accepts, and not the absence of one, must
never be called without a credential. What connecting hands out always has one: the check
has passed, and a client has been given a token. Over a connection that the caller holds,
the check alone is made, and it asks nothing about a client's token: so a request goes out
bare exactly if the held client has none.

Key definitions: `Connection.Carries`, `Connection.Tokenless`, `Connector.NeedsCredential`,
`Call.Event.Carried`, `Call.Event.Over`, `Call.Refused`.
Key theorems: `Connection.carries_iff`, `Access.Ends.not_tokenless`, `Access.connect_carries`,
`execute_carried`, `discover_carried`, `executeOver_over`, `discoverOver_over`, `sends_carry`.
-/
import Relay.Proofs.Renewal

namespace Relay

open Call Wire

/-! ### What a request carries -/

namespace Connection

/-- What goes out for a request over the connection has the secret of its credential where
the kind of the credential puts it: in a header, or in one more pair of the query. -/
def Carries (c : Connection) (r : Request) : Prop :=
  let sent := Outgoing.ofRequest c r
  match c.credential with
  | some (.bearer token) => ("authorization", "Bearer " ++ token.text) ∈ sent.headers
  | some (.basic username password) =>
    ("authorization", basicValue username password.text) ∈ sent.headers
  | some (.apiKey name value .header _) =>
    ∃ lead, (Text.trim name, lead ++ value.text) ∈ sent.headers
  | some (.apiKey name value .query _) => sent.url = r.url.appendPair (Text.trim name) value.text
  | some (.oauth client) =>
    ∃ token, client.token = some token ∧
      ("authorization", "Bearer " ++ token.secret.text) ∈ sent.headers
  | some .none | none => False

/-- The connection is a client's that has no token. -/
def Tokenless (c : Connection) : Prop :=
  ∃ client, c.credential = some (.oauth client) ∧ client.token = none

/-- A header that the credential is attached as stands among those that go out. -/
theorem mem_headers {c : Connection} {name value : String}
    (h : attachment c.credential = .header name value) (r : Request) :
    (name, value) ∈ (Outgoing.ofRequest c r).headers := by
  show (name, value) ∈ c.headers r
  unfold headers
  rw [h]
  exact List.mem_append_right _ List.mem_cons_self

theorem attachment_of_token {client : OAuthClient} {token : Token}
    (h : client.token = some token) : attachment (some (.oauth client)) =
      .header "authorization" ("Bearer " ++ token.secret.text) := by
  unfold attachment
  dsimp only
  rw [h]

theorem attachment_of_tokenless {client : OAuthClient} (h : client.token = none) :
    attachment (some (.oauth client)) = .none := by
  unfold attachment
  dsimp only
  rw [h]

/-- An API key in a header comes behind its lead, if it has one. -/
theorem exists_lead (lead value : String) :
    ∃ lead', (if lead == "" then value else lead ++ " " ++ value) = lead' ++ value := by
  split
  · exact ⟨"", String.empty_append.symm⟩
  · exact ⟨lead ++ " ", rfl⟩

/-- **A request carries any credential but that of a client without a token.** -/
theorem carries_iff (c : Connection) (r : Request) :
    c.Carries r ↔ Credential.kindOf c.credential ≠ .none ∧ ¬c.Tokenless := by
  obtain ⟨version, credential⟩ := c
  -- of another kind than OAuth2 there is no token to be missing
  have carried {credential : Credential} (hcarries : Carries ⟨version, some credential⟩ r)
      (hkind : credential.kind ≠ .none) (hclient : credential.kind ≠ .oauth) :
      Carries ⟨version, some credential⟩ r ↔
        credential.kind ≠ .none ∧ ¬Tokenless ⟨version, some credential⟩ := by
    refine ⟨fun _ => ⟨hkind, fun ⟨client, hcredential, _⟩ => ?_⟩, fun _ => hcarries⟩
    cases hcredential
    exact hclient rfl
  cases credential with
  | none => exact ⟨fun h => h.elim, fun h => absurd rfl h.1⟩
  | some credential =>
    cases credential with
    | none => exact ⟨fun h => h.elim, fun h => absurd rfl h.1⟩
    | bearer token => exact carried (mem_headers rfl r) (nomatch ·) (nomatch ·)
    | basic username password => exact carried (mem_headers rfl r) (nomatch ·) (nomatch ·)
    | apiKey name value place lead =>
      cases place with
      | query => exact carried rfl (nomatch ·) (nomatch ·)
      | header =>
        obtain ⟨lead', hlead⟩ := exists_lead (Text.trim (lead.getD "")) value.text
        refine carried ⟨lead', mem_headers ?_ r⟩ (nomatch ·) (nomatch ·)
        rw [← hlead]
        rfl
    | oauth client =>
      refine ⟨fun ⟨token, htoken, _⟩ => ⟨(nomatch ·), ?_⟩, fun ⟨_, htoken⟩ => ?_⟩
      · rintro ⟨client', hclient, hnone⟩
        cases hclient
        rw [hnone] at htoken
        cases htoken
      · cases hclient : client.token with
        | none => exact absurd ⟨client, rfl, hclient⟩ htoken
        | some token => exact ⟨token, hclient, mem_headers (attachment_of_token hclient) r⟩

end Connection

/-- Nothing goes out without the credential of the connection that it goes over. -/
def Call.Event.Carried : Event → Prop
  | .request c r _ _ => c.Carries r
  | .token .. => True

theorem Call.Event.AboutToken.carried {e : Event} (h : e.AboutToken) : e.Carried := by
  cases e with
  | token credential answer => trivial
  | request c r timeout limit => cases h

/-! ### Connecting -/

/-- The connector names the kinds of credential that it accepts, and not the absence of
one. -/
structure Connector.NeedsCredential (c : Connector) : Prop where
  named : c.accepts ≠ []
  notNone : .none ∉ c.accepts

/-- What passes the check is a credential. -/
theorem Connector.NeedsCredential.kindOf {c : Connector} (hc : c.NeedsCredential)
    {credential : Option Credential} (h : Credential.check c.accepts credential = .ok ()) :
    Credential.kindOf credential ≠ .none := by
  have haccepted := (Credential.check_eq_ok_iff.mp h).1.resolve_left hc.named
  exact fun heq => hc.notNone (heq ▸ haccepted)

theorem Connector.check_of_validate {c : Connector} {d : Datasource} (h : c.validate d = .ok ()) :
    Credential.check c.accepts d.credential = .ok () := by
  obtain ⟨⟨⟩, hcheck, -⟩ := except_bind_eq_ok_iff.mp h
  exact hcheck

namespace Access

variable {σ : Type} {a : Access σ} {s t : State σ} {c : Connector} {d : Datasource}
  {x : Connected}

/-- What is used as it is is no client without a token. -/
theorem Freshened.not_tokenless_of_none {always : Bool} {credential : Option Credential}
    (h : a.Freshened always s credential (.ok none) t) (version : Nat) :
    ¬Connection.Tokenless ⟨version, credential⟩ := by
  rintro ⟨client, hclient, htoken⟩
  cases hclient
  cases h with
  | kept hkept =>
    cases hkept with
    | plain hplain => exact hplain client rfl
    | valid honce hdue =>
      unfold due? at hdue
      rw [htoken] at hdue
      cases hdue

/-- What gets a new token is a client with one. -/
theorem Freshened.not_tokenless_of_some {always : Bool} {credential : Option Credential}
    {renewed : Credential} (h : a.Freshened always s credential (.ok (some renewed)) t)
    (version : Nat) : ¬Connection.Tokenless ⟨version, some renewed⟩ := by
  rintro ⟨client, hclient, htoken⟩
  cases hclient
  cases h
  cases htoken

/-- **What connecting hands out is no client without a token**, through the pool or past
it, from any state. -/
theorem Ends.not_tokenless {id : Option String} {always : Bool}
    (h : a.Ends c d id always s (.ok x) t) : ¬x.connection.Tokenless := by
  cases h with
  | transient hvalid hid honce h =>
    cases h with
    | kept h => exact h.not_tokenless_of_none 0
    | renewed h => exact h.not_tokenless_of_some 0
  | @pooled name e result t hvalid hid he h =>
    cases h with
    | kept honce h => exact h.not_tokenless_of_none e.version
    | putBack halways h => exact h.not_tokenless_of_none _
    | renewed h => exact h.not_tokenless_of_some _

variable (a)

/-- **What connecting hands out carries every request**, for a connector that needs a
credential. -/
theorem connect_carries (hs : s.pool.Identified) (hc : c.NeedsCredential)
    (h : (a.connect c d).run s = (.ok x, t)) (r : Request) : x.connection.Carries r := by
  have hkind := hc.kindOf (Connector.check_of_validate (a.validate_of_eq_ok (.inl h)))
  have hsame : Credential.SameButToken x.connection.credential d.credential := by
    rcases a.connect_eq_ok hs h with hkept | hrenewed
    · exact hkept.same
    · exact hrenewed.same
  rw [Connection.carries_iff]
  exact ⟨hsame.kindOf ▸ hkind, (a.connect_ends h).not_tokenless⟩

theorem send_hands {P : Event → Prop} {connection : Connection} {r : Request} {timeout : Span}
    {limit : Nat} (h : P (.request connection r timeout limit)) (s : State σ) :
    (a.send connection r timeout limit).Hands P s := by
  obtain ⟨answer, outside, hrun⟩ := a.run_send connection r timeout limit s
  refine ⟨[.request connection r timeout limit], ?_, fun e he => ?_⟩
  · rw [hrun]
    rfl
  · rw [List.mem_singleton.mp he]
    exact h

end Access

/-! ### Refusing -/

namespace Call

variable {σ α β : Type} {s : State σ} {failed : β → Prop}

/-- The call leaves everything as it was, and if it ends with a value, that is a failure. -/
def Refused (failed : α → Prop) (x : Call σ α) (s : State σ) : Prop :=
  (x.run s).2 = s ∧ ∀ a, (x.run s).1 = .ok a → failed a

theorem Refused.halt (h : Halt) : (Call.halt h : Call σ β).Refused failed s :=
  ⟨rfl, fun _ ha => (nomatch ha)⟩

theorem Refused.pure {b : β} (h : failed b) : (Pure.pure b : Call σ β).Refused failed s :=
  ⟨rfl, fun _ ha => by cases ha; exact h⟩

/-- A check that is passed leaves the refusal to what comes after it. -/
theorem Refused.ofExcept_bind {e : Except Failure α} {f : α → Call σ β}
    (h : ∀ a, e = .ok a → (f a).Refused failed s) :
    (Call.ofExcept e >>= f).Refused failed s := by
  cases e with
  | error failure => exact .halt _
  | ok a => exact h a rfl

/-- What comes after a call that is refused does not matter. -/
theorem Refused.bind {x : Call σ α} (hx : x.Refused (fun _ => False) s) (f : α → Call σ β) :
    (x >>= f).Refused failed s := by
  obtain ⟨hstate, hfalse⟩ := hx
  unfold Refused
  rw [run_bind]
  rcases hrun : x.run s with ⟨h | a, u⟩
  · rw [hrun] at hstate
    exact ⟨hstate, fun _ ha => (nomatch ha)⟩
  · rw [hrun] at hfalse
    exact (hfalse a rfl).elim

/-- A refusal that became a value. -/
theorem Refused.outcome_bind {x : Call σ α} (hx : x.Refused (fun _ => False) s)
    {f : Except Failure α → Call σ β} (hf : ∀ failure, (f (.error failure)).Refused failed s) :
    (x.outcome >>= f).Refused failed s := by
  obtain ⟨hstate, hfalse⟩ := hx
  unfold Refused
  rw [run_bind, run_outcome]
  rcases hrun : x.run s with ⟨h | a, u⟩
  · rw [hrun] at hstate
    obtain rfl : u = s := hstate
    cases h with
    | failed failure => exact hf failure
    | noSuchTime => exact ⟨rfl, fun _ ha => (nomatch ha)⟩
    | noPermit => exact ⟨rfl, fun _ ha => (nomatch ha)⟩
  · rw [hrun] at hfalse
    exact (hfalse a rfl).elim

end Call

/-- The event is a request over the connection, which carries its credential unless the
connection is a client's without a token. -/
def Call.Event.Over (connection : Connection) (e : Event) : Prop :=
  ∃ r timeout limit, e = .request connection r timeout limit ∧
    (connection.Carries r ↔ ¬connection.Tokenless)

namespace Dispatcher

variable {σ : Type} (d : Dispatcher σ) {s : State σ} {name : String} {c : Connector}
  {connection : Connection} {i : Invocation} {ds : Datasource} {action : Action}
  {request : DiscoveryRequest}

theorem takePermit_refused {β : Type} {failed : β → Prop} {f : Unit → Call σ β}
    (h : (f ()).Refused failed s) : (d.takePermit >>= f).Refused failed s := by
  unfold takePermit
  split
  · exact .halt _
  · exact h

theorem connect_refused {β : Type} {failed : β → Prop}
    (h : Credential.check c.accepts ds.credential ≠ .ok ()) (f : Connected → Call σ β) :
    (d.connect c ds >>= f).Refused failed s := by
  refine .bind ?_ f
  rw [Access.connect_eq]
  exact .ofExcept_bind fun _ hvalid => absurd (Connector.check_of_validate hvalid) h

/-- The report is of a failure. -/
def Failed (report : Report) : Prop := report.info?.isSome = true

/-- The connector of a name that is registered does not stand in the way of a refusal. -/
theorem connector_refused {β : Type} {failed : β → Prop} {f : Connector → Call σ β}
    (hc : d.registry.require name = .ok c) (h : (f c).Refused failed s) :
    (d.connector name >>= f).Refused failed s := by
  refine .ofExcept_bind fun c' hc' => ?_
  cases hc.symm.trans hc'
  exact h

/-- A datasource whose credential does not pass the check is refused. -/
theorem execute_refused (hc : d.registry.require name = .ok c)
    (h : Credential.check c.accepts ds.credential ≠ .ok ()) :
    (d.execute name i ds action).Refused Failed s := by
  refine .outcome_bind (d.connector_refused hc ?_) fun f => .pure rfl
  exact d.takePermit_refused (.ofExcept_bind fun _ _ => d.connect_refused h _)

theorem discover_refused (hc : d.registry.require name = .ok c)
    (h : Credential.check c.accepts ds.credential ≠ .ok ()) :
    (d.discover name ds request).Refused (fun _ => False) s :=
  d.connector_refused hc (.ofExcept_bind fun _ _ => d.connect_refused h _)

/-- A held connection whose credential does not pass the check is refused. -/
theorem executeOver_refused (hc : d.registry.require name = .ok c)
    (h : Credential.check c.accepts connection.credential ≠ .ok ()) :
    (d.executeOver name connection i ds action).Refused Failed s := by
  refine .outcome_bind (d.connector_refused hc ?_) fun f => .pure rfl
  exact .ofExcept_bind fun _ hcheck => absurd hcheck h

theorem discoverOver_refused (hc : d.registry.require name = .ok c)
    (h : Credential.check c.accepts connection.credential ≠ .ok ()) :
    (d.discoverOver name connection ds request).Refused (fun _ => False) s :=
  d.connector_refused hc (.ofExcept_bind fun _ hcheck => absurd hcheck h)

/-! ### Sending -/

theorem run_hands {P : Event → Prop} {p : Plan}
    (h : ∀ timeout limit, P (.request connection p.request timeout limit)) (s : State σ) :
    (d.run p connection).Hands P s := by
  refine .bind (d.send_hands (h _ _) s) fun answer u _ => ?_
  split
  · exact .pure _
  · exact .pure _

theorem takePermit_hands {P : Event → Prop} (s : State σ) : d.takePermit.Hands P s := by
  unfold takePermit
  split
  · exact .of_record rfl
  · exact .pure ()

theorem collect_hands {P : Event → Prop} {command : Command} {r : Request}
    (h : ∀ timeout limit, P (.request connection r timeout limit)) (s : State σ) :
    (d.collect command r connection).Hands P s := by
  refine .bind (d.takePermit_hands s) fun _ u _ => .bind (d.send_hands (h _ _) u) fun _ v _ => ?_
  split
  · exact .of_record rfl
  · exact .ofExcept _

theorem connector_hands {β : Type} {P : Event → Prop} {f : Connector → Call σ β}
    (hc : d.registry.require name = .ok c) (h : (f c).Hands P s) :
    (d.connector name >>= f).Hands P s := by
  refine .ofExcept_bind fun c' hc' => ?_
  cases hc.symm.trans hc'
  exact h

/-- **An execution hands out nothing bare.** -/
theorem execute_carried (hs : s.pool.Identified) (hc : d.registry.require name = .ok c)
    (hneeds : c.NeedsCredential) :
    (d.execute name i ds action).Hands Event.Carried s := by
  have hprepare := (d.prepare_within name i ds action).hands (fun _ he => he.carried) s
  refine .bind hprepare.outcome fun prepared u hrun => ?_
  cases prepared with
  | error f => exact .pure _
  | ok ready =>
    obtain ⟨p, connected⟩ := ready
    obtain ⟨c', hc', -, -, hconnect⟩ := d.prepare_eq_ok_iff.mp (run_outcome_eq_ok_iff.mp hrun)
    cases hc.symm.trans hc'
    have hcarries := d.connect_carries hs hneeds hconnect p.request
    exact .bind (d.run_hands (fun _ _ => hcarries) u) fun _ _ _ => .pure _

/-- **A discovery hands out nothing bare.** -/
theorem discover_carried (hs : s.pool.Identified) (hc : d.registry.require name = .ok c)
    (hneeds : c.NeedsCredential) :
    (d.discover name ds request).Hands Event.Carried s := by
  refine d.connector_hands hc (.ofExcept_bind fun planned _ => ?_)
  have hconnect := (d.connect_within c ds).hands (fun _ he => he.carried) s
  refine .bind hconnect fun connected u hrun => ?_
  have hcarries := d.connect_carries hs hneeds hrun planned.2
  exact .bind (d.collect_hands (fun _ _ => hcarries) u) fun _ _ _ => .pure _

theorem over_of_check (hneeds : c.NeedsCredential)
    (hcheck : Credential.check c.accepts connection.credential = .ok ()) (r : Request)
    (timeout : Span) (limit : Nat) :
    Event.Over connection (.request connection r timeout limit) := by
  refine ⟨r, timeout, limit, rfl, ?_⟩
  rw [Connection.carries_iff, and_iff_right (hneeds.kindOf hcheck)]

/-- **Over a held connection, a request is bare exactly for a client without a token.** -/
theorem executeOver_over (hc : d.registry.require name = .ok c) (hneeds : c.NeedsCredential)
    (s : State σ) :
    (d.executeOver name connection i ds action).Hands (Event.Over connection) s := by
  unfold executeOver
  refine .bind (.outcome ?_) fun prepared u hrun => ?_
  · exact .ofExcept_bind fun _ _ => .ofExcept_bind fun _ _ =>
      .bind (d.takePermit_hands s) fun _ _ _ => .ofExcept _
  · cases prepared with
    | error f => exact .pure _
    | ok p =>
      obtain ⟨c', hc', hcheck, -⟩ := d.prepareOver_eq_ok_iff.mp (run_outcome_eq_ok_iff.mp hrun)
      cases hc.symm.trans hc'
      exact d.run_hands (over_of_check hneeds hcheck p.request) u

theorem discoverOver_over (hc : d.registry.require name = .ok c) (hneeds : c.NeedsCredential)
    (s : State σ) :
    (d.discoverOver name connection ds request).Hands (Event.Over connection) s := by
  refine d.connector_hands hc (.ofExcept_bind fun _ hcheck => .ofExcept_bind fun planned _ => ?_)
  exact d.collect_hands (over_of_check hneeds hcheck planned.2) s

/-! ### All four calls -/

/-- **No request goes out bare, but for held clients without a token.** After any history,
for a connector that needs a credential: executions and discoveries hand out no request
without the credential of its connection; over a held connection every request goes over it
and carries its credential, unless it is a client's without a token; and a datasource or a
held connection whose credential does not pass the check is refused, which hands out nothing
and changes nothing. -/
theorem sends_carry (hs : d.Reachable s) (hc : d.registry.require name = .ok c)
    (hneeds : c.NeedsCredential) (connection : Connection) (i : Invocation) (ds : Datasource)
    (action : Action) (request : DiscoveryRequest) :
    ((d.execute name i ds action).Hands Event.Carried s ∧
      (d.discover name ds request).Hands Event.Carried s) ∧
    ((d.executeOver name connection i ds action).Hands (Event.Over connection) s ∧
      (d.discoverOver name connection ds request).Hands (Event.Over connection) s) ∧
    (Credential.check c.accepts ds.credential ≠ .ok () →
      (d.execute name i ds action).Refused Failed s ∧
        (d.discover name ds request).Refused (fun _ => False) s) ∧
    (Credential.check c.accepts connection.credential ≠ .ok () →
      (d.executeOver name connection i ds action).Refused Failed s ∧
        (d.discoverOver name connection ds request).Refused (fun _ => False) s) :=
  ⟨⟨d.execute_carried hs.identified hc hneeds, d.discover_carried hs.identified hc hneeds⟩,
    ⟨d.executeOver_over hc hneeds s, d.discoverOver_over hc hneeds s⟩,
    fun h => ⟨d.execute_refused hc h, d.discover_refused hc h⟩,
    fun h => ⟨d.executeOver_refused hc h, d.discoverOver_refused hc h⟩⟩

/-- Accepts clients only, and looks at one page. -/
def lookup : Connector :=
  { name := "lookup"
    accepts := [.oauth]
    invalids := fun _ => []
    select := fun _ => .ok { name := "look", build := fun _ _ _ => .ok page } }
where
  page : Request :=
    { method := .get
      url := {
        scheme := "https"
        authority := some { host := some (.domain "x.test") }
        path := "/" } }

/-- A dispatcher of that connector, whose clients are given the same token always. -/
def lookingUp : Dispatcher Unit :=
  { Access.issuing with registry := ⟨[("lookup", lookup)]⟩, settings := {} }

theorem lookup_needsCredential : lookup.NeedsCredential where
  named := List.cons_ne_nil _ _
  notNone := by decide

/-- A client without a token is given one before the page is asked for. -/
theorem sends_carry_unserved : lookingUp.Reachable { outside := () } ∧
    lookingUp.registry.require "lookup" = .ok lookup ∧ lookup.NeedsCredential ∧
    (∃ token request, ((lookingUp.execute "lookup" {} Access.unserved {}).run
      { outside := () }).2.record = [request, token]) ∧
    (lookingUp.execute "lookup" {} Access.unserved {}).Hands Event.Carried { outside := () } :=
  ⟨.start (), rfl, lookup_needsCredential, ⟨_, _, rfl⟩,
    (lookingUp.sends_carry (.start ()) rfl lookup_needsCredential {} {} Access.unserved {} {}).1.1⟩

/-- A held connection of the same client. -/
def bare : Connection := { credential := Access.unserved.credential }

/-- Over it the page is asked for without a credential. -/
theorem executeOver_bare : lookingUp.registry.require "lookup" = .ok lookup ∧
    lookup.NeedsCredential ∧ Credential.check lookup.accepts bare.credential = .ok () ∧
    ∃ timeout limit, ((lookingUp.executeOver "lookup" bare {} {} {}).run
        { outside := () }).2.record = [.request bare lookup.page timeout limit] ∧
      (Outgoing.ofRequest bare lookup.page).headers = [] ∧
      (Outgoing.ofRequest bare lookup.page).url = lookup.page.url ∧
      ¬bare.Carries lookup.page := by
  refine ⟨rfl, lookup_needsCredential, rfl, _, _, rfl, rfl, rfl, fun hcarries => ?_⟩
  exact ((Connection.carries_iff _ _).mp hcarries).2 ⟨_, rfl, rfl⟩

end Dispatcher

end Relay
