/-
# Renewed credentials in the place of the old

A credential that a call hands back is stored in the place of the one that the datasource had.
It is the same client with the token that was fetched for it, so the pool knows it as the
credential of the entry that it has, and as long as the token holds nobody has to fetch
another: not where the entry is still there, which holds the same token under the same
version, not where it was dropped, and not without an id. Unless a connector's own rules look
at the token, the datasource is also as valid as it was.

Key definitions: `Connector.IgnoresToken`, `Access.withToken`, `Access.SameEntry`.
Key theorems: `Rest.connector_ignoresToken`, `OpenAi.connector_ignoresToken`,
`connect_stored`, `connect_stored_dropped`, `stored_resumes`.
-/
import Relay.Connector.OpenAi.Commands
import Relay.Connector.Rest
import Relay.Proofs.Agreement
import Relay.Proofs.Storing
import Relay.Proofs.Validity

namespace Relay

open Call Wire

/-! ### Rules that do not look at tokens -/

/-- What a connector finds wrong with the datasource of a client does not depend on the token
that is stored for the client. -/
def Connector.IgnoresToken (c : Connector) : Prop :=
  ∀ (d : Datasource) (client : OAuthClient) (token : Option Token),
    d.credential = some (.oauth client) →
      c.invalids { d with credential := some (.oauth { client with token }) } = c.invalids d

theorem Rest.connector_ignoresToken : Rest.connector.IgnoresToken := by
  intro d client token hd
  have hrules : Rest.connector.invalids = Rest.invalids := rfl
  rw [hrules]
  simp only [Rest.invalids, Rest.urlProblems, hd, Option.map_some, Rest.credentialProblems]

theorem OpenAi.connector_ignoresToken : OpenAi.connector.IgnoresToken := by
  intro d client token hd
  have hrules : OpenAi.connector.invalids = OpenAi.invalids := rfl
  rw [hrules]
  simp only [OpenAi.invalids, OpenAi.baseUrl, hd, OpenAi.credentialProblems, Credential.kind]

namespace Access

variable {σ : Type} (a : Access σ) {s t u : State σ} {c : Connector} {d : Datasource}
  {x : Connected} {client : OAuthClient} {token : Token} {renewed : Credential}

/-! ### What is handed back -/

/-- A credential that is handed back is that of the connection: the client of the datasource
with a token. -/
theorem refreshed_eq_some (hs : a.Reachable s) (hd : d.credential = some (.oauth client))
    (h : (a.connect c d).run s = (.ok x, t)) (hrenewed : x.refreshed = some renewed) :
    x.connection.credential = some renewed ∧
      ∃ token, renewed = .oauth { client with token := some token } := by
  rcases a.connect_eq_ok hs.identified h with hkept | hends
  · rw [hkept.refreshed] at hrenewed
    cases hrenewed
  · have hsame : some renewed = x.connection.credential := hrenewed.symm.trans hends.refreshed
    rw [hd] at hends
    obtain ⟨token, hx, -⟩ := hends.fetched_token
    rw [hx] at hsame
    exact ⟨hx.trans hsame.symm, token, Option.some.inj hsame⟩

/-- Without an id, every connection has version zero. -/
theorem version_of_transient (hid : d.id = none) (h : (a.connect c d).run s = (.ok x, t)) :
    x.connection.version = 0 := by
  have hends := a.connect_ends h
  rw [hid] at hends
  cases hends with
  | transient _ _ _ hends =>
    cases hends with
    | kept => rfl
    | renewed => rfl
  | pooled _ hsome => cases hsome

/-! ### A datasource with another token -/

/-- The datasource with this token stored for its client. -/
def withToken (d : Datasource) (client : OAuthClient) (token : Token) : Datasource :=
  { d with credential := some (.oauth { client with token := some token }) }

/-- With another token, a valid datasource is refused by the connector's own rules or not at
all. -/
theorem validate_withToken (hvalid : c.validate d = .ok ())
    (hd : d.credential = some (.oauth client)) (token : Token) :
    c.validate (withToken d client token) = .ok () ↔
      c.invalids (withToken d client token) = [] := by
  have hcheck : Credential.check c.accepts (withToken d client token).credential = .ok () :=
    Credential.SameButToken.check (.inr ⟨client, some token, hd, rfl⟩)
      (Connector.check_of_validate hvalid)
  rw [Connector.validate_eq_ok_iff]
  exact ⟨fun h => h.2, fun h => ⟨hcheck, h⟩⟩

theorem keepsEntry_withToken (d : Datasource) (client : OAuthClient) {now : Instant}
    (h : token.isExpired? now a.skew = some false) :
    a.KeepsEntry false now (withToken d client token).credential :=
  .valid rfl h

/-! ### Connecting with what is stored -/

/-- If the datasource has an id, its entry is in `u` as it was in `t`. -/
def SameEntry (c : Connector) (d : Datasource) (t u : State σ) : Prop :=
  ∀ id, d.id = some id → u.pool.find? (Pool.key c.name id) = t.pool.find? (Pool.key c.name id)

/-- **With the entry as it was left, the connection is the one that was handed out**, and
nothing is touched. -/
theorem connect_stored (hd : d.credential = some (.oauth client))
    (h : (a.connect c d).run s = (.ok x, t))
    (hx : x.connection.credential = (withToken d client token).credential)
    (hvalid : c.validate (withToken d client token) = .ok ())
    (hholds : token.isExpired? (a.network.now u.outside) a.skew = some false)
    (hsame : SameEntry c d t u) :
    (a.connect c (withToken d client token)).run u = (.ok ⟨x.connection, none⟩, u) := by
  have hkeeps := a.keepsEntry_withToken d client hholds
  cases hid : d.id with
  | none =>
    rw [a.run_connect_transient hvalid hid hkeeps, ← hx, ← a.version_of_transient hid h]
  | some id =>
    have hends := a.connect_ends h
    rw [hid] at hends
    obtain ⟨e, he, hidentity, hconnection⟩ := hends.entry
    rw [← hsame id hid] at he
    rw [hd] at hidentity
    have hcredential : e.credential = (withToken d client token).credential := by
      rw [← hx, ← hconnection]
      rfl
    rw [← hcredential] at hkeeps
    rw [a.run_connect_pooled hvalid hid he hidentity hkeeps, hconnection]

/-- Where the entry was dropped, the token is put into the pool again as it is, and nothing
else happens. -/
theorem connect_stored_dropped {id : String} (hid : d.id = some id)
    (hvalid : c.validate (withToken d client token) = .ok ())
    (hholds : token.isExpired? (a.network.now u.outside) a.skew = some false)
    (hnone : u.pool.find? (Pool.key c.name id) = none) :
    ∃ v, (a.connect c (withToken d client token)).run u =
        (.ok ⟨⟨u.pool.next, (withToken d client token).credential⟩, none⟩, v) ∧
      v.outside = u.outside ∧ v.record = u.record :=
  ⟨_, a.run_connect_entering hvalid hid hnone (a.keepsEntry_withToken d client hholds), rfl, rfl⟩

/-- **Storing what is handed back saves the next fetch.** After any history, let connecting to
a client's datasource hand a credential back. It is the client with a token that the
connection holds; its text is read back as the same credential, in whatever order the entries
stand. Let it be stored with the datasource, and let the token not be due at a later
time, whatever else has changed. If the connector's own rules still accept the datasource, as
they do if they do not look at tokens, then connecting to it fetches nothing and hands nothing
back. It hands out the same connection, under the same version, if the datasource has no id
or its entry is as it was left, and one with the same token if the entry was dropped. If the
rules refuse the datasource, nothing is fetched either. -/
theorem stored_resumes (hs : a.Reachable s) (hd : d.credential = some (.oauth client))
    (h : (a.connect c d).run s = (.ok x, t)) (hrenewed : x.refreshed = some renewed) :
    x.connection.credential = some renewed ∧
    ∃ token, renewed = .oauth { client with token := some token } ∧
      (renewed.DatesReadBack → ∀ j, Json.Reordered renewed.toJson j →
        (Json.Read.document? j.print).bind Credential.ofDraft? = some renewed) ∧
      ∀ u, token.isExpired? (a.network.now u.outside) a.skew = some false →
        (c.IgnoresToken ∨ c.invalids { d with credential := some renewed } = [] →
          (SameEntry c d t u →
            (a.connect c { d with credential := some renewed }).run u =
              (.ok ⟨x.connection, none⟩, u)) ∧
          ∀ id, d.id = some id → u.pool.find? (Pool.key c.name id) = none →
            ∃ v, (a.connect c { d with credential := some renewed }).run u =
                (.ok ⟨⟨u.pool.next, some renewed⟩, none⟩, v) ∧
              v.outside = u.outside ∧ v.record = u.record) ∧
        (c.invalids { d with credential := some renewed } ≠ [] →
          ∃ f, (a.connect c { d with credential := some renewed }).run u =
            (.error (.failed f), u)) := by
  obtain ⟨hx, token, rfl⟩ := a.refreshed_eq_some hs hd h hrenewed
  have hvalid := a.validate_of_eq_ok (.inl h)
  have hrules := validate_withToken hvalid hd token
  refine ⟨hx, token, rfl, fun hdates j hj => Credential.ofText?_print hdates hj,
    fun u hholds => ⟨fun haccepts => ?_, fun hrefuses => ?_⟩⟩
  · have hnone : c.invalids (withToken d client token) = [] :=
      haccepts.elim (fun hignores => (hignores d client token hd).trans
        ((c.validate_eq_ok_iff d).mp hvalid).2) id
    have hvalid' := hrules.mpr hnone
    exact ⟨fun hsame => a.connect_stored hd h hx hvalid' hholds hsame,
      fun id hid hdropped => a.connect_stored_dropped hid hvalid' hholds hdropped⟩
  · cases hinvalid : c.validate (withToken d client token) with
    | ok valid => exact absurd (hrules.mp hinvalid) hrefuses
    | error f =>
      refine ⟨f, ?_⟩
      rcases hrun : (a.connect c (withToken d client token)).run u with ⟨result, v⟩
      obtain ⟨rfl, rfl⟩ := (a.connect_ends hrun).of_invalid hinvalid
      exact hrun

/-- Reaches nobody, and is given tokens that hold for an hour. -/
def hourly : Access Unit :=
  { network := unreachable default
    tokens :=
      { fetch := fun _ outside =>
          (.ok { secret := ⟨"issued"⟩, expiresAt := some ⟨3600, 0⟩, issuedAt := default }, outside) }
    skew := 60 }

/-- A client's datasource that the REST connector accepts. -/
def served : Datasource :=
  { id := some "a"
    url := some "http://a.test"
    credential := some (.oauth ⟨"me", ⟨"mine"⟩, "http://b.test/token", none, none⟩) }

/-- The token that the client is given is read back from its text. With it stored, the next
connection is the same, and after the entry was dropped it still has the token. -/
theorem stored_resumes_served : ∃ x t renewed v, hourly.Reachable { outside := () } ∧
    (hourly.connect Rest.connector served).run { outside := () } = (.ok x, t) ∧
    x.refreshed = some renewed ∧
    (Json.Read.document? renewed.toJson.print).bind Credential.ofDraft? = some renewed ∧
    (hourly.connect Rest.connector { served with credential := some renewed }).run t =
      (.ok ⟨x.connection, none⟩, t) ∧
    (hourly.connect Rest.connector { served with credential := some renewed }).run
        { t with pool := t.pool.drop "restapi-plugin:a" } =
      (.ok ⟨⟨3, some renewed⟩, none⟩, v) ∧ v.record = t.record := by
  have hvalid : Rest.connector.validate served = .ok () :=
    except_eq_ok_of_toOption (by decide +kernel)
  let t := ((hourly.connectValid Rest.connector served).run { outside := () }).2
  have hrun : (hourly.connect Rest.connector served).run { outside := () } =
      (.ok ⟨⟨2, some (.oauth ⟨"me", ⟨"mine"⟩, "http://b.test/token", none,
          some ⟨⟨"issued"⟩, some ⟨3600, 0⟩, default⟩⟩)⟩,
        some (.oauth ⟨"me", ⟨"mine"⟩, "http://b.test/token", none,
          some ⟨⟨"issued"⟩, some ⟨3600, 0⟩, default⟩⟩)⟩, t) :=
    run_ofExcept_bind_eq_ok_iff.mpr ⟨(), hvalid, rfl⟩
  have hdates : Token.DatesReadBack ⟨⟨"issued"⟩, some ⟨3600, 0⟩, default⟩ :=
    ⟨by decide +kernel, fun expiry h => by cases h; decide +kernel⟩
  obtain ⟨-, token, heq, hread, hnext⟩ := stored_resumes hourly (.start ()) rfl hrun rfl
  cases heq
  have hholds (u : State Unit) := (hnext u rfl).1 (.inl Rest.connector_ignoresToken)
  obtain ⟨v, hdropped, -, hrecord⟩ :=
    (hholds { t with pool := t.pool.drop "restapi-plugin:a" }).2 "a" rfl (Pool.find?_drop_self _ _)
  refine ⟨_, t, _, v, .start (), hrun, rfl, hread ?_ _ (.same _), (hholds t).1 fun _ _ => rfl,
    hdropped, hrecord⟩
  intro token htoken
  cases htoken
  exact hdates

end Access

end Relay
