/-
# Failed connections

Connecting makes or replaces the entry of the datasource before it asks for a token, so a
connection that fails may leave something behind. But it is one entry at most, under
the datasource's own key, and it holds the credential that was given, under a version of its own.
An entry that belonged to this credential stays as it is: a token is put into it only when
there is one. So all that failed is the token. Once the token source answers, the same call
finds the credential where it was left and comes to a connection.

Key definitions: `Access.Connects`, `Access.Contained`, `Access.Dated`, `TokenSource.Serves`.
Key theorems: `contained_of_ends`, `Freshened.not_halted`, `sameButToken_atHand`, `Ends.retried`,
`failure_contained`.
-/
import Relay.Proofs.Timeliness
import Relay.Proofs.Validity
import Relay.Proofs.Versions

namespace Relay

open Call Wire

namespace Pool

/-- Where there is no entry for the credential, it is put in as it is. -/
theorem enter_eq_store {p : Pool} {key : String} {credential : Option Credential}
    (h : ∀ e, p.find? key = some e → e.identity ≠ credential.map Credential.identity) :
    p.enter key credential = p.store key (credential.map Credential.identity) credential := by
  cases he : p.find? key with
  | some e => exact enter_of_identity_ne he (h e he)
  | none => exact enter_of_none he credential

end Pool

/-- The source grants the client a token, whichever token it has. -/
def TokenSource.Serves {σ : Type} (tokens : TokenSource σ) (client : OAuthClient) (outside : σ) :
    Prop :=
  ∀ token, ∃ granted after,
    tokens.fetch (.oauth { client with token }) outside = (.ok granted, after)

namespace Access

variable {σ : Type} {a : Access σ} {s t u v : State σ} {c : Connector} {d : Datasource}
  {id : Option String} {always again : Bool} {credential : Option Credential}
  {result : Except Halt Connected}

/-- The calls that connect, with the id that they ask the pool for and with whether a token is
fetched in any case. -/
inductive Connects (a : Access σ) :
    Call σ Connected → Connector → Datasource → Option String → Bool → Prop
  | connect (c : Connector) (d : Datasource) : Connects a (a.connect c d) c d d.id false
  | revalidate (c : Connector) (d : Datasource) :
    Connects a (a.revalidate c d) c d d.id d.id.isSome
  | connectUncached (c : Connector) (d : Datasource) :
    Connects a (a.connectUncached c d) c d none false

theorem Connects.ends {call : Call σ Connected} (hcall : a.Connects call c d id always)
    (h : call.run s = (result, t)) : a.Ends c d id always s result t := by
  cases hcall with
  | connect => exact a.connect_ends h
  | revalidate => exact a.revalidate_ends h
  | connectUncached => exact a.connectUncached_ends h

/-! ### What is left behind -/

/-- What a call that comes to no connection may have done to the pool. -/
structure Contained (c : Connector) (d : Datasource) (id : Option String) (s t : State σ) :
    Prop where
  /-- A datasource that does not pass the check touches nothing. -/
  invalid : c.validate d ≠ .ok () → t = s
  /-- No other entry is touched, and without an id none at all. -/
  others : ∀ key, id.map (Pool.key c.name) ≠ some key → t.pool.find? key = s.pool.find? key
  /-- An entry that belongs to the credential leaves all as it was. -/
  same : ∀ name e, id = some name → s.pool.find? (Pool.key c.name name) = some e →
    e.identity = d.credential.map Credential.identity → t.pool = s.pool
  /-- Otherwise there is an entry now with the credential as it was given, under a version that
  is later than all others. -/
  entered : ∀ name, id = some name → c.validate d = .ok () →
    (∀ e, s.pool.find? (Pool.key c.name name) = some e →
      e.identity ≠ d.credential.map Credential.identity) →
    t.pool.find? (Pool.key c.name name) =
        some ⟨d.credential.map Credential.identity, s.pool.next, d.credential⟩ ∧
      ∀ key e, s.pool.find? key = some e → e.version < s.pool.next

/-- A connection that fails has entered the credential at most. -/
theorem Ends.pool_of_error {halt : Halt} {name : String}
    (h : a.Ends c d (some name) always s (.error halt) t) (hvalid : c.validate d = .ok ()) :
    t.pool = s.pool.enter (Pool.key c.name name) d.credential :=
  (h.freshened_of_error hvalid).pool

theorem contained_of_ends {puts : List Connection} (hs : Pool.Moves {} puts s.pool) {halt : Halt}
    (h : a.Ends c d id always s (.error halt) t) : Contained c d id s t where
  invalid hinvalid := by
    cases hvalidate : c.validate d with
    | ok valid => exact absurd hvalidate hinvalid
    | error f => exact (h.of_invalid hvalidate).2
  others _ hkey := h.find?_of_ne hkey
  same name e hid he hidentity := by
    subst hid
    cases hvalidate : c.validate d with
    | error f => rw [(h.of_invalid hvalidate).2]
    | ok valid => rw [h.pool_of_error hvalidate, Pool.enter_of_identity he hidentity]
  entered name hid hvalid hnone := by
    subst hid
    refine ⟨?_, fun key e he => (hs.version_made he).2⟩
    rw [h.pool_of_error hvalid, Pool.enter_eq_store hnone, Pool.find?_store_self]

/-! ### Trying again -/

/-- What fails is the token of a client, and it had been seen whether it was due. -/
theorem Freshened.of_failed {f : Failure}
    (h : a.Freshened always s credential (.error (.failed f)) t) :
    ∃ client, credential = some (.oauth client) ∧
      a.Due always client (a.network.now s.outside) := by
  cases h with
  | refused hdue hfetch => exact ⟨_, rfl, hdue⟩

/-- The deadline of the token can be named, if the credential is a client's with a token that
expires. -/
def Dated (a : Access σ) (credential : Option Credential) : Prop :=
  ∀ client token expiry, credential = some (.oauth client) → client.token = some token →
    token.expiresAt = some expiry → expiry.shift? (-a.skew) ≠ none

theorem Dated.due?_ne_none {client : OAuthClient} (h : a.Dated (some (.oauth client)))
    (now : Instant) : a.due? client now ≠ none := by
  rw [Ne, a.due?_eq_none_iff]
  rintro ⟨token, expiry, htoken, hexpiry, hnone⟩
  exact h client token expiry rfl htoken hexpiry hnone

/-- If it was seen that a token is due, its deadline was named. -/
theorem Due.dated {client : OAuthClient} {now : Instant} (h : a.Due always client now)
    (honce : always = false) : a.Dated (some (.oauth client)) := by
  intro client' token expiry hclient htoken hexpiry hnone
  cases hclient
  have hundated : a.due? client now = none :=
    a.due?_eq_none_iff.mpr ⟨token, expiry, htoken, hexpiry, hnone⟩
  rcases h with halways | hdue
  · rw [honce] at halways
    cases halways
  · rw [hundated] at hdue
    cases hdue

/-- A client that can be served, with a token whose deadline can be named or need not be, is made
fit for use. -/
theorem Freshened.not_halted {client : OAuthClient} {halt : Halt}
    (h : a.Freshened always u (some (.oauth client)) (.error halt) v)
    (hdated : always = false → a.Dated (some (.oauth client)))
    {granted : Token} {after : σ}
    (hserves : a.tokens.fetch (.oauth client) u.outside = (.ok granted, after)) : False := by
  cases h with
  | undated honce hnone => exact (hdated honce).due?_ne_none _ hnone
  | refused hdue hfetch =>
    rw [hserves] at hfetch
    cases hfetch

/-- A credential that could not be made fit for use can be later, if it is that of a client whom
the source serves then. -/
theorem Freshened.retried {f : Failure}
    (h : a.Freshened always s credential (.error (.failed f)) t)
    (hsame : Credential.SameButToken credential d.credential)
    (hdated : always = true → again = false → a.Dated credential)
    (hserves : ∀ client, d.credential = some (.oauth client) → a.tokens.Serves client u.outside)
    {halt : Halt} (hu : a.Freshened again u credential (.error halt) v) : False := by
  obtain ⟨client, rfl, hdue⟩ := h.of_failed
  have hfetch : ∃ granted after,
      a.tokens.fetch (.oauth client) u.outside = (.ok granted, after) := by
    rcases hsame with hsame | ⟨client', token, hd, hclient⟩
    · exact hserves client hsame.symm client.token
    · cases hclient
      exact hserves client' hd token
  obtain ⟨granted, after, hfetch⟩ := hfetch
  refine hu.not_halted (fun honce => ?_) hfetch
  cases halways : always with
  | false => exact hdue.dated halways
  | true => exact hdated halways honce

/-- The credential at hand is that of the datasource, but for the token. -/
theorem sameButToken_atHand (hs : s.pool.Identified) :
    Credential.SameButToken (atHand c d id s.pool) d.credential := by
  cases id with
  | none => exact .inl rfl
  | some name =>
    obtain ⟨e, he, hidentity⟩ := s.pool.find?_enter_self (Pool.key c.name name) d.credential
    have hcredential := hs.enter (Pool.key c.name name) d.credential _ e he
    rw [atHand_eq he]
    exact Credential.sameButToken_of_identity (hcredential.trans hidentity)

/-- Once the datasource is entered, the same credential is at hand as before. -/
theorem atHand_of_entered {name : String} {p q : Pool}
    (h : q.find? (Pool.key c.name name) =
      (p.enter (Pool.key c.name name) d.credential).find? (Pool.key c.name name)) :
    atHand c d (some name) q = atHand c d (some name) p := by
  obtain ⟨e, he, hidentity⟩ := p.find?_enter_self (Pool.key c.name name) d.credential
  rw [he] at h
  unfold atHand
  dsimp only
  rw [Pool.enter_of_identity h hidentity, h, he]

/-- **What failed for want of a token succeeds when there is one**, with the entry as it was
left. -/
theorem Ends.retried (hs : s.pool.Identified) {f : Failure}
    (h : a.Ends c d id always s (.error (.failed f)) t) (hvalid : c.validate d = .ok ())
    (hentry : ∀ name, id = some name →
      u.pool.find? (Pool.key c.name name) = t.pool.find? (Pool.key c.name name))
    (hdated : always = true → again = false → a.Dated (atHand c d id u.pool))
    (hserves : ∀ client, d.credential = some (.oauth client) → a.tokens.Serves client u.outside)
    (hu : a.Ends c d id again u result v) : ∃ x, result = .ok x := by
  cases result with
  | ok x => exact ⟨x, rfl⟩
  | error halt =>
    have hhand : atHand c d id u.pool = atHand c d id s.pool := by
      cases id with
      | none => rfl
      | some name =>
        refine atHand_of_entered ?_
        rw [hentry name rfl, h.pool_of_error hvalid]
    have hfresh := h.freshened_of_error hvalid
    have hfresh' := hu.freshened_of_error hvalid
    rw [hhand] at hfresh' hdated
    rw [← outside_entered c d id u] at hserves
    exact (hfresh.retried (sameButToken_atHand hs) hdated hserves hfresh').elim

/-! ### Failures -/

/-- **A failed connection does no harm beyond its own entry**, in every state that calls have led
to and in each of the ways to connect. Without an id the pool is left alone, whatever comes of
it. With one, no other entry is touched. If the datasource does not pass the check, nothing is.
An entry that belongs to its credential stays, and with it the whole pool; otherwise its
credential is entered as it was given, under a new version. If it had passed the check
and failed all the same, then the same call succeeds as soon as the client is served, whatever
else has changed but the entry. So does any other that goes through the pool alike; only where
the failed one had fetched a token in any case and the other asks whether it is due, the
deadline of the token at hand must be one that can be named. -/
theorem failure_contained (hs : a.Reachable s) {call : Call σ Connected}
    (hcall : a.Connects call c d id always) (h : call.run s = (result, t)) :
    (id = none → t.pool = s.pool) ∧
    (∀ halt, result = .error halt → Contained c d id s t) ∧
    ∀ f, result = .error (.failed f) → c.validate d = .ok () → ∀ u,
      (∀ name, id = some name →
        u.pool.find? (Pool.key c.name name) = t.pool.find? (Pool.key c.name name)) →
      (∀ client, d.credential = some (.oauth client) → a.tokens.Serves client u.outside) →
      (∃ x v, call.run u = (.ok x, v)) ∧
      ∀ other again, a.Connects other c d id again →
        (always = true → again = false → a.Dated (atHand c d id u.pool)) →
        ∃ x v, other.run u = (.ok x, v) := by
  have hends := hcall.ends h
  refine ⟨fun hid => ?_, fun halt hresult => ?_, fun f hresult hvalid u hentry hserves => ?_⟩
  · subst hid
    exact hends.past_pool.1
  · subst hresult
    obtain ⟨puts, hputs⟩ := hs.moves
    exact contained_of_ends hputs hends
  · subst hresult
    have hretried {other : Call σ Connected} {again : Bool}
        (hother : a.Connects other c d id again)
        (hdated : always = true → again = false → a.Dated (atHand c d id u.pool)) :
        ∃ x v, other.run u = (.ok x, v) := by
      rcases hrun : other.run u with ⟨retried, v⟩
      obtain ⟨x, rfl⟩ :=
        hends.retried hs.identified hvalid hentry hdated hserves (hother.ends hrun)
      exact ⟨x, v, rfl⟩
    refine ⟨hretried hcall fun halways honce => ?_, fun other again => hretried⟩
    rw [halways] at honce
    cases honce

/-- An access whose token source is down or up. -/
def flaky : Access Bool where
  network :=
    { now := fun _ => default
      exchange := fun _ _ outside => (.unreachable false, outside) }
  tokens :=
    { fetch := fun _ up =>
        (if up then .ok { secret := ⟨"issued"⟩, issuedAt := default }
          else .error (.failed (.authentication "down")), up) }
  skew := 60

/-- Connecting fails while the source is down; the client's credential is entered, and once the
source is up the same call gets a token for it. -/
theorem failure_contained_flaky : ∃ f t, flaky.Reachable { outside := false } ∧
    (flaky.connect anyone unserved).run { outside := false } = (.error (.failed f), t) ∧
    t.pool.find? "anyone:a" =
      some ⟨unserved.credential.map Credential.identity, 1, unserved.credential⟩ ∧
    ∃ x v, (flaky.connect anyone unserved).run { t with outside := true } = (.ok x, v) := by
  let t := ((flaky.connect anyone unserved).run { outside := false }).2
  have hs : flaky.Reachable { outside := false } := .start false
  have hrun : (flaky.connect anyone unserved).run { outside := false } =
      (.error (.failed (.authentication "down")), t) := rfl
  obtain ⟨-, hcontained, hretried⟩ := failure_contained hs (.connect anyone unserved) hrun
  have hentered := (hcontained _ rfl).entered "a" rfl rfl fun e he => (nomatch he)
  have hup := hretried _ rfl rfl { t with outside := true } (fun name hid => rfl)
    fun client hclient token => ⟨_, _, rfl⟩
  exact ⟨_, t, hs, hrun, hentered.1, hup.1⟩

end Access

end Relay
