/-
# What a connection holds

A connection holds the credential of the datasource that it was asked for, but for the
token of an OAuth2 client. There it holds the token at hand while that is valid, and
otherwise one that was fetched for it, once, and is handed back to be stored. So going
through the pool differs from connecting anew only in the tokens that it saves.

Key definitions: `Credential.SameButToken`, `Access.Kept`, `Access.Renewed`.
Key theorems: `connect_eq_ok`, `revalidate_eq_ok`, `connectUncached_eq_ok`, `pooled_agrees`,
`oauth_fresh`.
-/
import Relay.Proofs.Endings
import Relay.Proofs.History

namespace Relay

open Call Wire

/-! ### Equal but for the token -/

namespace Credential

/-- The same credential, or the same client with another token. -/
def SameButToken (x y : Option Credential) : Prop :=
  x = y ∨ ∃ client token, y = some (.oauth client) ∧ x = some (.oauth { client with token })

theorem sameButToken_of_identity {x y : Option Credential} (h : x.map identity = y.map identity) :
    SameButToken x y := by
  cases x with
  | none =>
    cases y with
    | none => exact .inl rfl
    | some c => cases h
  | some b =>
    cases y with
    | none => cases h
    | some c =>
      have hbc : b.identity = c.identity := Option.some.inj h
      cases c with
      | oauth client =>
        cases b with
        | oauth client' =>
          obtain ⟨id, secret, tokenUrl, scope, token⟩ := client'
          cases client
          cases hbc
          exact .inr ⟨_, token, rfl, rfl⟩
        | none | bearer | basic | apiKey => cases hbc
      | none | bearer | basic | apiKey =>
        cases b with
        | oauth client' => cases hbc
        | none | bearer | basic | apiKey => exact .inl (congrArg some hbc)

/-- Of another kind than OAuth2, the credential is the same. -/
theorem SameButToken.eq {x y : Option Credential} (h : SameButToken x y)
    (hkind : kindOf y ≠ .oauth) : x = y := by
  rcases h with h | ⟨client, token, hy, -⟩
  · exact h
  · rw [hy] at hkind
    exact absurd rfl hkind

theorem SameButToken.kindOf {x y : Option Credential} (h : SameButToken x y) :
    kindOf x = kindOf y := by
  rcases h with h | ⟨client, token, hy, hx⟩
  · rw [h]
  · rw [hx, hy]
    rfl

/-- The check of a credential does not look at a client's token. -/
theorem SameButToken.check {x y : Option Credential} (h : SameButToken x y)
    {accepted : List Kind} (hy : check accepted y = .ok ()) :
    check accepted x = .ok () := by
  rcases h with rfl | ⟨client, token, rfl, rfl⟩
  · exact hy
  · exact hy

theorem SameButToken.oauth {x : Option Credential} {client : OAuthClient}
    (h : SameButToken x (some (.oauth client))) :
    ∃ token, x = some (.oauth { client with token }) := by
  rcases h with h | ⟨client', token, hy, hx⟩
  · exact ⟨client.token, h⟩
  · cases hy
    exact ⟨token, hx⟩

end Credential

/-! ### Tokens that hold -/

/-- The token does not expire, or is more than the skew away from it. -/
def Token.HoldsAt (token : Token) (now : Instant) (skew : Int) : Prop :=
  ∀ expiry, token.expiresAt = some expiry →
    ∃ deadline, expiry.shift? (-skew) = some deadline ∧ deadline.le now = false

theorem Token.holdsAt_of_isExpired? {token : Token} {now : Instant} {skew : Int}
    (h : token.isExpired? now skew = some false) : token.HoldsAt now skew := by
  intro expiry hexpiry
  unfold isExpired? at h
  rw [hexpiry] at h
  obtain ⟨deadline, hdeadline, hle⟩ := Option.map_eq_some_iff.mp h
  exact ⟨deadline, hdeadline, hle⟩

namespace Access

variable {σ : Type} (a : Access σ) {s t u : State σ} {c : Connector} {d : Datasource}
  {x : Connected}

/-! ### The two ways to a credential -/

/-- The connection has the credential as it was at hand, and nothing was fetched. -/
structure Kept (always : Bool) (credential : Option Credential) (s : State σ) (x : Connected)
    (t : State σ) : Prop where
  same : Credential.SameButToken x.connection.credential credential
  entry : a.KeepsEntry always (a.network.now s.outside) x.connection.credential
  refreshed : x.refreshed = none
  record : t.record = s.record

/-- The connection has the credential with a token that was fetched for it, and hands it
back. -/
structure Renewed (credential : Option Credential) (s : State σ) (x : Connected)
    (t : State σ) : Prop where
  same : Credential.SameButToken x.connection.credential credential
  refreshed : x.refreshed = x.connection.credential
  fetched : ∃ client token, (a.tokens.fetch (.oauth client) s.outside).1 = .ok token ∧
    x.connection.credential = some (.oauth { client with token := some token }) ∧
    t.record = .token (.oauth client) (.ok token) :: s.record

/-- A renewed credential is a client's. -/
theorem Renewed.kindOf {credential : Option Credential} (h : a.Renewed credential s x t) :
    Credential.kindOf credential = .oauth := by
  obtain ⟨client, token, -, hx, -⟩ := h.fetched
  rw [← h.same.kindOf, hx]
  rfl

variable {a} {old credential : Option Credential} {always : Bool} {id : Option String}

/-- What is used as it is is kept. -/
theorem Freshened.kept_of_none (h : a.Freshened always s old (.ok none) t)
    (hidentity : old.map Credential.identity = credential.map Credential.identity)
    (version : Nat) (p : Pool) :
    a.Kept always credential s ⟨⟨version, old⟩, none⟩ { t with pool := p } := by
  have hsame := Credential.sameButToken_of_identity hidentity
  cases h with
  | kept hkept => exact ⟨hsame, hkept, rfl, rfl⟩

/-- What gets a new token is renewed. -/
theorem Freshened.renewed_of_some {renewed : Credential}
    (h : a.Freshened always s old (.ok (some renewed)) t)
    (hidentity : old.map Credential.identity = credential.map Credential.identity)
    (version : Nat) (p : Pool) :
    a.Renewed credential s ⟨⟨version, some renewed⟩, some renewed⟩ { t with pool := p } := by
  cases h with
  | @fetched client token outside hdue hfetch =>
    refine ⟨Credential.sameButToken_of_identity hidentity, rfl, client, token, ?_, rfl, rfl⟩
    rw [hfetch]

theorem TransientEnds.eq_ok (h : a.TransientEnds credential s (.ok x) t) :
    a.Kept false credential s x t ∨ a.Renewed credential s x t := by
  cases h with
  | kept h => exact .inl (h.kept_of_none rfl 0 t.pool)
  | renewed h => exact .inr (h.renewed_of_some rfl 0 t.pool)

theorem PooledEnds.eq_ok {key : String} {e : Pool.Entry}
    (hidentity : e.credential.map Credential.identity = credential.map Credential.identity)
    (h : a.PooledEnds key e always s (.ok x) t) :
    a.Kept always credential s x t ∨ a.Renewed credential s x t := by
  cases h with
  | kept honce h => exact .inl (h.kept_of_none hidentity e.version t.pool)
  | putBack halways h => exact .inl (h.kept_of_none hidentity _ _)
  | renewed h => exact .inr (h.renewed_of_some hidentity _ _)

/-- **What a connection comes to.** -/
theorem Ends.eq_ok (hs : s.pool.Identified) (h : a.Ends c d id always s (.ok x) t) :
    a.Kept always d.credential s x t ∨ a.Renewed d.credential s x t := by
  cases h with
  | transient hvalid hid honce h =>
    rw [honce]
    exact h.eq_ok
  | @pooled name e result t hvalid hid he h =>
    obtain ⟨e', he', hidentity⟩ := s.pool.find?_enter_self (Pool.key c.name name) d.credential
    cases he.symm.trans he'
    have hentry := (hs.enter (Pool.key c.name name) d.credential) _ e he
    -- entering leaves the outside and the record as they were
    rcases h.eq_ok (hentry.trans hidentity) with hkept | hrenewed
    · exact .inl ⟨hkept.same, hkept.entry, hkept.refreshed, hkept.record⟩
    · exact .inr ⟨hrenewed.same, hrenewed.refreshed, hrenewed.fetched⟩

variable (a)

/-! ### Connecting -/

theorem connect_eq_ok (hs : s.pool.Identified) (h : (a.connect c d).run s = (.ok x, t)) :
    a.Kept false d.credential s x t ∨ a.Renewed d.credential s x t :=
  (a.connect_ends h).eq_ok hs

theorem connectUncached_eq_ok (h : (a.connectUncached c d).run s = (.ok x, t)) :
    a.Kept false d.credential s x t ∨ a.Renewed d.credential s x t := by
  cases a.connectUncached_ends h with
  | transient hvalid hid honce h => exact h.eq_ok
  | pooled hvalid hid he h => cases hid

/-- With an id, a revalidation keeps no client's token. -/
theorem revalidate_eq_ok (hs : s.pool.Identified) (h : (a.revalidate c d).run s = (.ok x, t)) :
    a.Kept d.id.isSome d.credential s x t ∨ a.Renewed d.credential s x t :=
  (a.revalidate_ends h).eq_ok hs

/-! ### Through the pool and past it -/

theorem validate_of_eq_ok (h : (a.connect c d).run s = (.ok x, t) ∨
    (a.revalidate c d).run s = (.ok x, t)) : c.validate d = .ok () := by
  rcases h with h | h
  · exact (a.connect_ends h).valid
  · exact (a.revalidate_ends h).valid

/-- A credential that needs no token is used as it is, and nothing is touched. -/
theorem run_connectUncached_of_plain (hvalid : c.validate d = .ok ())
    (hkind : Credential.kindOf d.credential ≠ .oauth) (s : State σ) :
    (a.connectUncached c d).run s = (.ok ⟨⟨0, d.credential⟩, none⟩, s) := by
  refine run_ofExcept_bind_eq_ok_iff.mpr ⟨(), hvalid, ?_⟩
  unfold connectTransient
  cases hd : d.credential with
  | none => rfl
  | some credential =>
    cases credential with
    | oauth client =>
      rw [hd] at hkind
      exact absurd rfl hkind
    | none | bearer | basic | apiKey => rfl

/-- **The pool agrees with connecting anew.** After any history, a connection through the
pool has the credential of the datasource that it was asked for, but for a client's token.
Of any other kind the credential is what connecting past the pool gives from any state,
nothing is fetched, and nothing is handed back. -/
theorem pooled_agrees (hs : a.Reachable s) (h : (a.connect c d).run s = (.ok x, t) ∨
    (a.revalidate c d).run s = (.ok x, t)) :
    Credential.SameButToken x.connection.credential d.credential ∧
      (Credential.kindOf d.credential ≠ .oauth →
        x.refreshed = none ∧ t.record = s.record ∧
        ∀ u, (a.connectUncached c d).run u = (.ok ⟨⟨0, x.connection.credential⟩, none⟩, u)) := by
  have hends : (∃ always, a.Kept always d.credential s x t) ∨ a.Renewed d.credential s x t := by
    rcases h with h | h
    · exact (a.connect_eq_ok hs.identified h).imp_left fun hkept => ⟨_, hkept⟩
    · exact (a.revalidate_eq_ok hs.identified h).imp_left fun hkept => ⟨_, hkept⟩
  rcases hends with ⟨always, hkept⟩ | hrenewed
  · refine ⟨hkept.same, fun hkind => ⟨hkept.refreshed, hkept.record, fun u => ?_⟩⟩
    rw [hkept.same.eq hkind]
    exact a.run_connectUncached_of_plain (a.validate_of_eq_ok h) hkind u
  · exact ⟨hrenewed.same, fun hkind => absurd (hrenewed.kindOf a) hkind⟩

/-- Takes any credential, and finds nothing wrong with a datasource. -/
def anyone : Connector :=
  { name := "anyone", invalids := fun _ => [], select := fun _ => .error (.unsupported "anyone") }

/-- Reaches nobody, and is given the same token whenever it asks. -/
def issuing : Access Unit :=
  { network := unreachable default
    tokens :=
      { fetch := fun _ outside => (.ok { secret := ⟨"issued"⟩, issuedAt := default }, outside) }
    skew := 60 }

/-- A bearer token that was edited between two calls reaches the second connection. -/
theorem pooled_agrees_edited : ∃ s x t, issuing.Reachable s ∧
    (s.pool.find? "anyone:a").map (·.credential) = some (some (.bearer ⟨"old"⟩)) ∧
    (issuing.connect anyone { id := some "a", credential := some (.bearer ⟨"new"⟩) }).run s =
      (.ok x, t) ∧
    Credential.SameButToken x.connection.credential (some (.bearer ⟨"new"⟩)) := by
  let old : Datasource := { id := some "a", credential := some (.bearer ⟨"old"⟩) }
  let new : Datasource := { id := some "a", credential := some (.bearer ⟨"new"⟩) }
  have hs : issuing.Reachable ((issuing.connect anyone old).run { outside := () }).2 :=
    .step (.start ()) (.connect anyone old _)
  have hrun : (issuing.connect anyone new).run
      ((issuing.connect anyone old).run { outside := () }).2 =
      (.ok ⟨⟨2, some (.bearer ⟨"new"⟩)⟩, none⟩, _) := rfl
  exact ⟨_, _, _, hs, rfl, hrun, (pooled_agrees issuing hs (.inl hrun)).1⟩

/-! ### Fresh tokens -/

/-- The call has fetched this token, has fetched no other, and hands the credential with it
back. -/
structure Fetched (token : Token) (s : State σ) (x : Connected) (t : State σ) : Prop where
  back : x.refreshed.isSome = true ∧ x.refreshed = x.connection.credential
  once : ∃ credential, (a.tokens.fetch credential s.outside).1 = .ok token ∧
    t.record = .token credential (.ok token) :: s.record

/-- The call has fetched nothing and hands nothing back, and this token still holds. -/
structure AtHand (token : Token) (s : State σ) (x : Connected) (t : State σ) : Prop where
  back : x.refreshed = none
  never : t.record = s.record
  holds : token.HoldsAt (a.network.now s.outside) a.skew

theorem not_fetched_and_atHand {token : Token} :
    ¬(a.Fetched token s x t ∧ a.AtHand token s x t) := by
  rintro ⟨⟨⟨hsome, -⟩, -⟩, hnone, -, -⟩
  rw [hnone] at hsome
  cases hsome

theorem Renewed.fetched_token {client : OAuthClient}
    (h : a.Renewed (some (.oauth client)) s x t) :
    ∃ token, x.connection.credential = some (.oauth { client with token := some token }) ∧
      a.Fetched token s x t := by
  obtain ⟨asked, token, hfetch, hx, hrecord⟩ := h.fetched
  obtain ⟨token', hx'⟩ := h.same.oauth
  refine ⟨token, ?_, ⟨?_, h.refreshed⟩, .oauth asked, hfetch, hrecord⟩
  · rw [hx] at hx' ⊢
    obtain ⟨id, secret, tokenUrl, scope, old⟩ := asked
    cases client
    cases hx'
    rfl
  · rw [h.refreshed, hx]
    rfl

theorem Kept.token_atHand {always : Bool} {client : OAuthClient}
    (h : a.Kept always (some (.oauth client)) s x t) :
    always = false ∧
      ∃ token, x.connection.credential = some (.oauth { client with token := some token }) ∧
        a.AtHand token s x t := by
  obtain ⟨token, hx⟩ := h.same.oauth
  have hentry := h.entry
  rw [hx] at hentry
  cases hentry with
  | plain hplain => exact absurd rfl (hplain _)
  | valid honce hdue =>
    refine ⟨honce, ?_⟩
    cases token with
    | none => cases hdue
    | some token =>
      exact ⟨token, hx, h.refreshed, h.record, Token.holdsAt_of_isExpired? hdue⟩

/-- **A client's connection has a fresh token.** After any history, connecting gives the
client of the datasource with a token: either one that was fetched in this call, by the
only fetch, and the credential with it is handed back; or, without a fetch, one that still
holds; never both. Revalidating a datasource with an id always fetches one. -/
theorem oauth_fresh (hs : a.Reachable s) {client : OAuthClient}
    (hd : d.credential = some (.oauth client)) :
    (∀ x t, (a.connect c d).run s = (.ok x, t) ∨ (a.connectUncached c d).run s = (.ok x, t) →
      ∃ token, x.connection.credential = some (.oauth { client with token := some token }) ∧
        (a.Fetched token s x t ∨ a.AtHand token s x t) ∧
        ¬(a.Fetched token s x t ∧ a.AtHand token s x t)) ∧
    ∀ x t, d.id.isSome = true → (a.revalidate c d).run s = (.ok x, t) →
      ∃ token, x.connection.credential = some (.oauth { client with token := some token }) ∧
        a.Fetched token s x t := by
  refine ⟨fun x t h => ?_, fun x t hid h => ?_⟩
  · have hends : a.Kept false d.credential s x t ∨ a.Renewed d.credential s x t := by
      rcases h with h | h
      · exact a.connect_eq_ok hs.identified h
      · exact a.connectUncached_eq_ok h
    rw [hd] at hends
    rcases hends with hkept | hrenewed
    · obtain ⟨-, token, hx, hat⟩ := hkept.token_atHand
      exact ⟨token, hx, .inr hat, a.not_fetched_and_atHand⟩
    · obtain ⟨token, hx, hfetched⟩ := hrenewed.fetched_token
      exact ⟨token, hx, .inl hfetched, a.not_fetched_and_atHand⟩
  · have hends := a.revalidate_eq_ok hs.identified h
    rw [hd, hid] at hends
    rcases hends with hkept | hrenewed
    · obtain ⟨honce, -⟩ := hkept.token_atHand
      cases honce
    · exact hrenewed.fetched_token

/-- A datasource of a client that has no token yet. -/
def unserved : Datasource :=
  { id := some "a", credential := some (.oauth { id := "me", secret := ⟨"mine"⟩, tokenUrl := "" }) }

/-- The client is given the token that is issued. -/
theorem oauth_fresh_unserved : ∃ x t token, issuing.Reachable { outside := () } ∧
    (issuing.connect anyone unserved).run { outside := () } = (.ok x, t) ∧
    x.connection.credential = some (.oauth ⟨"me", ⟨"mine"⟩, "", none, some token⟩) ∧
    token.secret.text = "issued" ∧ issuing.Fetched token { outside := () } x t := by
  have hs : issuing.Reachable { outside := () } := .start ()
  have hrun : (issuing.connect anyone unserved).run { outside := () } =
      (.ok ⟨⟨2, some (.oauth ⟨"me", ⟨"mine"⟩, "", none, some ⟨⟨"issued"⟩, none, default⟩⟩)⟩,
        some (.oauth ⟨"me", ⟨"mine"⟩, "", none, some ⟨⟨"issued"⟩, none, default⟩⟩)⟩, _) := rfl
  obtain ⟨token, hx, hfresh, -⟩ := (oauth_fresh issuing hs rfl).1 _ _ (.inl hrun)
  refine ⟨_, _, token, hs, hrun, hx, ?_, ?_⟩
  · cases hx
    rfl
  · refine hfresh.resolve_right fun hat => ?_
    cases hat.back

end Access

end Relay
