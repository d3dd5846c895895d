/-
# Making credentials fit for use

Before it is used, a client's credential gets a new token if it has none or one that expires
soon, and in any case when it is revalidated. Every other credential is used as it is. The entry of
a pool is refreshed in the same way, and what was renewed takes its place there.

Key definitions: `Access.freshen`, `Access.KeepsEntry`, `Access.Freshened`.
Key theorems: `freshen_ends`, `run_freshen_of_keeps`, `run_refresh`.
-/
import Relay.Proofs.Access

namespace Relay

open Call Wire

/-- A token that has not expired had not expired before. -/
theorem Token.isExpired?_earlier {token : Token} {now later : Instant} {skew : Int}
    (h : token.isExpired? later skew = some false) (hle : now.le later = true) :
    token.isExpired? now skew = some false := by
  unfold isExpired? at h ⊢
  cases hexpiry : token.expiresAt with
  | none => rfl
  | some expiry =>
    rw [hexpiry] at h
    obtain ⟨deadline, hdeadline, hlater⟩ := Option.map_eq_some_iff.mp h
    have hnow : deadline.le now = false := by
      refine Bool.eq_false_iff.mpr fun hreached => ?_
      rw [Instant.le_trans hreached hle] at hlater
      cases hlater
    exact Option.map_eq_some_iff.mpr ⟨deadline, hdeadline, hnow⟩

namespace Access

variable {σ : Type} (a : Access σ) {s t : State σ} {always : Bool}
  {credential : Option Credential}

/-! ### The parts -/

theorem run_needsToken (client : OAuthClient) (s : State σ) :
    (a.needsToken (.oauth client)).run s =
      (ofTime? (a.due? client (a.network.now s.outside))).run s := by
  obtain ⟨id, secret, tokenUrl, scope, token⟩ := client
  cases token with
  | none => rfl
  | some token => rfl

theorem run_renew (credential : Credential) (s : State σ) :
    (a.renew credential).run s =
      ((a.tokens.fetch credential s.outside).1.map fun token => credential.withToken token,
        { s with
          outside := (a.tokens.fetch credential s.outside).2
          record := .token credential (a.tokens.fetch credential s.outside).1 :: s.record }) :=
  rfl

theorem run_pooled {key : String} {e : Pool.Entry} (he : s.pool.find? key = some e) :
    (pooled key : Call σ _).run s = (.ok e.connection, s) := by
  unfold pooled
  rw [run_bind, run_get]
  dsimp only
  rw [he]
  rfl

/-! ### Making a credential fit for use -/

/-- The credential of the client with a new token, if one is due. -/
def freshenIf (client : OAuthClient) (due : Bool) : Call σ (Option Credential) :=
  if due then do
    let renewed ← a.renew (.oauth client)
    pure (some renewed)
  else pure none

/-- The credential with a new token, if one is due or `always`; none if it is used as it
is. -/
def freshen (always : Bool) : Option Credential → Call σ (Option Credential)
  | some (.oauth client) =>
    (if always then pure true else a.needsToken (.oauth client)) >>= a.freshenIf client
  | _ => pure none

/-- A token is fetched for the client at this instant. -/
def Due (always : Bool) (client : OAuthClient) (now : Instant) : Prop :=
  always = true ∨ a.due? client now = some true

/-- The credential of an entry is used as it is. -/
inductive KeepsEntry (always : Bool) (now : Instant) : Option Credential → Prop
  | plain {credential : Option Credential} (h : ∀ client, credential ≠ some (.oauth client)) :
    KeepsEntry always now credential
  | valid {client : OAuthClient} (honce : always = false) (h : a.due? client now = some false) :
    KeepsEntry always now (some (.oauth client))

/-- What becomes of a credential in `s`: it is used as it is, it is not known whether its
token is due, or a token is fetched for it, or refused. -/
inductive Freshened (always : Bool) (s : State σ) :
    Option Credential → Except Halt (Option Credential) → State σ → Prop
  | kept {credential : Option Credential}
    (h : a.KeepsEntry always (a.network.now s.outside) credential) :
    Freshened always s credential (.ok none) s
  | undated {client : OAuthClient} (honce : always = false)
    (h : a.due? client (a.network.now s.outside) = none) :
    Freshened always s (some (.oauth client)) (.error .noSuchTime) s
  | fetched {client : OAuthClient} {token : Token} {outside : σ}
    (hdue : a.Due always client (a.network.now s.outside))
    (h : a.tokens.fetch (.oauth client) s.outside = (.ok token, outside)) :
    Freshened always s (some (.oauth client))
      (.ok (some (.oauth { client with token := some token })))
      { s with outside, record := .token (.oauth client) (.ok token) :: s.record }
  | refused {client : OAuthClient} {halt : Halt} {outside : σ}
    (hdue : a.Due always client (a.network.now s.outside))
    (h : a.tokens.fetch (.oauth client) s.outside = (.error halt, outside)) :
    Freshened always s (some (.oauth client)) (.error halt)
      { s with outside, record := .token (.oauth client) (.error halt) :: s.record }

/-- A token that is due is fetched. -/
theorem renew_freshened {client : OAuthClient}
    (hdue : a.Due always client (a.network.now s.outside))
    {result : Except Halt (Option Credential)}
    (h : (a.freshenIf client true).run s = (result, t)) :
    a.Freshened always s (some (.oauth client)) result t := by
  unfold freshenIf at h
  rw [if_pos rfl, run_bind, run_renew] at h
  rcases hfetch : a.tokens.fetch (.oauth client) s.outside with ⟨halt | token, outside⟩
  · rw [hfetch] at h
    cases h
    exact .refused hdue hfetch
  · rw [hfetch] at h
    cases h
    exact .fetched hdue hfetch

/-- **What becomes of a credential.** -/
theorem freshen_ends {result : Except Halt (Option Credential)}
    (h : (a.freshen always credential).run s = (result, t)) :
    a.Freshened always s credential result t := by
  unfold freshen at h
  split at h
  · rename_i client
    cases always with
    | true => exact a.renew_freshened (.inl rfl) h
    | false =>
      rw [if_neg Bool.false_ne_true, run_bind, run_needsToken] at h
      cases hdue : a.due? client (a.network.now s.outside) with
      | none =>
        rw [hdue] at h
        cases h
        exact .undated rfl hdue
      | some due =>
        rw [hdue] at h
        cases due with
        | true => exact a.renew_freshened (.inr hdue) h
        | false =>
          cases h
          exact .kept (.valid rfl hdue)
  · rename_i hplain
    cases h
    exact .kept (.plain hplain)

variable {a}

/-- The pool is left alone. -/
theorem Freshened.pool {result : Except Halt (Option Credential)}
    (h : a.Freshened always s credential result t) : t.pool = s.pool := by
  cases h with
  | kept h => rfl
  | undated honce h => rfl
  | fetched hdue h => rfl
  | refused hdue h => rfl

/-- What is not due was not due before. -/
theorem KeepsEntry.earlier {now later : Instant} (h : a.KeepsEntry always later credential)
    (hle : now.le later = true) : a.KeepsEntry always now credential := by
  cases h with
  | plain hplain => exact .plain hplain
  | @valid client honce hdue =>
    refine .valid honce ?_
    unfold due? at hdue ⊢
    cases htoken : client.token with
    | none =>
      rw [htoken] at hdue
      cases hdue
    | some token =>
      rw [htoken] at hdue
      exact Token.isExpired?_earlier hdue hle

variable (a)

/-- A credential that is not due is left as it is, and nothing is touched. -/
theorem run_freshen_of_keeps (h : a.KeepsEntry always (a.network.now s.outside) credential) :
    (a.freshen always credential).run s = (.ok none, s) := by
  have notDue {client : OAuthClient} (hcredential : credential = some (.oauth client)) :
      ¬a.Due always client (a.network.now s.outside) := by
    cases h with
    | plain hplain => exact absurd hcredential (hplain client)
    | valid honce hvalid =>
      cases hcredential
      rintro (halways | hdue)
      · rw [honce] at halways
        cases halways
      · rw [hvalid] at hdue
        cases hdue
  rcases hrun : (a.freshen always credential).run s with ⟨result, t⟩
  cases a.freshen_ends hrun with
  | kept hkept => rfl
  | undated honce hnone =>
    cases h with
    | plain hplain => exact absurd rfl (hplain _)
    | valid _ hvalid =>
      rw [hvalid] at hnone
      cases hnone
  | fetched hdue hfetch => exact absurd hdue (notDue rfl)
  | refused hdue hfetch => exact absurd hdue (notDue rfl)

/-! ### With and without the pool -/

/-- What was renewed takes the place of the credential in the entry. -/
def putRenewed (key : String) (s : State σ) : Except Halt (Option Credential) → State σ
  | .ok (some renewed) => { s with pool := s.pool.replace key (some renewed) }
  | _ => s

/-- A refresh makes the credential of the entry fit for use. -/
theorem run_refresh {key : String} {e : Pool.Entry} (he : s.pool.find? key = some e) :
    (a.refresh key always).run s =
      let ended := (a.freshen always e.credential).run s
      (ended.1, putRenewed key ended.2 ended.1) := by
  have hrenew (client : OAuthClient) (due : Bool) (u : State σ) :
      (a.renewIf key client due).run u =
        let ended := (a.freshenIf client due).run u
        (ended.1, putRenewed key ended.2 ended.1) := by
    cases due with
    | false => rfl
    | true =>
      unfold renewIf freshenIf
      rw [if_pos rfl, if_pos rfl, run_bind, run_bind]
      rcases (a.renew (.oauth client)).run u with ⟨halt | renewed, v⟩
      · rfl
      · rfl
  rw [refresh_eq, run_bind, run_pooled he]
  obtain ⟨identity, version, credential⟩ := e
  cases credential with
  | none => rfl
  | some credential =>
    cases credential with
    | oauth client =>
      unfold freshen
      dsimp only [Pool.Entry.connection]
      rw [run_bind, run_bind]
      rcases (if always then pure true else a.needsToken (.oauth client)).run s with
        ⟨halt | due, u⟩
      · rfl
      · exact hrenew client due u
    | none | bearer | basic | apiKey => rfl

end Access

end Relay
