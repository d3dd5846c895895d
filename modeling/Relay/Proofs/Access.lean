/-
# Connecting to a datasource

Connecting first checks the datasource, which touches nothing. What it hands out after
that are requests for tokens only, and only those for OAuth2 credentials; so once the
check is passed, the token source alone can make it fail.

Key definitions: `TokenSource.Refuses`, `Access.renewIf`, `Access.connectValid`.
Key theorems: `run_send`, `connect_within`, `connect_eq_failed`.
-/
import Relay.Access
import Relay.Proofs.Call

namespace Relay

open Call Wire

variable {σ : Type}

/-- The source may answer a request for the token of a client with this failure. -/
def TokenSource.Refuses (tokens : TokenSource σ) (f : Failure) : Prop :=
  ∃ client outside, (tokens.fetch (.oauth client) outside).1 = .error (.failed f)

namespace Access

variable (a : Access σ)

/-! ### Sending -/

/-- A request that is sent is noted, and the pool is left alone. -/
theorem run_send (c : Connection) (r : Request) (timeout : Span) (limit : Nat) (s : State σ) :
    ∃ answer outside, (a.send c r timeout limit).run s =
      (.ok answer, { s with outside, record := .request c r timeout limit :: s.record }) := by
  rw [send]
  rcases hsend : a.network.send (.ofRequest c r) timeout s.outside with ⟨fault | answer, outside⟩
  · exact ⟨.error fault, outside, by simp [hsend]⟩
  · exact ⟨answer.read limit timeout, outside, by simp [hsend]⟩

/-! ### Steps of connecting -/

theorem needsToken_within {P : Event → Prop} {Q : Failure → Prop} (credential : Credential) :
    (a.needsToken credential).Within P Q := by
  unfold needsToken
  split
  · split
    · exact .pure _
    · exact .bind .get fun s => .ofTime? _
  · exact .pure _

/-- A renewal is one request for a token. -/
theorem renew_within (client : OAuthClient) :
    (a.renew (.oauth client)).Within Event.AboutToken a.tokens.Refuses where
  records := fun s => by
    refine ⟨[.token (.oauth client) (a.tokens.fetch (.oauth client) s.outside).1], rfl,
      fun e he => ?_⟩
    rw [List.mem_singleton.mp he]
    rfl
  fails := fun s f t h => by
    refine ⟨client, s.outside, ?_⟩
    have hanswer : ((a.tokens.fetch (.oauth client) s.outside).1.map fun token =>
        (Credential.oauth client).withToken token) = .error (.failed f) := congrArg Prod.fst h
    cases hfetch : (a.tokens.fetch (.oauth client) s.outside).1 with
    | error halt =>
      rw [hfetch] at hanswer
      cases hanswer
      rfl
    | ok token =>
      rw [hfetch] at hanswer
      cases hanswer

theorem pooled_within {P : Event → Prop} {Q : Failure → Prop} (key : String) :
    (pooled key : Call σ Connection).Within P Q :=
  .bind .get fun _ => .pure _

/-- The last step of `refresh`: the entry of a client gets a new token, if one is due. -/
def renewIf (key : String) (client : OAuthClient) (due : Bool) :
    Call σ (Option Credential) :=
  if due then do
    let renewed ← a.renew (.oauth client)
    modifyPool fun p => p.replace key (some renewed)
    pure (some renewed)
  else pure none

theorem refresh_eq (key : String) (always : Bool) :
    a.refresh key always = (do
      let current ← pooled key
      match current.credential with
      | some (.oauth client) =>
        (if always then pure true else a.needsToken (.oauth client)) >>= a.renewIf key client
      | _ => pure none) := by
  cases always
  · rfl
  · rfl

theorem renewIf_within (key : String) (client : OAuthClient) (due : Bool) :
    (a.renewIf key client due).Within Event.AboutToken a.tokens.Refuses := by
  unfold renewIf
  split
  · exact .bind (a.renew_within _) fun renewed => .bind (.modifyPool _) fun _ => .pure _
  · exact .pure _

theorem refresh_within (key : String) (always : Bool) :
    (a.refresh key always).Within Event.AboutToken a.tokens.Refuses := by
  rw [refresh_eq]
  refine .bind (pooled_within key) fun current => ?_
  split
  · refine .bind ?_ fun due => a.renewIf_within key _ due
    split
    · exact .pure _
    · exact a.needsToken_within _
  · exact .pure _

/-- A token is asked for OAuth2 credentials only. -/
theorem connectTransient_within (d : Datasource) :
    (a.connectTransient d).Within Event.AboutToken a.tokens.Refuses := by
  rw [connectTransient]
  split
  · exact .pure _
  · rename_i credential hcredential
    cases credential with
    | oauth client =>
      refine .bind (a.needsToken_within _) fun needed => ?_
      split
      · exact .bind (a.renew_within client) fun renewed => .pure _
      · exact .pure _
    | none => exact .pure _
    | bearer token => exact .pure _
    | basic username password => exact .pure _
    | apiKey name value place lead => exact .pure _

/-! ### Connecting -/

/-- What connecting does to a datasource that has passed the check. -/
def connectValid (c : Connector) (d : Datasource) : Call σ Connected :=
  match d.id with
  | none => a.connectTransient d
  | some id => do
    let key := Pool.key c.name id
    modifyPool fun p => p.enter key d.credential
    let refreshed ← a.refresh key false
    pure ⟨← pooled key, refreshed⟩

theorem connect_eq (c : Connector) (d : Datasource) :
    a.connect c d = (do ofExcept (c.validate d); a.connectValid c d) := rfl

theorem connectValid_within (c : Connector) (d : Datasource) :
    (a.connectValid c d).Within Event.AboutToken a.tokens.Refuses := by
  rw [connectValid]
  split
  · exact a.connectTransient_within d
  · exact .bind (.modifyPool _) fun _ => .bind (a.refresh_within _ _) fun refreshed =>
      .bind (pooled_within _) fun _ => .pure _

/-- **Connecting hands over no request**: all that it hands out is about tokens. It fails
for what is wrong with the datasource, or because the token source refuses. -/
theorem connect_within (c : Connector) (d : Datasource) :
    (a.connect c d).Within Event.AboutToken
      fun f => c.validate d = .error f ∨ a.tokens.Refuses f := by
  rw [connect_eq]
  refine .bind (.ofExcept fun f h => .inl h) fun _ => ?_
  exact ⟨(a.connectValid_within c d).records,
    fun s f t h => .inr ((a.connectValid_within c d).fails s f t h)⟩

/-- Unless the token source refuses, a failure to connect touches nothing. -/
theorem connect_eq_failed {c : Connector} {d : Datasource} {s t : State σ} {f : Failure}
    (h : (a.connect c d).run s = (.error (.failed f), t)) :
    (c.validate d = .error f ∧ t = s) ∨ a.tokens.Refuses f := by
  rw [connect_eq] at h
  rcases run_bind_eq_error_iff.mp h with hcheck | ⟨⟨⟩, u, -, hrest⟩
  · obtain ⟨f', hinvalid, heq, ht⟩ := run_ofExcept_eq_error_iff.mp hcheck
    cases heq
    exact .inl ⟨hinvalid, ht⟩
  · exact .inr ((a.connectValid_within c d).fails u f t hrest)

end Access

end Relay
