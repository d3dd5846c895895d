/-
# Audits show what is sent

The headers of a request are put together twice: for the network, with the credential's
header at the end, and for the audit, with that header masked. The two lists go in step,
header by header, unless the connection is a client's without a token: then the audit shows
a header that is not sent. Connecting hands out no such connection.

Key definitions: `Connection.Sent`, `Connection.sent`, `Redaction.Shows`, `Connection.Audits`.
Key theorems: `Connection.audits_iff`, `Access.connected_audits`.
-/
import Mathlib.Data.List.Forall2
import Relay.Proofs.Carrying
import Relay.Proofs.Redacting

namespace Relay

open Call Wire

/-! ### One header -/

/-- A header that is put on a request. -/
structure Connection.Sent where
  name : String
  value : String
  /-- It is the one that the credential is attached as. -/
  own : Bool

namespace Redaction

/-- A header of an audit stands for one that is sent. -/
structure Shows (policy : Redaction) (sent : Connection.Sent) (shown : Property) : Prop where
  /-- As names of headers compare: trimmed, and without regard to case. -/
  name : Text.foldName shown.key = Text.foldName sent.name
  /-- Even to the letter, but for the name that the credential itself is sent under. -/
  letters : Text.trim shown.key = sent.name ∨
    sent.own = true ∧ sent.name = "authorization" ∧ shown.key = "Authorization"
  value : shown.value =
    if sent.own || policy.hidesHeader sent.name then redacted else sent.value

theorem hidesHeader_trim (policy : Redaction) (name : String) :
    policy.hidesHeader (Text.trim name) = policy.hidesHeader name := by
  unfold hidesHeader
  rw [Text.foldName_trim]

theorem header_key (policy : Redaction) (p : Property) : (policy.header p).key = p.key := by
  unfold header
  split
  · rfl
  · rfl

/-- What is masked already stays masked. -/
theorem header_redacted (policy : Redaction) (name : String) :
    policy.header ⟨name, redacted⟩ = ⟨name, redacted⟩ := ite_self _

/-- A header of the request itself is shown as it is, unless its name is hidden. -/
theorem shows_plain (policy : Redaction) (p : Property) :
    policy.Shows ⟨Text.trim p.key, p.value, false⟩ (policy.header p) where
  name := by rw [header_key, Text.foldName_trim]
  letters := .inl (by rw [header_key])
  value := by
    rw [Bool.false_or, hidesHeader_trim, header]
    exact apply_ite Property.value _ _ _

/-- The credential's own header is shown masked. -/
theorem shows_own (policy : Redaction) {name shown : String} (value : String)
    (hname : Text.foldName shown = Text.foldName name)
    (hletters : Text.trim shown = name ∨ name = "authorization" ∧ shown = "Authorization") :
    policy.Shows ⟨name, value, true⟩ (policy.header ⟨shown, redacted⟩) := by
  rw [header_redacted]
  exact ⟨hname, hletters.imp_right fun h => ⟨rfl, h⟩, rfl⟩

end Redaction

namespace Connection

/-! ### All headers -/

/-- The header that the credential is attached as, if it is attached as one. -/
def ownSent (c : Connection) : List Sent :=
  match attachment c.credential with
  | .header name value => [⟨name, value, true⟩]
  | _ => []

/-- The headers that are put on a request, in order. -/
def sent (c : Connection) (r : Request) : List Sent :=
  (ownHeaders r).map (fun p => ⟨Text.trim p.key, p.value, false⟩) ++ c.ownSent

/-- These are the headers that go out. -/
theorem sent_eq_headers (c : Connection) (r : Request) :
    (c.sent r).map (fun h => (h.name, h.value)) = (Outgoing.ofRequest c r).headers := by
  show _ = c.headers r
  unfold sent ownSent headers
  rw [List.map_append, List.map_map]
  refine congrArg _ ?_
  cases attachment c.credential with
  | header name value => rfl
  | none => rfl
  | query name value => rfl

/-- What an audit shows of the credential's own header. -/
def ownShown : Option Credential → List Property
  | some (.bearer _) | some (.basic ..) | some (.oauth _) => [⟨"Authorization", redacted⟩]
  | some (.apiKey name _ .header _) => [⟨Text.trim name, redacted⟩]
  | _ => []

theorem snapshot_headers (c : Connection) (r : Request) (inserted : List Inserted) :
    (c.snapshot r inserted).headers =
      (ownHeaders r).map c.redaction.header ++ (ownShown c.credential).map c.redaction.header :=
  List.map_append

/-- The snapshot shows the headers that go out, one by one, and the URL that is asked for,
unless that has an API key. -/
structure Audits (c : Connection) (r : Request) (shown : Snapshot) : Prop where
  headers : List.Forall₂ c.redaction.Shows (c.sent r) shown.headers
  url : (∀ name value lead, c.credential ≠ some (.apiKey name value .query lead)) →
    shown.url = (Outgoing.ofRequest c r).url.print

/-- One header is sent for the credential, and one is shown. -/
theorem shows_attached {c : Connection} {name shown value : String}
    (hsent : attachment c.credential = .header name value)
    (hshown : ownShown c.credential = [⟨shown, redacted⟩])
    (hname : Text.foldName shown = Text.foldName name)
    (hletters : Text.trim shown = name ∨ name = "authorization" ∧ shown = "Authorization")
    (policy : Redaction) :
    List.Forall₂ policy.Shows c.ownSent ((ownShown c.credential).map policy.header) := by
  unfold ownSent
  rw [hsent, hshown]
  exact .cons (policy.shows_own value hname hletters) .nil

/-- The credential's own header is shown where one is sent, but for a client without a
token. -/
theorem shows_ownShown {c : Connection} (hc : ¬c.Tokenless) (policy : Redaction) :
    List.Forall₂ policy.Shows c.ownSent ((ownShown c.credential).map policy.header) := by
  obtain ⟨version, credential⟩ := c
  have hfold : Text.foldName "Authorization" = Text.foldName "authorization" := by
    decide +kernel
  rcases credential with _ | _ | token | ⟨username, password⟩ | ⟨name, value, place, lead⟩ | client
  case none => exact .nil
  case some.none => exact .nil
  case some.bearer => exact shows_attached rfl rfl hfold (.inr ⟨rfl, rfl⟩) policy
  case some.basic => exact shows_attached rfl rfl hfold (.inr ⟨rfl, rfl⟩) policy
  case some.apiKey =>
    cases place with
    | query => exact .nil
    | header => exact shows_attached rfl rfl rfl (.inl (Text.trim_trim name)) policy
  case some.oauth =>
    cases htoken : client.token with
    | none => exact absurd ⟨client, rfl, htoken⟩ hc
    | some token =>
      exact shows_attached (attachment_of_token htoken) rfl hfold (.inr ⟨rfl, rfl⟩) policy

/-- For a client without a token a header is shown and none is sent. -/
theorem Tokenless.length_lt {c : Connection} (hc : c.Tokenless) (r : Request)
    (inserted : List Inserted) :
    (c.sent r).length < (c.snapshot r inserted).headers.length := by
  obtain ⟨version, credential⟩ := c
  obtain ⟨client, hcredential, htoken⟩ := hc
  cases hcredential
  have hsent : ownSent ⟨version, some (.oauth client)⟩ = [] := by
    unfold ownSent
    rw [attachment_of_tokenless htoken]
  rw [snapshot_headers, sent, hsent, List.append_nil, List.length_append, List.length_map,
    List.length_map]
  exact Nat.lt_succ_self _

/-- No query parameter is hidden for a credential that does not go into the query. -/
theorem redaction_query {c : Connection}
    (h : ∀ name value lead, c.credential ≠ some (.apiKey name value .query lead)) :
    c.redaction.query = [] := by
  unfold redaction Redaction.ofCredential
  split
  · rfl
  · rename_i name value lead hcredential
    exact absurd hcredential (h name value lead)
  · rfl

/-- **A snapshot shows what goes out, unless the connection is a client's without a token.**
-/
theorem audits_iff (c : Connection) (r : Request) (inserted : List Inserted) :
    c.Audits r (c.snapshot r inserted) ↔ ¬c.Tokenless := by
  refine ⟨fun h hc => ?_, fun hc => ⟨?_, fun hquery => ?_⟩⟩
  · exact Nat.ne_of_lt (hc.length_lt r inserted) h.headers.length_eq
  · rw [snapshot_headers, sent]
    have hplain : List.Forall₂ c.redaction.Shows
        ((ownHeaders r).map fun p => ⟨Text.trim p.key, p.value, false⟩)
        ((ownHeaders r).map c.redaction.header) := by
      rw [List.forall₂_map_left_iff, List.forall₂_map_right_iff, List.forall₂_same]
      exact fun p _ => c.redaction.shows_plain p
    exact List.rel_append hplain (shows_ownShown hc _)
  · exact Redaction.url_eq_self (.inl (redaction_query hquery))

end Connection

/-! ### Connections that are handed out -/

namespace Access

variable {σ : Type} (a : Access σ) {s t : State σ} {c : Connector} {d : Datasource}
  {x : Connected}

/-- **Audit and network agree.** Over any connection that connecting hands out, in any of the
three ways and from any state, the snapshot of any request shows the headers that go out, in
order: names compare equal, the credential's own value and those of hidden names are masked,
and every other value is shown as it is sent; and without an API key in the query it shows
the URL that is asked for. -/
theorem connected_audits (h : (a.connect c d).run s = (.ok x, t) ∨
    (a.connectUncached c d).run s = (.ok x, t) ∨ (a.revalidate c d).run s = (.ok x, t))
    (r : Request) (inserted : List Inserted) :
    ((x.connection.sent r).map fun h => (h.name, h.value)) =
        (Outgoing.ofRequest x.connection r).headers ∧
      x.connection.Audits r (x.connection.snapshot r inserted) := by
  refine ⟨x.connection.sent_eq_headers r, (x.connection.audits_iff r inserted).mpr ?_⟩
  rcases h with h | h | h
  · exact (a.connect_ends h).not_tokenless
  · exact (a.connectUncached_ends h).not_tokenless
  · exact (a.revalidate_ends h).not_tokenless

/-- A form with a content type of its own, which is not sent, and a cookie. -/
def upload : Request :=
  { Dispatcher.lookup.page with
    method := .post
    headers := [⟨"Content-Type", "text/plain"⟩, ⟨" Cookie ", "a=b"⟩, ⟨"Accept", "*/*"⟩]
    body := .multipart [] }

/-- The cookie and the client's token go out, and are masked in the snapshot. -/
theorem connected_audits_upload : ∃ x t,
    (issuing.connect anyone unserved).run { outside := () } = (.ok x, t) ∧
      (Outgoing.ofRequest x.connection upload).headers =
        [("Cookie", "a=b"), ("Accept", "*/*"), ("authorization", "Bearer issued")] ∧
      (x.connection.snapshot upload []).headers =
        [⟨" Cookie ", "****"⟩, ⟨"Accept", "*/*"⟩, ⟨"Authorization", "****"⟩] ∧
      x.connection.Audits upload (x.connection.snapshot upload []) := by
  have hrun : (issuing.connect anyone unserved).run { outside := () } =
      (.ok ⟨⟨2, some (.oauth ⟨"me", ⟨"mine"⟩, "", none, some ⟨⟨"issued"⟩, none, default⟩⟩)⟩,
        some (.oauth ⟨"me", ⟨"mine"⟩, "", none, some ⟨⟨"issued"⟩, none, default⟩⟩)⟩, _) := rfl
  exact ⟨_, _, hrun, by decide +kernel, by decide +kernel,
    (issuing.connected_audits (.inl hrun) upload []).2⟩

end Access

end Relay
