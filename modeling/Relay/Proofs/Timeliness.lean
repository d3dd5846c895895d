/-
# Calls and the end of the calendar

The calendar ends, and a call that has to name a time beyond its end halts there: it comes
neither to a value nor to a failure. Two times are named. One is the deadline of a token that is at
hand, its expiry less the skew of the settings; the other is the expiry of a token that
was fetched, the time of its answer with the seconds that the endpoint grants. A call settles
exactly if it names neither of them off the calendar, and a permit is to be had if it needs one.

Key definitions: `Call.Settles`, `Grant.OffCalendar`, `Access.OffCalendar`, `Access.atHand`,
`Access.entered`, `Dispatcher.Timely`.
Key theorems: `fetch_eq_noSuchTime_iff`, `Ends.off_iff`, `timely`, `settles_unless_off`.
-/
import Relay.Proofs.Endings
import Relay.Proofs.Mirroring
import Relay.Proofs.Renewal

namespace Relay

open Call Wire

variable {σ α : Type} {s t : State σ}

/-! ### Calls that settle -/

namespace Call

/-- Run from this state, the call ends with a value or a failure. -/
def Settles (x : Call σ α) (s : State σ) : Prop :=
  (∃ a t, x.run s = (.ok a, t)) ∨ ∃ f t, x.run s = (.error (.failed f), t)

theorem settles_iff {x : Call σ α} {result : Except Halt α} (h : x.run s = (result, t)) :
    x.Settles s ↔ result ≠ .error .noSuchTime ∧ result ≠ .error .noPermit := by
  unfold Settles
  rw [h]
  rcases result with (f | _ | _) | a <;> simp

/-- A call that waits for no permit settles unless it halts at the calendar. -/
theorem settles_iff_not {x : Call σ α} {result : Except Halt α} {off : Prop}
    (h : x.run s = (result, t)) (htime : result = .error .noSuchTime ↔ off)
    (hpermit : result ≠ .error .noPermit) : x.Settles s ↔ ¬off := by
  rw [settles_iff h, Ne, htime]
  exact ⟨fun hsettled => hsettled.1, fun hon => ⟨hon, hpermit⟩⟩

/-- What settles and gives no value fails. -/
theorem Settles.failed {x : Call σ α} (hx : x.Settles s) {halt : Halt}
    (h : x.run s = (.error halt, t)) : ∃ f, halt = .failed f := by
  have hhalt := (settles_iff h).mp hx
  cases halt with
  | failed f => exact ⟨f, rfl⟩
  | noSuchTime => exact absurd rfl hhalt.1
  | noPermit => exact absurd rfl hhalt.2

end Call

/-! ### Tokens of the endpoint -/

namespace Grant

/-- The endpoint answers the client in full and grants it a token that expires off the
calendar. -/
def OffCalendar (net : Network σ) (timeout : Span) (client : OAuthClient) (outside : σ) : Prop :=
  ∃ o answer later token seconds, outgoing client = .ok o ∧
    net.send o timeout outside = (.ok answer, later) ∧ answer.ending = .complete ∧
    (200 ≤ answer.status ∧ answer.status < 300) ∧
    Answer.ofText? (net.text answer.headers answer.chunks.flatten) =
      some ⟨token, some seconds⟩ ∧
    (net.now later).shift? seconds = none

theorem tokenOf_eq_noSuchTime_iff {now : Instant} {status : Nat} {text : String} :
    tokenOf now status text = .error .noSuchTime ↔ (200 ≤ status ∧ status < 300) ∧
      ∃ token seconds, Answer.ofText? text = some ⟨token, some seconds⟩ ∧
        now.shift? seconds = none := by
  unfold tokenOf
  by_cases hstatus : status < 200 ∨ 300 ≤ status
  · rw [if_pos hstatus]
    constructor
    · intro h
      cases h
    · rintro ⟨hrange, -⟩
      omega
  · rw [if_neg hstatus]
    have hrange : 200 ≤ status ∧ status < 300 := by omega
    rcases hanswer : Answer.ofText? text with _ | ⟨token, _ | seconds⟩
    · simp
    · simp
    · cases hshift : now.shift? seconds with
      | none =>
        refine ⟨fun _ => ⟨hrange, token, seconds, rfl, hshift⟩, fun _ => ?_⟩
        simp [hshift]
      | some expiry => simp [hshift]

theorem tokenOf_ne_noPermit {now : Instant} {status : Nat} {text : String} :
    tokenOf now status text ≠ .error .noPermit := by
  unfold tokenOf
  split
  · simp
  · split
    · simp
    · simp
    · split
      · simp
      · simp

variable {net : Network σ} {timeout : Span} {client : OAuthClient} {outside : σ}

/-- **A fetch halts at the calendar exactly for a token that expires off it.** -/
theorem fetch_eq_noSuchTime_iff :
    (fetch net timeout client outside).1 = .error .noSuchTime ↔
      OffCalendar net timeout client outside := by
  constructor
  · intro h
    unfold fetch at h
    split at h
    · cases h
    · rename_i o ho
      split at h
      · cases h
      · rename_i answer later hsend
        split at h
        · cases h
        · rename_i reply hread
          cases hending : answer.ending with
          | complete =>
            unfold Incoming.readAll Incoming.finish at hread
            rw [hending] at hread
            cases hread
            obtain ⟨hrange, token, seconds, hanswer, hshift⟩ := tokenOf_eq_noSuchTime_iff.mp h
            exact ⟨o, answer, later, token, seconds, ho, hsend, hending, hrange, hanswer, hshift⟩
          | broken | late =>
            unfold Incoming.readAll Incoming.finish at hread
            rw [hending] at hread
            cases hread
  · rintro ⟨o, answer, later, token, seconds, ho, hsend, hending, hrange, hanswer, hshift⟩
    have hread : answer.readAll timeout = .ok answer.reply := by
      unfold Incoming.readAll Incoming.finish
      rw [hending]
      rfl
    have htoken : tokenOf (net.now later) answer.reply.status
        (net.text answer.headers answer.reply.body) = .error .noSuchTime :=
      tokenOf_eq_noSuchTime_iff.mpr ⟨hrange, token, seconds, hanswer, hshift⟩
    unfold fetch
    rw [ho]
    dsimp only
    rw [hsend]
    dsimp only
    rw [hread]
    exact htoken

theorem fetch_ne_noPermit :
    (fetch net timeout client outside).1 ≠ .error .noPermit := by
  unfold fetch
  split
  · simp
  · split
    · simp
    · split
      · simp
      · exact tokenOf_ne_noPermit

end Grant

namespace Access

variable (a : Access σ) (timeout : Span) {c : Connector} {d : Datasource} {id : Option String}
  {always : Bool} {credential : Option Credential}

/-! ### Connecting -/

/-- To make the credential fit for use, a time off the calendar has to be named: the deadline
of the token at hand, unless it is fetched anew in any case, or the expiry of one that
is due and granted. -/
inductive OffCalendar (always : Bool) (outside : σ) : Option Credential → Prop
  | deadline {client : OAuthClient} {token : Token} {expiry : Instant} (honce : always = false)
    (htoken : client.token = some token) (hexpiry : token.expiresAt = some expiry)
    (h : expiry.shift? (-a.skew) = none) : OffCalendar always outside (some (.oauth client))
  | expiry {client : OAuthClient} (hdue : a.Due always client (a.network.now outside))
    (h : Grant.OffCalendar a.network timeout client outside) :
    OffCalendar always outside (some (.oauth client))

/-- The credential that a connection is made of: that of the datasource, or with an id that of
the entry which the pool has for it, once it is entered. -/
def atHand (c : Connector) (d : Datasource) (id : Option String) (p : Pool) :
    Option Credential :=
  match id with
  | none => d.credential
  | some name =>
    ((p.enter (Pool.key c.name name) d.credential).find? (Pool.key c.name name)).bind
      Pool.Entry.credential

theorem atHand_eq {name : String} {p : Pool} {e : Pool.Entry}
    (he : (p.enter (Pool.key c.name name) d.credential).find? (Pool.key c.name name) = some e) :
    atHand c d (some name) p = e.credential := by
  rw [atHand, he]
  rfl

theorem due?_eq_none_iff {client : OAuthClient} {now : Instant} :
    a.due? client now = none ↔ ∃ token expiry, client.token = some token ∧
      token.expiresAt = some expiry ∧ expiry.shift? (-a.skew) = none := by
  unfold due?
  cases client.token with
  | none => simp
  | some token =>
    have hexpired : token.isExpired? now a.skew = none ↔
        ∃ expiry, token.expiresAt = some expiry ∧ expiry.shift? (-a.skew) = none := by
      unfold Token.isExpired?
      cases token.expiresAt with
      | none => simp
      | some expiry => simp
    simp [hexpired]

variable {a timeout}

/-- While the deadline of its token can be named, only what is granted can be off the
calendar. -/
theorem OffCalendar.expiry_of_due {client : OAuthClient} {outside : σ}
    (h : a.OffCalendar timeout always outside (some (.oauth client)))
    (hdue : a.Due always client (a.network.now outside)) :
    Grant.OffCalendar a.network timeout client outside := by
  cases h with
  | @deadline client token expiry honce htoken hexpiry hshift =>
    have hnone : a.due? client (a.network.now outside) = none :=
      a.due?_eq_none_iff.mpr ⟨token, expiry, htoken, hexpiry, hshift⟩
    rcases hdue with hforced | hdue
    · rw [honce] at hforced
      cases hforced
    · rw [hnone] at hdue
      cases hdue
  | expiry _ h => exact h

theorem Freshened.off_iff (htokens : a.tokens = clientCredentials a.network timeout)
    {result : Except Halt (Option Credential)} (h : a.Freshened always s credential result t) :
    result = .error .noSuchTime ↔ a.OffCalendar timeout always s.outside credential := by
  have hfetch (client : OAuthClient) : (a.tokens.fetch (.oauth client) s.outside).1 =
      .error .noSuchTime ↔ Grant.OffCalendar a.network timeout client s.outside := by
    rw [htokens]
    exact Grant.fetch_eq_noSuchTime_iff
  cases h with
  | kept hkept =>
    refine ⟨by simp, fun hoff => ?_⟩
    cases hkept with
    | plain hplain =>
      cases hoff with
      | deadline honce htoken hexpiry h => exact absurd rfl (hplain _)
      | expiry hdue h => exact absurd rfl (hplain _)
    | valid honce hvalid =>
      cases hoff with
      | deadline _ htoken hexpiry h =>
        rw [a.due?_eq_none_iff.mpr ⟨_, _, htoken, hexpiry, h⟩] at hvalid
        cases hvalid
      | expiry hdue h =>
        rcases hdue with hforced | hdue
        · rw [honce] at hforced
          cases hforced
        · rw [hvalid] at hdue
          cases hdue
  | @undated client honce hnone =>
    obtain ⟨token, expiry, htoken, hexpiry, hshift⟩ := a.due?_eq_none_iff.mp hnone
    exact ⟨fun _ => .deadline honce htoken hexpiry hshift, fun _ => rfl⟩
  | @fetched client token outside hdue hfetched =>
    refine ⟨by simp, fun hoff => ?_⟩
    have herror := (hfetch client).mpr (hoff.expiry_of_due hdue)
    rw [hfetched] at herror
    cases herror
  | @refused client halt outside hdue hrefused =>
    have hiff := hfetch client
    rw [hrefused] at hiff
    constructor
    · intro h
      cases h
      exact .expiry hdue (hiff.mp rfl)
    · intro hoff
      have herror := hiff.mpr (hoff.expiry_of_due hdue)
      cases herror
      rfl

theorem Freshened.ne_noPermit (htokens : a.tokens = clientCredentials a.network timeout)
    {result : Except Halt (Option Credential)} (h : a.Freshened always s credential result t) :
    result ≠ .error .noPermit := by
  cases h with
  | kept h | undated honce h | fetched hdue h => simp
  | refused hdue hrefused =>
    intro h
    cases h
    rw [htokens] at hrefused
    exact Grant.fetch_ne_noPermit (congrArg Prod.fst hrefused)

/-- What halts a connection halts it while the credential is made fit for use. -/
theorem TransientEnds.freshened {result : Except Halt Connected}
    (h : a.TransientEnds credential s result t) :
    ∃ ended u, a.Freshened false s credential ended u ∧
      ∀ halt, result = .error halt ↔ ended = .error halt := by
  cases h with
  | kept h => exact ⟨_, _, h, by simp⟩
  | renewed h => exact ⟨_, _, h, by simp⟩
  | halted h => exact ⟨_, _, h, by simp⟩

theorem PooledEnds.freshened {key : String} {e : Pool.Entry} {result : Except Halt Connected}
    (h : a.PooledEnds key e always s result t) :
    ∃ ended u, a.Freshened always s e.credential ended u ∧
      ∀ halt, result = .error halt ↔ ended = .error halt := by
  cases h with
  | kept honce h => exact ⟨_, _, h, by simp⟩
  | putBack halways h => exact ⟨_, _, h, by simp⟩
  | renewed h => exact ⟨_, _, h, by simp⟩
  | halted h => exact ⟨_, _, h, by simp⟩

/-- The state in which the credential at hand is made fit for use: with an id, the datasource has
been entered. -/
def entered (c : Connector) (d : Datasource) (id : Option String) (s : State σ) : State σ :=
  match id with
  | none => s
  | some name => { s with pool := s.pool.enter (Pool.key c.name name) d.credential }

theorem outside_entered (c : Connector) (d : Datasource) (id : Option String) (s : State σ) :
    (entered c d id s).outside = s.outside := by
  cases id with
  | none => rfl
  | some name => rfl

/-- What halts a connection past the check halts it while the credential at hand is made fit
for use. -/
theorem Ends.freshened_of_error {halt : Halt} (h : a.Ends c d id always s (.error halt) t)
    (hvalid : c.validate d = .ok ()) :
    a.Freshened always (entered c d id s) (atHand c d id s.pool) (.error halt) t := by
  cases h with
  | invalid hinvalid =>
    rw [hvalid] at hinvalid
    cases hinvalid
  | transient _ hid honce h =>
    subst hid honce
    cases h with
    | halted h => exact h
  | @pooled name e result t _ hid he h =>
    subst hid
    rw [atHand_eq he]
    cases h with
    | halted h => exact h

/-- **Connecting halts at the calendar exactly if a time off it has to be named.** -/
theorem Ends.off_iff (htokens : a.tokens = clientCredentials a.network timeout)
    {result : Except Halt Connected} (h : a.Ends c d id always s result t) :
    result = .error .noSuchTime ↔ c.validate d = .ok () ∧
      a.OffCalendar timeout always s.outside (atHand c d id s.pool) := by
  cases h with
  | invalid hinvalid => simp [hinvalid]
  | transient hvalid hid honce h =>
    obtain ⟨ended, u, hfresh, hhalts⟩ := h.freshened
    rw [hhalts, hfresh.off_iff htokens, hid, honce]
    exact ⟨fun hoff => ⟨hvalid, hoff⟩, fun hoff => hoff.2⟩
  | @pooled name e result t hvalid hid he h =>
    obtain ⟨ended, u, hfresh, hhalts⟩ := h.freshened
    have hhand : atHand c d id s.pool = e.credential := by rw [hid, atHand_eq he]
    rw [hhalts, hfresh.off_iff htokens, hhand]
    exact ⟨fun hoff => ⟨hvalid, hoff⟩, fun hoff => hoff.2⟩

theorem Ends.ne_noPermit (htokens : a.tokens = clientCredentials a.network timeout)
    {result : Except Halt Connected} (h : a.Ends c d id always s result t) :
    result ≠ .error .noPermit := by
  cases h with
  | invalid hinvalid => simp
  | transient hvalid hid honce h =>
    obtain ⟨ended, u, hfresh, hhalts⟩ := h.freshened
    rw [Ne, hhalts]
    exact hfresh.ne_noPermit htokens
  | pooled hvalid hid he h =>
    obtain ⟨ended, u, hfresh, hhalts⟩ := h.freshened
    rw [Ne, hhalts]
    exact hfresh.ne_noPermit htokens

/-- The connection settles exactly if it names no time off the calendar. -/
theorem Ends.settles_iff (htokens : a.tokens = clientCredentials a.network timeout)
    {x : Call σ Connected} {result : Except Halt Connected} (hrun : x.run s = (result, t))
    (h : a.Ends c d id always s result t) :
    x.Settles s ↔ ¬(c.validate d = .ok () ∧
      a.OffCalendar timeout always s.outside (atHand c d id s.pool)) :=
  settles_iff_not hrun (h.off_iff htokens) (h.ne_noPermit htokens)

end Access

/-! ### Executions and discoveries -/

namespace Dispatcher

variable {d : Dispatcher σ} {name : String} {i : Invocation} {ds : Datasource}
  {action : Action} {request : DiscoveryRequest}

/-- A connection to the datasource passes the check and has to name a time off the calendar. -/
def ConnectsOff (d : Dispatcher σ) (c : Connector) (ds : Datasource) (id : Option String)
    (always : Bool) (s : State σ) : Prop :=
  c.validate ds = .ok () ∧
    d.OffCalendar d.settings.defaultTimeout always s.outside (Access.atHand c ds id s.pool)

/-- What is to be sent can be planned with the connector of the name, and the connection for it
has to name a time off the calendar. -/
def PlannedOff {β : Type} (d : Dispatcher σ) (name : String) (ds : Datasource)
    (planned : Connector → Except Failure β) (s : State σ) : Prop :=
  ∃ c p, d.registry.require name = .ok c ∧ planned c = .ok p ∧ d.ConnectsOff c ds ds.id false s

section

variable {β : Type} {planned : Connector → Except Failure β} {c : Connector} {f : Failure}

theorem plannedOff_iff {p : β} (hc : d.registry.require name = .ok c) (hp : planned c = .ok p) :
    d.PlannedOff name ds planned s ↔ d.ConnectsOff c ds ds.id false s := by
  constructor
  · rintro ⟨c', p', hc', -, hoff⟩
    cases hc.symm.trans hc'
    exact hoff
  · exact fun hoff => ⟨c, p, hc, hp, hoff⟩

theorem not_plannedOff_of_unknown (h : d.registry.require name = .error f) :
    ¬d.PlannedOff name ds planned s := by
  rintro ⟨c', p', hc', -⟩
  cases h.symm.trans hc'

theorem not_plannedOff_of_unplanned (hc : d.registry.require name = .ok c)
    (h : planned c = .error f) : ¬d.PlannedOff name ds planned s := by
  rintro ⟨c', p', hc', hp', -⟩
  cases hc.symm.trans hc'
  cases h.symm.trans hp'

/-- What was planned halts at the calendar exactly where its connection does. -/
theorem plannedOff_of_ends {p : β} (htokens : d.tokens = clientCredentials d.network
    d.settings.defaultTimeout) (hc : d.registry.require name = .ok c) (hp : planned c = .ok p)
    {result : Except Halt Connected} (h : d.Ends c ds ds.id false s result t) :
    result = .error .noSuchTime ↔ d.PlannedOff name ds planned s := by
  rw [plannedOff_iff hc hp]
  exact h.off_iff htokens

end

theorem PrepareEnds.off_iff (htokens : d.tokens = clientCredentials d.network
    d.settings.defaultTimeout) (hpermits : d.permits ≠ 0)
    {result : Except Halt (Plan × Connected)} (h : d.PrepareEnds name i ds action s result t) :
    result = .error .noSuchTime ↔ d.PlannedOff name ds (fun c => plan c i ds action) s := by
  cases h with
  | unknown hunknown => simp [not_plannedOff_of_unknown hunknown]
  | noPermit hc hnone => exact absurd hnone hpermits
  | unplanned hc hpermits hplan =>
    have hnot : ¬d.PlannedOff name ds (fun c => plan c i ds action) s :=
      not_plannedOff_of_unplanned hc hplan
    simp [hnot]
  | unconnected hc hpermits hp h =>
    rw [← plannedOff_of_ends htokens hc hp h]
    simp
  | connected hc hpermits hp h =>
    rw [← plannedOff_of_ends htokens hc hp h]
    simp

theorem PrepareEnds.ne_noPermit (htokens : d.tokens = clientCredentials d.network
    d.settings.defaultTimeout) (hpermits : d.permits ≠ 0)
    {result : Except Halt (Plan × Connected)} (h : d.PrepareEnds name i ds action s result t) :
    result ≠ .error .noPermit := by
  cases h with
  | unknown hunknown => simp
  | noPermit hc hnone => exact absurd hnone hpermits
  | unplanned hc hpermits hplan => simp
  | unconnected hc hpermits hp h =>
    have hconnect := h.ne_noPermit htokens
    simpa using hconnect
  | connected hc hpermits hp h => simp

/-- Only what halts the steps before its request halts an execution. -/
theorem ExecuteEnds.prepared {result : Except Halt Report}
    (h : d.ExecuteEnds name i ds action s result t) :
    ∃ ended u, d.PrepareEnds name i ds action s ended u ∧
      (result = .error .noSuchTime ↔ ended = .error .noSuchTime) ∧
      (result = .error .noPermit ↔ ended = .error .noPermit) := by
  cases h with
  | refused h => exact ⟨_, _, h, by simp, by simp⟩
  | halted hhalt h => exact ⟨_, _, h, by simp, by simp⟩
  | reported h hrun => exact ⟨_, _, h, by simp, by simp⟩

/-- Collecting settles, if there is a permit. -/
theorem collect_settles (hpermits : d.permits ≠ 0) (command : Command) (r : Request)
    (connection : Connection) (s : State σ) : (d.collect command r connection).Settles s := by
  obtain ⟨answer, outside, hsend⟩ := d.run_send connection r d.settings.defaultTimeout
    d.settings.maxResponse s
  unfold collect takePermit Settles
  rw [if_neg hpermits]
  simp only [run_bind, run_pure, hsend]
  cases answer with
  | error fault => exact .inr ⟨_, _, rfl⟩
  | ok reply =>
    cases hcollect : Discovery.collect command reply with
    | error f =>
      simp only [hcollect]
      exact .inr ⟨_, _, rfl⟩
    | ok found =>
      simp only [hcollect]
      exact .inl ⟨_, _, rfl⟩

/-- All calls that connect settle, but for times off the calendar and where there are no
permits. -/
structure Timely (d : Dispatcher σ) : Prop where
  connect : ∀ c ds s, (d.connect c ds).Settles s ↔ ¬d.ConnectsOff c ds ds.id false s
  revalidate : ∀ c ds s,
    (d.revalidate c ds).Settles s ↔ ¬d.ConnectsOff c ds ds.id ds.id.isSome s
  connectUncached : ∀ c ds s,
    (d.connectUncached c ds).Settles s ↔ ¬d.ConnectsOff c ds none false s
  execute : d.permits ≠ 0 → ∀ name i ds action s, (d.execute name i ds action).Settles s ↔
    ¬d.PlannedOff name ds (fun c => plan c i ds action) s
  discover : d.permits ≠ 0 → ∀ name ds request s, (d.discover name ds request).Settles s ↔
    ¬d.PlannedOff name ds (fun c => planDiscovery c ds request) s

theorem timely_execute (htokens : d.tokens = clientCredentials d.network
    d.settings.defaultTimeout) (hpermits : d.permits ≠ 0) :
    (d.execute name i ds action).Settles s ↔
      ¬d.PlannedOff name ds (fun c => plan c i ds action) s := by
  rcases hrun : (d.execute name i ds action).run s with ⟨result, t⟩
  obtain ⟨ended, u, hprepare, htime, hpermit⟩ := (d.execute_ends hrun).prepared
  have hwaits : result ≠ .error .noPermit := by
    rw [Ne, hpermit]
    exact hprepare.ne_noPermit htokens hpermits
  exact settles_iff_not hrun (htime.trans (hprepare.off_iff htokens hpermits)) hwaits

theorem DiscoverEnds.off_iff (htokens : d.tokens = clientCredentials d.network
    d.settings.defaultTimeout) (hpermits : d.permits ≠ 0) {result : Except Halt Discovered}
    (h : d.DiscoverEnds name ds request s result t) :
    result = .error .noSuchTime ↔
      d.PlannedOff name ds (fun c => planDiscovery c ds request) s := by
  cases h with
  | unknown hunknown => simp [not_plannedOff_of_unknown hunknown]
  | unplanned hc hplan =>
    have hnot : ¬d.PlannedOff name ds (fun c => planDiscovery c ds request) s :=
      not_plannedOff_of_unplanned hc hplan
    simp [hnot]
  | unconnected hc hplan h =>
    rw [← plannedOff_of_ends htokens hc hplan h]
    simp
  | uncollected hc hplan h hcollect =>
    obtain ⟨f, rfl⟩ := (collect_settles hpermits _ _ _ _).failed hcollect
    rw [← plannedOff_of_ends htokens hc hplan h]
    simp
  | collected hc hplan h hcollect =>
    rw [← plannedOff_of_ends htokens hc hplan h]
    simp

theorem DiscoverEnds.ne_noPermit (htokens : d.tokens = clientCredentials d.network
    d.settings.defaultTimeout) (hpermits : d.permits ≠ 0) {result : Except Halt Discovered}
    (h : d.DiscoverEnds name ds request s result t) : result ≠ .error .noPermit := by
  cases h with
  | unknown hunknown => simp
  | unplanned hc hplan => simp
  | unconnected hc hplan h =>
    have hconnect := h.ne_noPermit htokens
    simpa using hconnect
  | uncollected hc hplan h hcollect =>
    obtain ⟨f, rfl⟩ := (collect_settles hpermits _ _ _ _).failed hcollect
    simp
  | collected hc hplan h hcollect => simp

theorem timely_discover (htokens : d.tokens = clientCredentials d.network
    d.settings.defaultTimeout) (hpermits : d.permits ≠ 0) :
    (d.discover name ds request).Settles s ↔
      ¬d.PlannedOff name ds (fun c => planDiscovery c ds request) s := by
  rcases hrun : (d.discover name ds request).run s with ⟨result, t⟩
  have hends := d.discover_ends hrun
  exact settles_iff_not hrun (hends.off_iff htokens hpermits)
    (hends.ne_noPermit htokens hpermits)

/-- **Where tokens are fetched with client credentials, calls settle.** -/
theorem timely (htokens : d.tokens = clientCredentials d.network d.settings.defaultTimeout) :
    d.Timely where
  connect := fun c ds s => by
    rcases hrun : (d.connect c ds).run s with ⟨result, t⟩
    exact (d.connect_ends hrun).settles_iff htokens hrun
  revalidate := fun c ds s => by
    rcases hrun : (d.revalidate c ds).run s with ⟨result, t⟩
    exact (d.revalidate_ends hrun).settles_iff htokens hrun
  connectUncached := fun c ds s => by
    rcases hrun : (d.connectUncached c ds).run s with ⟨result, t⟩
    exact (d.connectUncached_ends hrun).settles_iff htokens hrun
  execute := fun hpermits _ _ _ _ _ => timely_execute htokens hpermits
  discover := fun hpermits _ _ _ _ => timely_discover htokens hpermits

/-! ### Every dispatcher -/

/-- **Calls settle but for times off the calendar.** A dispatcher can be made of settings whose
skew can be counted in milliseconds and whose permits can be handed out, of others there is
none; and each dispatcher that is made comes to an end with all its calls, unless a time off the
calendar has to be named. -/
theorem settles_unless_off (registry : Registry) (settings : Settings) (network : Network σ) :
    ((create? registry settings network).isSome ↔
      (-Settings.maxSkew ≤ settings.skewSeconds ∧ settings.skewSeconds ≤ Settings.maxSkew) ∧
        settings.maxConcurrent ≤ Settings.maxPermits) ∧
    ∀ d, create? registry settings network = some d →
      d.skew = settings.skewSeconds ∧ d.settings = settings ∧ d.Timely := by
  refine ⟨?_, fun d hd => ?_⟩
  · rw [Option.isSome_iff_exists]
    constructor
    · rintro ⟨d, hd⟩
      exact (create?_eq_some_iff.mp hd).1
    · intro hrange
      exact ⟨_, create?_eq_some_iff.mpr ⟨hrange, rfl⟩⟩
  · obtain ⟨-, rfl⟩ := create?_eq_some_iff.mp hd
    exact ⟨rfl, rfl, timely rfl⟩

/-- A dispatcher of the default settings settles for a client without a token, whose endpoint
cannot even be asked. -/
theorem settles_unless_off_unserved : ∃ d, create? ⟨[]⟩ {} (unreachable default) = some d ∧
    (d.connect Access.anyone Access.unserved).Settles { outside := () } := by
  obtain ⟨d, hd⟩ : ∃ d, create? ⟨[]⟩ {} (unreachable default) = some d := ⟨_, rfl⟩
  have htimely := ((settles_unless_off ⟨[]⟩ {} (unreachable default)).2 d hd).2.2
  refine ⟨d, hd, (htimely.connect Access.anyone Access.unserved { outside := () }).mpr ?_⟩
  rintro ⟨-, hoff⟩
  have hclient : d.OffCalendar d.settings.defaultTimeout false ()
      (some (.oauth { id := "me", secret := ⟨"mine"⟩, tokenUrl := "" })) := hoff
  cases hclient with
  | deadline honce htoken hexpiry h => cases htoken
  | expiry hdue h =>
    obtain ⟨o, answer, later, token, seconds, ho, -⟩ := h
    cases ho

/-- A client whose token expires at this instant. -/
def expiring (expiry : Instant) : Datasource :=
  { id := some "a"
    credential := some (.oauth {
      id := "me"
      secret := ⟨"mine"⟩
      tokenUrl := ""
      token := some { secret := ⟨"issued"⟩, expiresAt := some expiry, issuedAt := default } }) }

/-- Settings are read that no dispatcher can be made of, and others under which a connection
halts for a token that lasts until the year 2250. -/
theorem connect_off_calendar :
    (∃ settings, Settings.ofText? "token_expiry_skew_seconds = 9223372036854775807" =
        some settings ∧ create? ⟨[]⟩ settings (unreachable default) = none) ∧
    ∃ settings d expiry, Settings.ofText? "token_expiry_skew_seconds = 9223372036854775" =
        some settings ∧ create? ⟨[]⟩ settings (unreachable default) = some d ∧
      Instant.parse? "2250-01-01T00:00:00Z" = some expiry ∧
      ¬(d.connect Access.anyone (expiring expiry)).Settles { outside := () } := by
  refine ⟨⟨{ skewSeconds := 9223372036854775807 }, by decide +kernel, rfl⟩, ?_⟩
  refine ⟨{ skewSeconds := 9223372036854775 }, _, ⟨8835955200, 0⟩, by decide +kernel, rfl,
    by decide +kernel, ?_⟩
  rintro (⟨x, t, hrun⟩ | ⟨f, t, hrun⟩)
  · cases hrun
  · cases hrun

end Dispatcher

end Relay
