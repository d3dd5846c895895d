/-
# Reports mirror responses

A response is handed over unless it sends the request on and is followed; then it is the
response at the end of the chain that is handed over, if the chain is not too long. What is
handed over whole and in time is read to its end if its body is within the limit, in whatever
chunks it comes. The report then has its status and its headers, and tells a status of 401 as a
refused credential, whatever the body says. A body beyond the limit is given up, and the
status with it: the report is that of a request without a response.

Key definitions: `Wire.Network.Leads`, `Wire.Incoming.size`, `Report.Mirrors`,
`Dispatcher.Delivered`, `Dispatcher.Answered`, `Dispatcher.HandsOver`.
Key theorems: `Wire.Network.follow_eq_ok_iff`, `Wire.Network.send_eq_ok_iff`,
`Wire.Incoming.read_of_complete`, `Dispatcher.mirrors_run`, `Dispatcher.reports_mirror`.
-/
import Relay.Proofs.Execution

namespace Relay

open Call Wire

/-! ### Handing a response over -/

namespace Wire.Network

variable {σ : Type} {net : Network σ} {timeout left : Span} {o : Outgoing} {outside : σ}
  {answer : Incoming}

/-- Asked for this, the network leads to the response over so many others, each of which is
followed, and this one is not. -/
inductive Leads (net : Network σ) (timeout : Span) :
    Nat → Span → Outgoing → σ → Incoming → Prop
  | last {left : Span} {o : Outgoing} {outside later : σ} {answer : Incoming}
    (h : net.ask timeout left o outside = (.ok answer, later))
    (hlast : net.redirect? o answer = none) : Leads net timeout 0 left o outside answer
  | on {n : Nat} {left : Span} {o next : Outgoing} {outside later : σ} {answer final : Incoming}
    (h : net.ask timeout left o outside = (.ok answer, later))
    (hnext : net.redirect? o answer = some next)
    (hrest : Leads net timeout n (left.less ((net.now outside).until (net.now later))) next
      later final) : Leads net timeout (n + 1) left o outside final

theorem Leads.follow {n more : Nat} (h : net.Leads timeout n left o outside answer)
    (hn : n ≤ more) : (net.follow timeout more left o outside).1 = .ok answer := by
  induction h generalizing more with
  | last h hlast =>
    unfold Network.follow
    rw [h]
    dsimp only
    rw [hlast]
  | on h hnext _ ih =>
    obtain ⟨more, rfl⟩ := Nat.exists_eq_succ_of_ne_zero (Nat.ne_of_gt (Nat.zero_lt_of_lt hn))
    unfold Network.follow
    rw [h]
    dsimp only
    rw [hnext]
    exact ih (Nat.le_of_succ_le_succ hn)

/-- **What is handed over ends a chain of responses that are followed**, of which there are not
more than allowed. -/
theorem follow_eq_ok_iff {more : Nat} : (net.follow timeout more left o outside).1 = .ok answer ↔
    ∃ n, n ≤ more ∧ net.Leads timeout n left o outside answer := by
  refine ⟨fun h => ?_, fun ⟨n, hn, hleads⟩ => hleads.follow hn⟩
  induction more generalizing left o outside with
  | zero =>
    unfold Network.follow at h
    split at h
    · cases h
    · rename_i first later hask
      split at h
      · rename_i hlast
        cases h
        exact ⟨0, Nat.le_refl 0, .last hask hlast⟩
      · cases h
  | succ more ih =>
    unfold Network.follow at h
    split at h
    · cases h
    · rename_i first later hask
      split at h
      · rename_i hlast
        cases h
        exact ⟨0, Nat.zero_le _, .last hask hlast⟩
      · rename_i next hnext
        obtain ⟨n, hn, hrest⟩ := ih h
        exact ⟨n + 1, Nat.succ_le_succ hn, .on hask hnext hrest⟩

theorem send_eq_ok_iff : (net.send o timeout outside).1 = .ok answer ↔
    ∃ n, n ≤ maxRedirects ∧ net.Leads timeout n timeout o outside answer :=
  follow_eq_ok_iff

theorem ask_eq_ok_iff : (net.ask timeout left o outside).1 = .ok answer ↔
    o.fault? = none ∧ (net.exchange o left outside).1 = .answered answer := by
  unfold ask
  cases hfault : o.fault? with
  | some fault => simp
  | none => rcases net.exchange o left outside with ⟨_ | _ | _, later⟩ <;> simp

/-- The response to the request itself, where it is not followed. -/
theorem leads_zero_iff : net.Leads timeout 0 left o outside answer ↔
    (o.fault? = none ∧ (net.exchange o left outside).1 = .answered answer) ∧
      net.redirect? o answer = none := by
  rw [← ask_eq_ok_iff]
  constructor
  · intro h
    cases h with
    | last hask hlast => exact ⟨by rw [hask], hlast⟩
  · rintro ⟨hanswered, hlast⟩
    rcases hask : net.ask timeout left o outside with ⟨result, later⟩
    rw [hask] at hanswered
    obtain rfl : result = .ok answer := hanswered
    exact .last hask hlast

/-- Where nothing is followed, there are no other chains. -/
theorem Leads.eq_zero {n : Nat} (h : net.Leads timeout n left o outside answer)
    (hnone : ∀ o answer, net.redirect? o answer = none) : n = 0 := by
  cases h with
  | last => rfl
  | on hask hnext =>
    rw [hnone] at hnext
    cases hnext

end Wire.Network

/-! ### Reading a response -/

namespace Wire.Incoming

/-- The length of the body. -/
def size (a : Incoming) : Nat := a.chunks.flatten.length

/-- All that the response says. -/
def reply (a : Incoming) : Reply :=
  { status := a.status, headers := readHeaders a.headers, body := a.chunks.flatten }

/-- **A response that ends is read whole, unless its body is beyond the limit.** -/
theorem read_of_complete {a : Incoming} (h : a.ending = .complete) (limit : Nat)
    (timeout : Span) :
    a.read limit timeout =
      if a.size ≤ limit then .ok a.reply else .error (.tooLarge limit) := by
  have hbody : readBody limit [] a.chunks =
      if a.size ≤ limit then .ok a.chunks.flatten else .error (.tooLarge limit) :=
    readBody_eq a.chunks [] (Nat.zero_le limit)
  unfold read
  rw [hbody]
  by_cases hsize : a.size ≤ limit
  · rw [if_pos hsize, if_pos hsize]
    show a.finish a.chunks.flatten timeout = .ok a.reply
    unfold finish
    rw [h]
    rfl
  · rw [if_neg hsize, if_neg hsize]
    rfl

end Wire.Incoming

/-! ### Reports on responses -/

/-- What a report says of a response that came whole, where bodies may have a length up to
the limit. -/
structure Report.Mirrors (report : Report) (answer : Incoming) (limit : Nat) : Prop where
  within : answer.size ≤ limit →
    report.status = .http answer.status ∧ report.headers = readHeaders answer.headers ∧
      (answer.status = 401 → ∃ info, report.info? = some info ∧ info.kind = .authentication)
  beyond : limit < answer.size →
    ∃ info, report.info? = some info ∧ info.kind = .plugin ∧
      info.message = s!"response body exceeds {limit} bytes" ∧
      report.status = .internal info.kind.code ∧ report.headers = []

namespace Dispatcher

variable {σ : Type} (d : Dispatcher σ) {s t u : State σ} {p : Plan} {connection : Connection}
  {answer : Incoming}

/-- For the request of the plan, sent over the connection in this state, this response is
handed over within the time of the action, and it ends. -/
structure Delivered (p : Plan) (connection : Connection) (s : State σ) (answer : Incoming) :
    Prop where
  answered : (d.network.send (.ofRequest connection p.request)
    (p.action.effectiveTimeout d.settings.defaultTimeout) s.outside).1 = .ok answer
  complete : answer.ending = .complete

/-- This is the response to the request of the plan itself, sent over the connection in this
state; it comes within the time of the action, is not followed, and ends. -/
structure Answered (p : Plan) (connection : Connection) (s : State σ) (answer : Incoming) :
    Prop where
  written : (Outgoing.ofRequest connection p.request).fault? = none
  answered : (d.network.exchange (.ofRequest connection p.request)
    (p.action.effectiveTimeout d.settings.defaultTimeout) s.outside).1 = .answered answer
  last : d.network.redirect? (.ofRequest connection p.request) answer = none
  complete : answer.ending = .complete

/-- To this response the request of the plan, sent over the connection in this state, leads
over so many redirections; it comes within the time of the action, and ends. -/
structure Reached (n : Nat) (p : Plan) (connection : Connection) (s : State σ)
    (answer : Incoming) : Prop where
  leads : d.network.Leads (p.action.effectiveTimeout d.settings.defaultTimeout) n
    (p.action.effectiveTimeout d.settings.defaultTimeout) (.ofRequest connection p.request)
    s.outside answer
  complete : answer.ending = .complete

/-- Which responses are handed over. -/
structure HandsOver (answer : Incoming) : Prop where
  /-- Those that so many redirections lead to as are followed for one request. -/
  chain : ∀ p connection s, d.Delivered p connection s answer ↔
    ∃ n, n ≤ Network.maxRedirects ∧ d.Reached n p connection s answer
  /-- No redirection leads to the response to the request itself. -/
  itself : ∀ p connection s,
    d.Reached 0 p connection s answer ↔ d.Answered p connection s answer
  /-- There are no others where the settings do not follow redirections. -/
  unfollowed : ∀ registry settings network, create? registry settings network = some d →
    settings.followRedirects = false →
    ∀ n p connection s, d.Reached n p connection s answer → n = 0

theorem handsOver (answer : Incoming) : d.HandsOver answer where
  chain := fun p connection s => by
    constructor
    · rintro ⟨hanswered, hcomplete⟩
      obtain ⟨n, hn, hleads⟩ := Network.send_eq_ok_iff.mp hanswered
      exact ⟨n, hn, hleads, hcomplete⟩
    · rintro ⟨n, hn, hleads, hcomplete⟩
      exact ⟨Network.send_eq_ok_iff.mpr ⟨n, hn, hleads⟩, hcomplete⟩
  itself := fun p connection s => by
    constructor
    · rintro ⟨hleads, hcomplete⟩
      obtain ⟨⟨hwritten, hanswered⟩, hlast⟩ := Network.leads_zero_iff.mp hleads
      exact ⟨hwritten, hanswered, hlast, hcomplete⟩
    · rintro ⟨hwritten, hanswered, hlast, hcomplete⟩
      exact ⟨Network.leads_zero_iff.mpr ⟨⟨hwritten, hanswered⟩, hlast⟩, hcomplete⟩
  unfollowed := fun registry settings network hd hoff n p connection s h => by
    have hnetwork : d.network = network.withoutRedirects := by
      rw [(create?_eq_some_iff.mp hd).2]
      show networkFor settings network = _
      rw [networkFor, hoff]
      rfl
    refine h.leads.eq_zero fun o answer => ?_
    rw [hnetwork]
    rfl

theorem run_send_of_delivered (h : d.Delivered p connection s answer) :
    ∃ u, (d.send connection p.request (p.action.effectiveTimeout d.settings.defaultTimeout)
        d.settings.maxResponse).run s =
      (.ok (if answer.size ≤ d.settings.maxResponse then .ok answer.reply
        else .error (.tooLarge d.settings.maxResponse)), u) := by
  obtain ⟨hanswered, hcomplete⟩ := h
  rw [← Incoming.read_of_complete hcomplete]
  rcases hsend : d.network.send (.ofRequest connection p.request)
    (p.action.effectiveTimeout d.settings.defaultTimeout) s.outside with ⟨sent, outside⟩
  rw [hsend] at hanswered
  obtain rfl : sent = .ok answer := hanswered
  refine ⟨{ s with
    outside
    record := .request connection p.request
      (p.action.effectiveTimeout d.settings.defaultTimeout) d.settings.maxResponse
        :: s.record }, ?_⟩
  unfold Access.send
  dsimp only
  rw [hsend]

/-- **The report on a request mirrors the response to it.** -/
theorem mirrors_run (h : d.Delivered p connection s answer) :
    ∃ report t, (d.run p connection).run s = (.ok report, t) ∧
      report.Mirrors answer d.settings.maxResponse := by
  obtain ⟨u, hsend⟩ := d.run_send_of_delivered h
  by_cases hsize : answer.size ≤ d.settings.maxResponse
  · rw [if_pos hsize] at hsend
    have hrun : (d.run p connection).run s =
        (.ok (answer.reply.classify p.command.format
          (some (connection.snapshot p.request p.inserted))), u) := by
      simp only [run, run_bind, hsend, run_pure]
    refine ⟨_, u, hrun, fun _ => ?_, fun hbeyond => absurd hsize (by omega)⟩
    have hstatus := answer.reply.classify_status p.command.format
      (some (connection.snapshot p.request p.inserted))
    exact ⟨hstatus.1, hstatus.2, fun h401 => Reply.classify_refused h401 _ _⟩
  · rw [if_neg hsize] at hsend
    have hrun : (d.run p connection).run s =
        (.ok (.ofFailure (Fault.tooLarge d.settings.maxResponse).failure
          (some (connection.snapshot p.request p.inserted))), u) := by
      simp only [run, run_bind, hsend, run_pure]
    exact ⟨_, u, hrun, fun hwithin => absurd hwithin hsize,
      fun _ => ⟨_, rfl, rfl, rfl, rfl, rfl⟩⟩

/-! ### Executions -/

/-- **Reports mirror responses.** Where an execution has been prepared and a response is handed
over for its request, whole and in time, the execution ends with a report that mirrors it; and
so over a connection that the caller holds. The response to the request itself is handed over
unless it is followed; then it is the one that the redirections lead to. -/
theorem reports_mirror (name : String) (connection : Connection) (i : Invocation)
    (ds : Datasource) (action : Action) (s : State σ) (answer : Incoming) :
    (∀ p connected u, (d.prepare name i ds action).run s = (.ok (p, connected), u) →
      d.Delivered p connected.connection u answer →
      ∃ report t, (d.execute name i ds action).run s = (.ok report, t) ∧
        report.Mirrors answer d.settings.maxResponse) ∧
    (∀ p u, (d.prepareOver name connection i ds action).run s = (.ok p, u) →
      d.Delivered p connection u answer →
      ∃ report t, (d.executeOver name connection i ds action).run s = (.ok report, t) ∧
        report.Mirrors answer d.settings.maxResponse) ∧
    d.HandsOver answer := by
  refine ⟨fun p connected u hprepare hdelivered => ?_, fun p u hprepare hdelivered => ?_,
    d.handsOver answer⟩
  · obtain ⟨sent, t, hrun, hmirrors⟩ := d.mirrors_run hdelivered
    have hexecute : (d.execute name i ds action).run s =
        (.ok { sent with refreshed := connected.refreshed }, t) := by
      have houtcome := run_outcome_eq_ok_iff.mpr hprepare
      exact run_bind_eq_ok_iff.mpr ⟨_, u, houtcome, run_bind_eq_ok_iff.mpr ⟨sent, t, hrun, rfl⟩⟩
    exact ⟨_, t, hexecute, hmirrors.within, hmirrors.beyond⟩
  · obtain ⟨report, t, hrun, hmirrors⟩ := d.mirrors_run hdelivered
    have houtcome := run_outcome_eq_ok_iff.mpr hprepare
    exact ⟨report, t, run_bind_eq_ok_iff.mpr ⟨_, u, houtcome, hrun⟩, hmirrors⟩

/-- Asks for the same page, whatever is to be run or discovered. -/
def pages : Connector :=
  { name := "pages"
    invalids := fun _ => []
    select := fun _ => .ok command
    selectDiscovery := fun _ => .ok command }
where
  page : Request :=
    { method := .get
      url := {
        scheme := "https"
        authority := some { host := some (.domain "x.test") }
        path := "/" } }
  command : Command :=
    { name := "page"
      build := fun _ _ _ => .ok page
      buildDiscovery := fun _ _ => .ok page }

/-- A dispatcher of that connector to which every request brings the same response, and
every client the same token. -/
def delivering (answer : Incoming) (settings : Settings) : Dispatcher Unit :=
  { network :=
      { now := fun _ => default
        exchange := fun _ _ outside => (.answered answer, outside) }
    tokens :=
      { fetch := fun _ outside => (.ok { secret := ⟨"issued"⟩, issuedAt := default }, outside) }
    skew := 60
    registry := ⟨[("pages", pages)]⟩
    settings }

/-- A refusal that comes with five bytes, in two chunks. -/
def refusal : Incoming := { status := 401, chunks := [[104, 101], [108, 108, 111]] }

/-- The response of a page that has moved. -/
def moved : Incoming := { status := 302, headers := [("location", [47, 116])] }

/-- A dispatcher of that connector whose page has moved to where the refusal is; the client
follows. -/
def following : Dispatcher Unit :=
  { delivering refusal {} with
    network :=
      { now := fun _ => default
        exchange := fun o _ outside =>
          (.answered (if o.url.path = "/" then moved else refusal), outside)
        redirect? := fun o answer =>
          if answer = moved then some { o with url := { o.url with path := "/t" } } else none } }

/-- With room for five bytes, the refusal is told with its status; and where redirections are not
followed, so is the response of the page that has moved. -/
theorem reports_mirror_refusal :
    (∃ p connected u, ((delivering refusal { maxResponse := 5 }).prepare "pages" {} {} {}).run
        { outside := () } = (.ok (p, connected), u) ∧
      (delivering refusal { maxResponse := 5 }).Delivered p connected.connection u refusal) ∧
    (∃ report t info, ((delivering refusal { maxResponse := 5 }).execute "pages" {} {} {}).run
        { outside := () } = (.ok report, t) ∧
      report.status = .http 401 ∧ report.info? = some info ∧ info.kind = .authentication) ∧
    ∃ d report t, create? ⟨[("pages", pages)]⟩ { followRedirects := false } following.network =
        some d ∧ (∀ n p connection u, d.Reached n p connection u moved → n = 0) ∧
      (d.execute "pages" {} {} {}).run { outside := () } = (.ok report, t) ∧
      report.status = .http 302 := by
  have hprepare : ((delivering refusal { maxResponse := 5 }).prepare "pages" {} {} {}).run
      { outside := () } =
      (.ok (⟨{}, [], pages.command, pages.page⟩, ⟨{}, none⟩), { outside := () }) := rfl
  have hdelivered : (delivering refusal { maxResponse := 5 }).Delivered
      ⟨{}, [], pages.command, pages.page⟩ {} { outside := () } refusal := ⟨rfl, rfl⟩
  refine ⟨⟨_, _, _, hprepare, hdelivered⟩, ?_, ?_⟩
  · obtain ⟨report, t, hexecute, hmirrors⟩ :=
      (reports_mirror (delivering refusal { maxResponse := 5 }) "pages" {} {} {} {}
        { outside := () } refusal).1 _ _ _ hprepare hdelivered
    obtain ⟨hstatus, -, hrefused⟩ := hmirrors.within (by decide)
    obtain ⟨info, hinfo, hkind⟩ := hrefused rfl
    exact ⟨report, t, info, hexecute, hstatus, hinfo, hkind⟩
  · obtain ⟨d, hd⟩ : ∃ d, create? ⟨[("pages", pages)]⟩ { followRedirects := false }
        following.network = some d := ⟨_, rfl⟩
    obtain ⟨hmirrored, -, hover⟩ :=
      reports_mirror d "pages" {} {} {} {} { outside := () } moved
    have hunfollowed := hover.unfollowed _ _ _ hd rfl
    cases hd
    have hanswered := (hover.itself ⟨{}, [], pages.command, pages.page⟩ {} { outside := () }).mpr
      ⟨rfl, rfl, rfl, rfl⟩
    have hmoved := (hover.chain _ _ _).mpr ⟨0, Nat.zero_le _, hanswered⟩
    obtain ⟨report, t, hexecute, hmirrors⟩ := hmirrored _ ⟨{}, none⟩ _ rfl hmoved
    obtain ⟨hstatus, -, -⟩ := hmirrors.within (by decide)
    exact ⟨_, report, t, rfl, hunfollowed, hexecute, hstatus⟩

/-- With room for four bytes, neither the status of the refusal nor that it is one is told; and
of a page that has moved it is the status of the response behind it. -/
theorem execute_beyond_and_moved :
    ((∃ p connected u, ((delivering refusal { maxResponse := 4 }).prepare "pages" {} {} {}).run
          { outside := () } = (.ok (p, connected), u) ∧
        (delivering refusal { maxResponse := 4 }).Answered p connected.connection u refusal) ∧
      ∃ report t info, ((delivering refusal { maxResponse := 4 }).execute "pages" {} {} {}).run
          { outside := () } = (.ok report, t) ∧
        report.status = .internal "PE-PLG-5000" ∧ report.info? = some info ∧
        info.kind = .plugin ∧ info.message = "response body exceeds 4 bytes") ∧
    (∃ p connected u, (following.prepare "pages" {} {} {}).run { outside := () } =
        (.ok (p, connected), u) ∧
      (following.network.exchange (.ofRequest connected.connection p.request)
        (p.action.effectiveTimeout following.settings.defaultTimeout) u.outside).1 =
          .answered moved ∧ moved.ending = .complete ∧
      moved.size ≤ following.settings.maxResponse) ∧
    ∃ report t, (following.execute "pages" {} {} {}).run { outside := () } = (.ok report, t) ∧
      report.status = .http 401 := by
  have hprepare : ((delivering refusal { maxResponse := 4 }).prepare "pages" {} {} {}).run
      { outside := () } =
      (.ok (⟨{}, [], pages.command, pages.page⟩, ⟨{}, none⟩), { outside := () }) := rfl
  have hfollowing : (following.prepare "pages" {} {} {}).run { outside := () } =
      (.ok (⟨{}, [], pages.command, pages.page⟩, ⟨{}, none⟩), { outside := () }) := rfl
  refine ⟨⟨⟨_, _, _, hprepare, rfl, rfl, rfl, rfl⟩, _, _, _, rfl, rfl, rfl, rfl, by decide⟩,
    ⟨_, _, _, hfollowing, rfl, rfl, by decide⟩, _, _, rfl, rfl⟩

end Dispatcher

end Relay
