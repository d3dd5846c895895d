/-
# Calls that nothing overlaps

A call that goes on alone, one step after another, comes to what the call comes to when it is made
at once: it ends with the same result, and leaves the same pool and the same outside. So a run of
calls that are made one after another is one of the runs in which calls may overlap.

Key definitions: `Alike`, `Idle`, `Leads`, `errand?`.
Key theorems: `ends_alone`, `take_alone`, `run_alone`, `run_reaches`.
-/
import Relay.Proofs.Concord
import Relay.Proofs.Versions

namespace Relay.Overlap

open Call

variable {σ : Type} {a : Access σ} {m m' m'' : Shared σ} {i : Nat} {e : Errand} {v : Visit}
  {stage stage' stage'' : Stage} {cell : Cell} {key : String} {s t : State σ}
  {result : Except Halt Connected}

/-! ### One call alone -/

/-- Steps of the call alone lead from the first stage to the second. -/
inductive Leads (a : Access σ) (i : Nat) (e : Errand) :
    Stage → Shared σ → Stage → Shared σ → Prop
  | refl (stage : Stage) (m : Shared σ) : Leads a i e stage m stage m
  | step {stage stage' stage'' : Stage} {m m' m'' : Shared σ}
    (h : e.step a i m stage = some (stage', m')) (hrest : Leads a i e stage' m' stage'' m'') :
    Leads a i e stage m stage'' m''

theorem Leads.trans (h : Leads a i e stage m stage' m') (h' : Leads a i e stage' m' stage'' m'') :
    Leads a i e stage m stage'' m'' := by
  induction h with
  | refl => exact h'
  | step h hrest ih => exact .step h (ih h')

theorem Leads.one (h : e.step a i m stage = some (stage', m')) :
    Leads a i e stage m stage' m' :=
  .step h (.refl stage' m')

/-- What is shared has the pool and the outside of a state between calls. -/
structure Alike (m : Shared σ) (s : State σ) : Prop where
  outside : s.outside = m.outside
  next : s.pool.next = m.next
  entries : ∀ key, s.pool.find? key = m.find? key

/-- No lock is held, and every cell in the table is under its key and was given its version. -/
structure Idle (m : Shared σ) : Prop where
  free : ∀ cell, m.locked cell = false
  table : ∀ key cell, m.table.find? key = some cell → cell.key = key ∧ cell.first < m.next

theorem Alike.find? (h : Alike m s) (hfound : m.table.find? key = some cell) :
    s.pool.find? key = some (m.cells cell) := by
  rw [h.entries key, Shared.find?, hfound]
  rfl

theorem Idle.note (h : Idle m) (event : Event) : Idle (m.note i event) := ⟨h.free, h.table⟩

theorem Alike.note (h : Alike m s) (event : Event) : Alike (m.note i event) s :=
  ⟨h.outside, h.next, h.entries⟩

/-- The table of an idle state is as good when another version has been given. -/
theorem Idle.raised (h : Idle m) (key : String) (cell : Cell)
    (hfound : m.table.find? key = some cell) : cell.key = key ∧ cell.first < m.next + 1 := by
  obtain ⟨hkey, hlt⟩ := h.table key cell hfound
  exact ⟨hkey, Nat.lt_succ_of_lt hlt⟩

/-- A lock that was taken and released is free. -/
theorem Idle.unlocked (h : Idle m) (cell other : Cell) :
    ((m.setLock cell true).setLock cell false).locked other = false := by
  rw [locked_setLock, locked_setLock]
  split
  · rfl
  · exact h.free other

/-! ### Through the pool -/

/-- An entry that is laid into the cell under a key is found there, and no other changes. -/
theorem find?_of_lay (hfound : m'.table.find? key = some cell) {entry : Pool.Entry}
    (hcells : m'.cells = m.lay cell entry)
    (hothers : ∀ other, other ≠ key → m'.table.find? other = m.table.find? other ∧
      ∀ found, m.table.find? other = some found → found ≠ cell) (other : String) :
    m'.find? other = if other = key then some entry else m.find? other := by
  split
  · rename_i heq
    rw [heq, Shared.find?, hfound, hcells]
    exact congrArg some (m.lay_self cell entry)
  · rename_i hne
    obtain ⟨hsame, hcell⟩ := hothers other hne
    rw [Shared.find?, hsame, hcells]
    exact Option.map_congr fun found h => m.lay_of_ne (hcell found h) entry

theorem find?_store (p : Pool) (key other : String) (identity credential : Option Credential) :
    (p.store key identity credential).find? other =
      if other = key then some ⟨identity, p.next, credential⟩ else p.find? other := by
  split
  · rename_i heq
    rw [heq, Pool.find?_store_self]
  · rename_i hne
    rw [Pool.find?_store_of_ne _ _ _ hne]

theorem step_start (hvalid : v.connector.validate v.datasource = .ok ()) :
    (Errand.connect v).step a i m .start = some (v.begin i m) := by
  rw [Errand.step, Visit.step, hvalid]

theorem begin_of_look (hkey : v.key? = some key) (hlook : m.look key v.identity = some cell) :
    v.begin i m = (.entered cell, m) := by
  obtain ⟨name, hid, rfl⟩ := Option.map_eq_some_iff.mp hkey
  unfold Visit.begin
  rw [hid]
  dsimp only
  rw [hlook]

theorem begin_of_look_eq_none (hkey : v.key? = some key) (hlook : m.look key v.identity = none) :
    v.begin i m = (.missing key, m) := by
  obtain ⟨name, hid, rfl⟩ := Option.map_eq_some_iff.mp hkey
  unfold Visit.begin
  rw [hid]
  dsimp only
  rw [hlook]

theorem enter_of_look_eq_none (halike : Alike m s) {credential : Option Credential}
    (hlook : m.look key (credential.map Credential.identity) = none) :
    s.pool.enter key credential =
      s.pool.store key (credential.map Credential.identity) credential := by
  unfold Pool.enter
  dsimp only
  split
  · rename_i entry hentry
    rw [halike.entries key] at hentry
    obtain ⟨cell, hfound, rfl⟩ := Option.map_eq_some_iff.mp hentry
    refine if_neg fun hown => ?_
    cases hlook.symm.trans (look_of_find? hfound hown)
  · rfl

/-- A call that is made alone has the entry that the pool has, or enters one. -/
theorem enter_alone (hidle : Idle m) (halike : Alike m s)
    (hvalid : v.connector.validate v.datasource = .ok ()) (hkey : v.key? = some key) :
    ∃ cell m', Leads a i (.connect v) .start m (.entered cell) m' ∧
      Alike m' { s with pool := s.pool.enter key v.datasource.credential } ∧ Idle m' ∧
      m'.table.find? key = some cell := by
  have hstart := step_start (a := a) (i := i) (m := m) hvalid
  cases hlook : m.look key v.identity with
  | some cell =>
    rw [begin_of_look hkey hlook] at hstart
    obtain ⟨hfound, hown⟩ := look_eq_some hlook
    have hsame : s.pool.enter key v.datasource.credential = s.pool := by
      unfold Pool.enter
      rw [halike.find? hfound]
      exact if_pos hown
    rw [hsame]
    exact ⟨cell, m, .one hstart, halike, hidle, hfound⟩
  | none =>
    rw [begin_of_look_eq_none hkey hlook] at hstart
    let cell : Cell := ⟨key, m.next⟩
    let entry : Pool.Entry := ⟨v.identity, m.next, v.datasource.credential⟩
    let given := m.version i v.datasource.credential
    have hmade : (Errand.connect v).step a i given (.made cell entry) =
        some (.entered cell, given.enter i cell entry) := by
      have hnone : given.look cell.key v.identity = none := hlook
      rw [Errand.step, Visit.step, hnone]
    have hfound : (given.enter i cell entry).table.find? key = some cell :=
      Table.find?_insert_self ..
    refine ⟨cell, given.enter i cell entry, .step hstart (.step rfl (.one hmade)), ?_, ?_, hfound⟩
    · refine ⟨halike.outside, ?_, fun other => ?_⟩
      · rw [enter_of_look_eq_none halike hlook, Pool.next_store, halike.next]
        rfl
      · rw [enter_of_look_eq_none halike hlook, find?_store, halike.next,
          halike.entries other]
        refine (find?_of_lay hfound rfl (fun other hne => ⟨?_, fun found hold => ?_⟩) other).symm
        · exact Table.find?_insert_of_ne _ _ hne
        · rintro rfl
          exact absurd (hidle.table other _ hold).2 (Nat.lt_irrefl _)
    · refine ⟨hidle.free, fun other found hold => ?_⟩
      have hinsert : (m.table.insert key cell).find? other = some found := hold
      by_cases heq : other = key
      · rw [heq, Table.find?_insert_self] at hinsert
        cases hinsert
        exact ⟨heq.symm, Nat.lt_succ_self _⟩
      · rw [Table.find?_insert_of_ne _ _ heq] at hinsert
        exact hidle.raised other found hinsert

theorem settled_of_once (honce : v.always = false) (refreshed : Option Credential) :
    v.settled cell refreshed = .ending cell refreshed := by
  unfold Visit.settled
  rw [honce]
  rfl

theorem settled_of_always (halways : v.always = true) :
    v.settled cell none = .keeping cell := by
  unfold Visit.settled
  rw [halways]
  rfl

theorem settled_some (renewed : Credential) :
    v.settled cell (some renewed) = .ending cell (some renewed) := by
  unfold Visit.settled
  rw [Option.isNone_some, Bool.and_false]
  rfl

theorem step_entered_plain (hplain : ∀ client, (m.cells cell).credential ≠ some (.oauth client)) :
    (Errand.connect v).step a i m (.entered cell) = some (v.settled cell none, m) := by
  rw [Errand.step, Visit.step]
  split
  · rename_i client hclient
    exact absurd hclient (hplain client)
  · rfl

theorem step_loaded {client : OAuthClient} {version : Nat} {due : Bool}
    (hdue : a.due? client (a.network.now m.outside) = some due) :
    (Errand.connect v).step a i m (.loaded cell client version) =
      some (if due then .waiting cell version else v.settled cell none, m) := by
  rw [Errand.step, Visit.step, hdue]
  cases due <;> rfl

theorem step_waiting {version : Nat} (hfree : m.locked cell = false) :
    (Errand.connect v).step a i m (.waiting cell version) =
      some (.holding cell version, m.setLock cell true) := by
  rw [Errand.step, Visit.step, hfree]
  rfl

theorem step_fetching {credential : Credential} {token : Token} {outside : σ}
    (hfetch : a.tokens.fetch credential m.outside = (.ok token, outside)) :
    (Errand.connect v).step a i m (.fetching cell credential) =
      some (.fetched cell (credential.withToken token), { m with outside }) := by
  rw [Errand.step, Visit.step, hfetch]

theorem step_fetching_error {credential : Credential} {halt : Halt} {outside : σ}
    (hfetch : a.tokens.fetch credential m.outside = (.error halt, outside)) :
    (Errand.connect v).step a i m (.fetching cell credential) =
      some (.releasing cell (.error halt), { m with outside }) := by
  rw [Errand.step, Visit.step, hfetch]

section

variable {client : OAuthClient} (hclient : (m.cells cell).credential = some (.oauth client))
include hclient

theorem step_entered_client :
    (Errand.connect v).step a i m (.entered cell) =
      some (if v.always then .waiting cell (m.cells cell).version
        else .loaded cell client (m.cells cell).version, m) := by
  rw [Errand.step, Visit.step, hclient]
  cases v.always <;> rfl

theorem step_holding :
    (Errand.connect v).step a i (m.setLock cell true) (.holding cell (m.cells cell).version) =
      some (.fetching cell (.oauth client), m.setLock cell true) := by
  have hcell : ((m.setLock cell true).cells cell).credential = some (.oauth client) := hclient
  rw [Errand.step, Visit.step, if_neg fun h => h.1 rfl, hcell]

/-- A call that is made alone gets to the fetch of a token that is due. -/
theorem fetching_alone (hidle : Idle m)
    (hdue : a.Due v.always client (a.network.now m.outside)) :
    Leads a i (.connect v) (.entered cell) m (.fetching cell (.oauth client))
      (m.setLock cell true) := by
  have hrest : Leads a i (.connect v) (.waiting cell (m.cells cell).version) m
      (.fetching cell (.oauth client)) (m.setLock cell true) :=
    .step (step_waiting (hidle.free cell)) (.one (step_holding hclient))
  have hentered := step_entered_client (a := a) (i := i) (v := v) hclient
  cases halways : v.always with
  | true =>
    rw [halways] at hentered
    exact .step hentered hrest
  | false =>
    rw [halways] at hentered hdue
    exact .step hentered (.step (step_loaded (hdue.resolve_left Bool.false_ne_true)) hrest)

end

/-! ### How a call through the pool ends -/

/-- What has been put into a cell is what the pool has there instead. -/
theorem Alike.write (halike : Alike m s) (hfound : m.table.find? key = some cell)
    (hidle : Idle m) {credential : Option Credential}
    (hcells : m'.cells = m.lay cell { m.cells cell with version := m.next, credential })
    (htable : m'.table = m.table) (hnext : m'.next = m.next + 1) (houtside : t.outside = m'.outside)
    (hpool : t.pool = s.pool.replace key credential) : Alike m' t := by
  have hreplace := Pool.replace_of_find? (halike.find? hfound) credential
  have hfound' : m'.table.find? key = some cell := htable ▸ hfound
  refine ⟨houtside, ?_, fun other => ?_⟩
  · rw [hpool, hreplace, Pool.next_store, halike.next, hnext]
  · rw [hpool, hreplace, find?_store, halike.next, halike.entries other]
    refine (find?_of_lay hfound' hcells (fun other hne => ⟨by rw [htable], ?_⟩) other).symm
    rintro found hold rfl
    exact hne ((hidle.table other _ hold).1.symm.trans (hidle.table key _ hfound).1)

/-- What the call hands out at its end is what its cell holds. -/
theorem ending_alone (halike : Alike m s) (hidle : Idle m) {entry : Pool.Entry}
    (hentry : m.cells cell = entry) (refreshed : Option Credential) :
    ∃ m', Leads a i (.connect v) (.ending cell refreshed) m
      (.done (.ok (some ⟨entry.connection, refreshed⟩))) m' ∧ Alike m' s ∧ Idle m' := by
  subst hentry
  exact ⟨_, .one rfl, halike.note _, hidle.note _⟩

/-- A call through the pool, from the cell that it has got hold of. -/
theorem pooled_alone {entry : Pool.Entry} (hidle : Idle m) (halike : Alike m s)
    (hfound : m.table.find? key = some cell) (hentry : m.cells cell = entry)
    (h : a.PooledEnds key entry v.always s result t) :
    ∃ m', Leads a i (.connect v) (.entered cell) m (.done (result.map some)) m' ∧
      Alike m' t ∧ Idle m' := by
  obtain ⟨identity, version, credential⟩ := entry
  have hcredential : (m.cells cell).credential = credential := by rw [hentry]
  cases h with
  | kept honce h =>
    cases h with
    | kept hkeeps =>
      obtain ⟨m', hending, hafter⟩ :=
        ending_alone (a := a) (i := i) (v := v) halike hidle hentry none
      refine ⟨m', ?_, hafter⟩
      rw [← settled_of_once honce] at hending
      cases hkeeps with
      | plain hplain => exact .step (step_entered_plain (hcredential ▸ hplain)) hending
      | valid _ hdue =>
        have hentered := step_entered_client (a := a) (i := i) (v := v) hcredential
        rw [honce] at hentered
        rw [halike.outside] at hdue
        exact .step hentered (.step (step_loaded hdue) hending)
  | putBack halways h =>
    cases h with
    | kept hkeeps =>
      have hplain : ∀ client, (m.cells cell).credential ≠ some (.oauth client) := by
        rw [hcredential]
        cases hkeeps with
        | plain hplain => exact hplain
        | valid honce => exact absurd (honce.symm.trans halways) Bool.false_ne_true
      have hentered := step_entered_plain (a := a) (i := i) (v := v) hplain
      rw [settled_of_always halways] at hentered
      let given := m.version i (m.cells cell).credential
      let after := given.write i cell .putBack ⟨m.next, (m.cells cell).credential⟩
      have hafter : Alike after
          { s with pool := s.pool.replace key credential } :=
        halike.write hfound hidle (by rw [← hcredential]; rfl) rfl rfl halike.outside rfl
      have hheld : after.cells cell = ⟨identity, s.pool.next, credential⟩ := by
        rw [cells_write, hcredential, halike.next]
        have hgiven : given.cells cell = ⟨identity, version, credential⟩ := hentry
        rw [hgiven]
      obtain ⟨m', hending, hdone⟩ := ending_alone (a := a) (i := i) (v := v) hafter
        ⟨hidle.free, hidle.raised⟩ hheld none
      exact ⟨m', .step hentered (.step rfl (.step rfl (.step rfl hending))), hdone⟩
  | renewed h =>
    cases h with
    | @fetched client token outside hdue hfetch =>
      rw [halike.outside] at hdue hfetch
      let renewed := Credential.oauth { client with token := some token }
      let given := Shared.version { m.setLock cell true with outside } i (some renewed)
      let after := (given.write i cell .renewed ⟨m.next, some renewed⟩).setLock cell false
      have hafter : Alike after
          { outside
            pool := s.pool.replace key (some renewed)
            record := .token (.oauth client) (.ok token) :: s.record } :=
        halike.write hfound hidle rfl rfl rfl rfl rfl
      have hheld : after.cells cell = ⟨identity, s.pool.next, some renewed⟩ := by
        have hgiven : given.cells cell = ⟨identity, version, some (.oauth client)⟩ := hentry
        have hwritten := cells_write given i cell .renewed ⟨m.next, some renewed⟩
        rw [hgiven] at hwritten
        rw [halike.next]
        exact hwritten
      obtain ⟨m', hending, hdone⟩ := ending_alone (a := a) (i := i) (v := v) hafter
        ⟨hidle.unlocked cell, hidle.raised⟩ hheld (some renewed)
      rw [← settled_some renewed] at hending
      exact ⟨m', (fetching_alone hcredential hidle hdue).trans
        (.step (step_fetching hfetch) (.step rfl (.step rfl (.step rfl hending)))), hdone⟩
  | halted h =>
    cases h with
    | @undated client honce hnone =>
      rw [halike.outside] at hnone
      have hentered := step_entered_client (a := a) (i := i) (v := v) hcredential
      rw [honce] at hentered
      have hloaded : (Errand.connect v).step a i m (.loaded cell client (m.cells cell).version) =
          some (.done (.error .noSuchTime), m) := by
        rw [Errand.step, Visit.step, hnone]
      exact ⟨m, .step hentered (.one hloaded), halike, hidle⟩
    | @refused client halt outside hdue hfetch =>
      rw [halike.outside] at hdue hfetch
      refine ⟨{ m.setLock cell true with outside }.setLock cell false,
        (fetching_alone hcredential hidle hdue).trans
          (.step (step_fetching_error hfetch) (.one rfl)), ?_, ?_⟩
      · exact ⟨rfl, halike.next, halike.entries⟩
      · exact ⟨hidle.unlocked cell, hidle.table⟩

/-! ### Past the pool -/

theorem begin_of_client {client : OAuthClient} (hid : v.id = none)
    (hclient : v.datasource.credential = some (.oauth client)) :
    v.begin i m = (.transient client, m) := by
  unfold Visit.begin
  rw [hid, hclient]

theorem begin_of_plain (hid : v.id = none)
    (hplain : ∀ client, v.datasource.credential ≠ some (.oauth client)) :
    v.begin i m = Visit.handOwn i m v.datasource.credential none := by
  unfold Visit.begin
  rw [hid]
  dsimp only
  split
  · rename_i client hclient
    exact absurd hclient (hplain client)
  · rfl

theorem step_transient {client : OAuthClient} {due : Bool}
    (hdue : a.due? client (a.network.now m.outside) = some due) :
    (Errand.connect v).step a i m (.transient client) =
      some (if due then (.transientDue client, m)
        else Visit.handOwn i m (some (.oauth client)) none) := by
  rw [Errand.step, Visit.step, hdue]
  cases due <;> rfl

theorem transientDue_alone {client : OAuthClient}
    (hclient : v.datasource.credential = some (.oauth client))
    (hvalid : v.connector.validate v.datasource = .ok ()) (hid : v.id = none)
    (hdue : a.Due false client (a.network.now m.outside)) :
    Leads a i (.connect v) .start m (.transientDue client) m := by
  have hstart := step_start (a := a) (i := i) (m := m) hvalid
  rw [begin_of_client hid hclient] at hstart
  exact .step hstart (.one (step_transient (hdue.resolve_left Bool.false_ne_true)))

theorem transient_alone (hidle : Idle m) (halike : Alike m s)
    (hvalid : v.connector.validate v.datasource = .ok ()) (hid : v.id = none)
    (h : a.TransientEnds v.datasource.credential s result t) :
    ∃ m', Leads a i (.connect v) .start m (.done (result.map some)) m' ∧
      Alike m' t ∧ Idle m' := by
  have hstart := step_start (a := a) (i := i) (m := m) hvalid
  generalize hcredential : v.datasource.credential = credential at h
  cases h with
  | kept h =>
    cases h with
    | kept hkeeps =>
      refine ⟨_, ?_, halike.note _, hidle.note (i := i) (.handed none ⟨0, credential⟩)⟩
      cases hkeeps with
      | plain hplain =>
        subst hcredential
        rw [begin_of_plain hid hplain] at hstart
        exact .one hstart
      | valid honce hdue =>
        rw [halike.outside] at hdue
        rw [begin_of_client hid hcredential] at hstart
        exact .step hstart (.one (step_transient hdue))
  | renewed h =>
    cases h with
    | @fetched client token outside hdue hfetch =>
      rw [halike.outside] at hdue hfetch
      have hlast : (Errand.connect v).step a i m (.transientDue client) = some
          (Visit.handOwn i { m with outside } (some (.oauth { client with token := some token }))
            (some (.oauth { client with token := some token }))) := by
        rw [Errand.step, Visit.step, hfetch]
        rfl
      refine ⟨_, (transientDue_alone hcredential hvalid hid hdue).trans (.one hlast), ?_, ?_⟩
      · exact ⟨rfl, halike.next, halike.entries⟩
      · exact ⟨hidle.free, hidle.table⟩
  | @halted halt _ h =>
    cases h with
    | @undated client honce hnone =>
      rw [halike.outside] at hnone
      have hlast : (Errand.connect v).step a i m (.transient client) =
          some (.done (.error .noSuchTime), m) := by
        rw [Errand.step, Visit.step, hnone]
      rw [begin_of_client hid hcredential] at hstart
      exact ⟨m, .step hstart (.one hlast), halike, hidle⟩
    | @refused client _ outside hdue hfetch =>
      rw [halike.outside] at hdue hfetch
      have hlast : (Errand.connect v).step a i m (.transientDue client) =
          some (.done (.error halt), { m with outside }) := by
        rw [Errand.step, Visit.step, hfetch]
      refine ⟨_, (transientDue_alone hcredential hvalid hid hdue).trans (.one hlast), ?_, ?_⟩
      · exact ⟨rfl, halike.next, halike.entries⟩
      · exact ⟨hidle.free, hidle.table⟩

/-! ### Whole calls -/

/-- **A call that is made alone ends as the call made at once.** -/
theorem ends_alone (hidle : Idle m) (halike : Alike m s)
    (h : a.Ends v.connector v.datasource v.id v.always s result t) :
    ∃ m', Leads a i (.connect v) .start m (.done (result.map some)) m' ∧
      Alike m' t ∧ Idle m' := by
  cases h with
  | @invalid f hinvalid =>
    have hstart : (Errand.connect v).step a i m .start =
        some (.done (.error (.failed f)), m) := by
      rw [Errand.step, Visit.step, hinvalid]
    exact ⟨m, .one hstart, halike, hidle⟩
  | transient hvalid hid honce h => exact transient_alone hidle halike hvalid hid h
  | @pooled name entry _ _ hvalid hid hentry h =>
    have hkey : v.key? = some (Pool.key v.connector.name name) := by simp [Visit.key?, hid]
    obtain ⟨cell, m', hentered, halike', hidle', hfound⟩ :=
      enter_alone (a := a) (i := i) hidle halike hvalid hkey
    have hheld := halike'.find? hfound
    obtain ⟨m'', hended, hafter⟩ :=
      pooled_alone (i := i) hidle' halike' hfound (Option.some.inj (hheld.symm.trans hentry)) h
    exact ⟨m'', hentered.trans hended, hafter⟩

theorem invalidate_alone (hidle : Idle m) (halike : Alike m s) (connector datasource : String) :
    ∃ m', Leads a i (.invalidating connector datasource) .start m (.done (.ok none)) m' ∧
      Alike m' ((Access.invalidate connector datasource : Call σ Bool).run s).2 ∧ Idle m' := by
  have herase (other : String) (cell : Cell)
      (h : (m.table.erase (Pool.key connector datasource)).find? other = some cell) :
      m.table.find? other = some cell := by
    by_cases heq : other = Pool.key connector datasource
    · rw [heq, Table.find?_erase_self] at h
      cases h
    · rwa [Table.find?_erase_of_ne _ heq] at h
  refine ⟨_, .one rfl, ⟨halike.outside, halike.next, fun other => ?_⟩,
    ⟨hidle.free, fun other cell hfound => hidle.table other cell (herase other cell hfound)⟩⟩
  have hpool : ((Access.invalidate connector datasource : Call σ Bool).run s).2.pool =
      s.pool.drop (Pool.key connector datasource) := rfl
  rw [hpool, Shared.find?, Shared.drop]
  by_cases heq : other = Pool.key connector datasource
  · rw [heq, Pool.find?_drop_self, Table.find?_erase_self]
    rfl
  · rw [Pool.find?_drop_of_ne _ heq, Table.find?_erase_of_ne _ heq]
    exact halike.entries other

/-! ### Runs of whole calls -/

/-- The call that an order is. -/
def errand? : Access.Order σ → Option Errand
  | .meanwhile _ => none
  | .connect c d => some (.connecting c d)
  | .revalidate c d => some (.revalidating c d)
  | .connectUncached c d => some (.connectingUncached c d)
  | .invalidate connector datasource => some (.invalidating connector datasource)

/-- What is handed out is what the call comes to. -/
theorem run_handed (x : Call σ Connected) (s : State σ) :
    (x >>= fun y => pure (some y)).run s = ((x.run s).1.map some, (x.run s).2) := by
  rw [run_bind]
  rcases x.run s with ⟨halt | y, t⟩ <;> rfl

/-- A turn is the call made alone. -/
theorem take_alone (hidle : Idle m) (halike : Alike m s) {order : Access.Order σ}
    (he : errand? order = some e) :
    ∃ m', Leads a i e .start m (.done (a.take order s).outcome) m' ∧
      Alike m' (a.take order s).after ∧ Idle m' := by
  have hasked {x : Call σ Connected} (hrun : a.perform order = x >>= fun y => pure (some y))
      (h : ∃ m', Leads a i e .start m (.done ((x.run s).1.map some)) m' ∧
        Alike m' (x.run s).2 ∧ Idle m') :
      ∃ m', Leads a i e .start m (.done (a.take order s).outcome) m' ∧
        Alike m' (a.take order s).after ∧ Idle m' := by
    unfold Access.take
    rw [hrun, run_handed]
    exact h
  cases order with
  | meanwhile outside => cases he
  | connect c d =>
    cases he
    exact hasked rfl (ends_alone (v := ⟨c, d, d.id, false⟩) hidle halike (a.connect_ends rfl))
  | revalidate c d =>
    cases he
    exact hasked rfl
      (ends_alone (v := ⟨c, d, d.id, d.id.isSome⟩) hidle halike (a.revalidate_ends rfl))
  | connectUncached c d =>
    cases he
    exact hasked rfl
      (ends_alone (v := ⟨c, d, none, false⟩) hidle halike (a.connectUncached_ends rfl))
  | invalidate connector datasource =>
    cases he
    exact invalidate_alone hidle halike connector datasource

variable {keys : String → Prop} {tasks : List Task} {sys : System σ}

/-- Where all calls but the last are over, those that are going on at once agree. -/
theorem agreed_of_closed (hclosed : ∀ t ∈ tasks, t.stage.isOpen = false) (m : Shared σ) (t : Task) :
    System.Agreed keys ⟨m, tasks ++ [t]⟩ := by
  have hlast {j : Nat} {u : Task} (hu : (tasks ++ [t])[j]? = some u)
      (hopen : u.stage.isOpen = true) : j = tasks.length := by
    rw [List.getElem?_append] at hu
    split at hu
    · rw [hclosed u (List.mem_of_getElem? hu)] at hopen
      cases hopen
    · have hlt := (List.getElem?_eq_some_iff.mp hu).1
      rw [List.length_singleton] at hlt
      omega
  intro i j t u key other hij ht hu htopen huopen
  exact absurd ((hlast ht htopen).trans (hlast hu huopen).symm) hij

/-- The steps of the last call alone. -/
theorem Leads.reaches (h : Leads a i e stage m stage' m') (hi : i = tasks.length)
    (hclosed : ∀ t ∈ tasks, t.stage.isOpen = false)
    (hreaches : Reaches a (System.Agreed keys) ⟨m, tasks ++ [⟨e, stage⟩]⟩) :
    Reaches a (System.Agreed keys) ⟨m', tasks ++ [⟨e, stage'⟩]⟩ := by
  subst hi
  induction h with
  | refl => exact hreaches
  | @step stage between _ m m' _ hstep hrest ih =>
    have hmove : System.move? a ⟨m, tasks ++ [⟨e, stage⟩]⟩ (.go tasks.length) =
        some ⟨m', tasks ++ [⟨e, between⟩]⟩ := by
      simp [System.move?, hstep]
    exact ih (.move hreaches hmove (agreed_of_closed hclosed m' _))

/-- What has become of the call of a turn. -/
def ended (v : Access.Turn σ) : Option Task :=
  (errand? v.order).map fun e => ⟨e, .done v.outcome⟩

/-- **A run of whole calls, one after another, is a run of calls that may overlap**: each is over
before the next begins, with what it came to, and the pool is the same at the end. -/
theorem run_alone {turns : List (Access.Turn σ)} (h : a.Run s turns t)
    (hreaches : Reaches a (System.Agreed keys) sys) (halike : Alike sys.shared s)
    (hidle : Idle sys.shared) (hclosed : ∀ t ∈ sys.tasks, t.stage.isOpen = false) :
    ∃ sys', Reaches a (System.Agreed keys) sys' ∧ Alike sys'.shared t ∧
      sys'.tasks = sys.tasks ++ turns.filterMap ended := by
  induction h generalizing sys with
  | nil s => exact ⟨sys, hreaches, halike, (List.append_nil _).symm⟩
  | @cons order s t turns h ih =>
    cases he : errand? order with
    | none =>
      cases order with
      | meanwhile outside =>
        have hagreed : System.Agreed keys { sys with shared := { sys.shared with outside } } := by
          intro i j u w key other _ hu _ hopen
          rw [hclosed u (List.mem_of_getElem? hu)] at hopen
          cases hopen
        have hmeanwhile : Reaches a (System.Agreed keys)
            { sys with shared := { sys.shared with outside } } :=
          .move hreaches (m := .meanwhile outside) rfl hagreed
        obtain ⟨sys', hreaches', hafter, htasks⟩ :=
          ih hmeanwhile ⟨rfl, halike.next, halike.entries⟩ ⟨hidle.free, hidle.table⟩ hclosed
        exact ⟨sys', hreaches', hafter, htasks⟩
      | _ => cases he
    | some e =>
      obtain ⟨m', hleads, halike', hidle'⟩ :=
        take_alone (a := a) (i := sys.tasks.length) hidle halike he
      have hcall : Reaches a (System.Agreed keys) ⟨sys.shared, sys.tasks ++ [⟨e, .start⟩]⟩ :=
        .move hreaches (m := .call e) rfl (agreed_of_closed hclosed sys.shared _)
      have hover := hleads.reaches rfl hclosed hcall
      have hclosed' : ∀ t ∈ sys.tasks ++ [⟨e, .done (a.take order s).outcome⟩],
          t.stage.isOpen = false := fun t ht => by
        rcases List.mem_append.mp ht with ht | ht
        · exact hclosed t ht
        · rw [List.mem_singleton.mp ht]
          rfl
      have hended : ended (a.take order s) = some ⟨e, .done (a.take order s).outcome⟩ := by
        unfold ended
        rw [show (a.take order s).order = order from rfl, he]
        rfl
      obtain ⟨sys', hreaches', hafter, htasks⟩ := ih hover halike' hidle' hclosed'
      refine ⟨sys', hreaches', hafter, ?_⟩
      rw [htasks, List.filterMap_cons_some hended, List.append_assoc]
      rfl

theorem run_reaches {outside : σ} {turns : List (Access.Turn σ)} (h : a.Run { outside } turns t) :
    ∃ sys, Reaches a (System.Agreed keys) sys ∧ Alike sys.shared t ∧
      sys.tasks = turns.filterMap ended := by
  have halike : Alike ({ outside } : Shared σ) { outside } := ⟨rfl, rfl, fun _ => rfl⟩
  have hidle : Idle ({ outside } : Shared σ) := ⟨fun _ => rfl, fun _ _ h => by cases h⟩
  exact run_alone h (.start outside) halike hidle fun t ht => by cases ht

end Relay.Overlap
