/-
# What invalidating drops

An execution finds its connector under the name that it was registered under, the trimmed one,
but what it puts into the pool stands under the connector's own name. To invalidate, the
registered name is given. So where a connector's own name has no blanks around it,
invalidating drops what the execution has put there, and all that is connected later has a
later version. Where it has, invalidating looks under a key that the connector never
uses: the entry stays, and the next execution gets it again.

Key definitions: `Dispatcher.Dropped`, `Dispatcher.Missed`.
Key theorems: `Step.moves`, `prepare_again`, `prepare_later`, `invalidate_drops_iff`.
-/
import Mathlib.Logic.Relation
import Relay.Proofs.Agreement
import Relay.Proofs.Registering

namespace Relay

open Call Wire

namespace Pool

/-- A connector's datasources of one id have one key exactly if the connectors have one name. -/
theorem key_inj_left {connector other id : String} :
    key connector id = key other id ↔ connector = other := by
  unfold key
  rw [String.append_assoc, String.append_assoc]
  exact ⟨fun h => by simpa using h, fun h => by rw [h]⟩

/-- What is taken out is past. -/
theorem past_drop {p : Pool} {puts : List Connection} (hp : Moves {} puts p) {key : String}
    {e : Entry} (he : p.find? key = some e) : (p.drop key).Past key e.version := by
  refine (Moves.rest.drop key : Moves p [] _).past he (hp.version_made he).2 ?_
  rw [find?_drop_self]
  simp

end Pool

namespace Access

variable {σ : Type} {a : Access σ} {s t : State σ} {c : Connector} {d : Datasource}
  {name : String} {always : Bool} {x : Connected}

/-- Where the pool has no entry, the connection has the next version or a later one. -/
theorem Ends.next_le_version (h : a.Ends c d (some name) always s (.ok x) t)
    (hnone : s.pool.find? (Pool.key c.name name) = none) :
    s.pool.next ≤ x.connection.version := by
  obtain ⟨puts, hputs⟩ := h.moves
  obtain ⟨e, he, -, hconnection⟩ := h.entry
  rcases hputs.mem_of_find? he with hold | hmem
  · rw [hnone] at hold
    cases hold
  · rw [← hconnection]
    exact (hputs.version_mem hmem).1

/-- A connection that was past is behind what is connected to under the same key. -/
theorem Ends.version_lt (h : a.Ends c d (some name) always s (.ok x) t) {version : Nat}
    (hpast : s.pool.Past (Pool.key c.name name) version) : version < x.connection.version := by
  obtain ⟨puts, hputs⟩ := h.moves
  obtain ⟨e, he, -, hconnection⟩ := h.entry
  rw [← hconnection]
  exact (hpast.moves hputs).2 e he

end Access

namespace Dispatcher

variable {σ : Type} {d : Dispatcher σ} {s t u v w : State σ} {name id : String}
  {i : Invocation} {ds : Datasource} {action : Action} {p : Plan} {x : Connected} {c : Connector}

/-- **Whatever is called moves the pool on.** -/
theorem Step.moves (h : d.Step s t) : ∃ puts, Pool.Moves s.pool puts t.pool :=
  h.keeps (d.preserves_moves s.pool) ⟨[], .rest⟩

theorem Reachable.moves (h : d.Reachable s) : ∃ puts, Pool.Moves {} puts s.pool :=
  h.keeps (d.preserves_moves {}) ⟨[], .rest⟩

theorem moves_of_steps (h : Relation.ReflTransGen d.Step s t) :
    ∃ puts, Pool.Moves s.pool puts t.pool := by
  induction h with
  | refl => exact ⟨[], .rest⟩
  | tail _ hstep ih =>
    obtain ⟨puts, hputs⟩ := ih
    obtain ⟨more, hmore⟩ := hstep.moves
    exact ⟨_, hputs.trans hmore⟩

/-- The request of an action leaves the pool as it was prepared. -/
theorem pool_of_prepare (hx : (d.prepare name i ds action).run s = (.ok (p, x), u))
    {result : Except Halt Report} (ht : (d.execute name i ds action).run s = (result, t)) :
    t.pool = u.pool := by
  obtain ⟨report, outside, hrun, -⟩ := d.run_run p x.connection u
  unfold execute at ht
  rw [run_bind, run_outcome, hx] at ht
  dsimp only at ht
  rw [run_bind, hrun] at ht
  cases ht
  rfl

/-- What was prepared has an entry under the connector's own name. -/
theorem entry_of_prepare (hid : ds.id = some id) (hc : d.registry.require name = .ok c)
    (hx : (d.prepare name i ds action).run s = (.ok (p, x), u)) :
    ∃ e, u.pool.find? (Pool.key c.name id) = some e ∧
      e.identity = ds.credential.map Credential.identity ∧ e.connection = x.connection := by
  obtain ⟨c', hc', -, -, hconnect⟩ := d.prepare_eq_ok_iff.mp hx
  cases hc.symm.trans hc'
  have hends := d.connect_ends hconnect
  rw [hid] at hends
  exact hends.entry

/-- Under a connector that is called what it is registered under, all that is prepared later for a
datasource of the id has a version behind those that are past. -/
theorem prepare_later (hc : d.registry.require name = .ok c) (hname : c.name = name)
    {version : Nat} (hpast : v.pool.Past (Pool.key name id) version)
    (hsteps : Relation.ReflTransGen d.Step v w) (hid : ds.id = some id)
    (hx : (d.prepare name i ds action).run w = (.ok (p, x), u)) :
    version < x.connection.version := by
  obtain ⟨c', hc', -, -, hconnect⟩ := d.prepare_eq_ok_iff.mp hx
  cases hc.symm.trans hc'
  obtain ⟨puts, hputs⟩ := moves_of_steps hsteps
  have hends := d.connect_ends hconnect
  rw [hid] at hends
  refine hends.version_lt ?_
  rw [hname]
  exact hpast.moves hputs

/-- **What was prepared once is prepared again**, if the credential, which the pool has no entry
for, can be made fit for use. -/
theorem prepare_again (hid : ds.id = some id) (hc : d.registry.require name = .ok c)
    (hx : (d.prepare name i ds action).run s = (.ok (p, x), u))
    (hnone : w.pool.find? (Pool.key c.name id) = none) :
    (∃ y v, (d.prepare name i ds action).run w = (.ok (p, y), v) ∧
      w.pool.next ≤ y.connection.version) ∨
    ∃ halt v, (d.prepare name i ds action).run w = (.error halt, v) ∧
      d.Freshened false { w with pool := w.pool.enter (Pool.key c.name id) ds.credential }
        ds.credential (.error halt) v := by
  obtain ⟨c', hc', hpermits, hp, hconnect⟩ := d.prepare_eq_ok_iff.mp hx
  cases hc.symm.trans hc'
  have hvalid : c.validate ds = .ok () := (d.connect_ends hconnect).valid
  rcases hrun : (d.prepare name i ds action).run w with ⟨result, v⟩
  cases d.prepare_ends hrun with
  | unknown h =>
    rw [hc] at h
    cases h
  | noPermit hc' h => exact absurd h hpermits
  | unplanned hc' hpermits' h =>
    cases hc.symm.trans hc'
    rw [hp] at h
    cases h
  | @unconnected c' p' halt v hc' hpermits' hp' h =>
    cases hc.symm.trans hc'
    have hfresh := h.freshened_of_error hvalid
    rw [hid] at hfresh
    have hentered : (w.pool.enter (Pool.key c.name id) ds.credential).find? (Pool.key c.name id) =
        some ⟨ds.credential.map Credential.identity, w.pool.next, ds.credential⟩ := by
      rw [Pool.enter_of_none hnone, Pool.find?_store_self]
    rw [Access.atHand_eq hentered] at hfresh
    exact .inr ⟨halt, v, rfl, hfresh⟩
  | @connected c' p' y v hc' hpermits' hp' h =>
    cases hc.symm.trans hc'
    cases hp.symm.trans hp'
    rw [hid] at h
    exact .inl ⟨y, v, rfl, h.next_le_version hnone⟩

variable (d)

/-- Invalidating in `t` has led to `v` and dropped what an execution had put into the pool
over `x`: it says so; whatever is called afterwards, what is connected to under this name and
this id has a later version; and the same execution connects anew, unless its credential cannot
be made fit for use. -/
structure Dropped (name id : String) (i : Invocation) (ds : Datasource) (action : Action)
    (p : Plan) (x : Connected) (t : State σ) (told : Except Halt Bool) (v : State σ) : Prop where
  told : told = .ok true
  later : ∀ w, Relation.ReflTransGen d.Step v w → ∀ i' ds' action' p' y u, ds'.id = some id →
    (d.prepare name i' ds' action').run w = (.ok (p', y), u) →
    x.connection.version < y.connection.version
  anew : ∀ w, w.pool = v.pool →
    (∃ y u, (d.prepare name i ds action).run w = (.ok (p, y), u) ∧
      ∀ key e, t.pool.find? key = some e → e.version < y.connection.version) ∨
    ∃ halt u, (d.prepare name i ds action).run w = (.error halt, u) ∧
      d.Freshened false { w with pool := w.pool.enter (Pool.key name id) ds.credential }
        ds.credential (.error halt) u

/-- Invalidating in `t` has led to `v` and missed what an execution had put into the pool over
`x`: it tells about another entry, if there is one under the key; the entry of the connector
stays; and the same execution gets the same connection again, as long as no token is due. -/
structure Missed (c : Connector) (name id : String) (i : Invocation) (ds : Datasource)
    (action : Action) (p : Plan) (x : Connected) (t : State σ) (told : Except Halt Bool)
    (v : State σ) : Prop where
  told : told = .ok (t.pool.find? (Pool.key name id)).isSome
  stays : v.pool.find? (Pool.key c.name id) = t.pool.find? (Pool.key c.name id)
  again : ∀ w, w.pool = v.pool →
    d.KeepsEntry false (d.network.now w.outside) x.connection.credential →
    (d.prepare name i ds action).run w = (.ok (p, ⟨x.connection, none⟩), w)

variable {d}

theorem run_invalidate (name id : String) (t : State σ) :
    (Access.invalidate name id).run t = (.ok (t.pool.find? (Pool.key name id)).isSome,
      { t with pool := t.pool.drop (Pool.key name id) }) := rfl

/-- A connector that is called what it is registered under. -/
theorem dropped_of_name_eq {puts : List Connection} (hputs : Pool.Moves {} puts t.pool)
    (hid : ds.id = some id) (hc : d.registry.require name = .ok c) (hname : c.name = name)
    (hx : (d.prepare name i ds action).run s = (.ok (p, x), u)) {e : Pool.Entry}
    (he : t.pool.find? (Pool.key c.name id) = some e) (hconnection : e.connection = x.connection) :
    d.Dropped name id i ds action p x t (.ok (t.pool.find? (Pool.key name id)).isSome)
      { t with pool := t.pool.drop (Pool.key name id) } := by
  have hversion : x.connection.version = e.version := by
    rw [← hconnection]
    rfl
  rw [hname] at he
  refine ⟨?_, fun w hsteps i' ds' action' p' y u' hid' hy => ?_, fun w hw => ?_⟩
  · rw [he]
    rfl
  · rw [hversion]
    exact prepare_later hc hname (Pool.past_drop hputs he) hsteps hid' hy
  · have hnone : w.pool.find? (Pool.key c.name id) = none := by
      rw [hw, hname]
      exact Pool.find?_drop_self ..
    have hnext : w.pool.next = t.pool.next := by
      rw [hw]
      rfl
    rcases prepare_again hid hc hx hnone with ⟨y, u', hy, hle⟩ | ⟨halt, u', hy, hfresh⟩
    · refine .inl ⟨y, u', hy, fun key e' he' => ?_⟩
      have hlt := (hputs.version_made he').2
      omega
    · rw [hname] at hfresh
      exact .inr ⟨halt, u', hy, hfresh⟩

/-- A connector that is not. -/
theorem missed_of_name_ne (hid : ds.id = some id) (hc : d.registry.require name = .ok c)
    (hne : c.name ≠ name) (hx : (d.prepare name i ds action).run s = (.ok (p, x), u))
    {e : Pool.Entry} (he : t.pool.find? (Pool.key c.name id) = some e)
    (hidentity : e.identity = ds.credential.map Credential.identity)
    (hconnection : e.connection = x.connection) :
    d.Missed c name id i ds action p x t (.ok (t.pool.find? (Pool.key name id)).isSome)
      { t with pool := t.pool.drop (Pool.key name id) } := by
  have hstays : (t.pool.drop (Pool.key name id)).find? (Pool.key c.name id) =
      t.pool.find? (Pool.key c.name id) :=
    Pool.find?_drop_of_ne _ fun hkey => hne (Pool.key_inj_left.mp hkey)
  refine ⟨rfl, hstays, fun w hw hkeeps => ?_⟩
  obtain ⟨c', hc', hpermits, hp, hconnect⟩ := d.prepare_eq_ok_iff.mp hx
  cases hc.symm.trans hc'
  have hentry : w.pool.find? (Pool.key c.name id) = some e := by rw [hw, hstays, he]
  have hkeeps' : d.KeepsEntry false (d.network.now w.outside) e.credential := by
    rw [← hconnection] at hkeeps
    exact hkeeps
  have hrun := d.run_connect_pooled (d.connect_ends hconnect).valid hid hentry hidentity hkeeps'
  rw [hconnection] at hrun
  exact d.prepare_eq_ok_iff.mpr ⟨c, hc, hpermits, hp, hrun⟩

/-- **Invalidating drops what an execution has put into the pool exactly if its connector is
called what it is registered under.** In every registry, for each name that it lists, and for
every datasource with an id, over which an execution has connected. -/
theorem invalidate_drops_iff (hr : d.registry.Filled) (hs : d.Reachable s)
    (hlisted : name ∈ d.registry.names) (hid : ds.id = some id)
    (hx : (d.prepare name i ds action).run s = (.ok (p, x), u)) {result : Except Halt Report}
    (ht : (d.execute name i ds action).run s = (result, t)) {told : Except Halt Bool}
    (hv : (Access.invalidate name id).run t = (told, v)) :
    ∃ c, d.registry.require name = .ok c ∧ Text.trim c.name = name ∧
      (v.pool.find? (Pool.key c.name id) = none ↔ c.name = name) ∧
      (c.name = name → d.Dropped name id i ds action p x t told v) ∧
      (c.name ≠ name → d.Missed c name id i ds action p x t told v) := by
  obtain ⟨c, hc⟩ := Registry.mem_names_iff.mp hlisted
  obtain ⟨e, he, hidentity, hconnection⟩ := entry_of_prepare hid hc hx
  rw [← pool_of_prepare hx ht] at he
  obtain ⟨puts, hputs⟩ : ∃ puts, Pool.Moves {} puts t.pool := by
    obtain ⟨puts, hputs⟩ := hs.moves
    obtain ⟨more, hmore⟩ := (Step.execute name i ds action s : d.Step s _).moves
    rw [ht] at hmore
    exact ⟨_, hputs.trans hmore⟩
  rw [run_invalidate] at hv
  cases hv
  have hmissed (hne : c.name ≠ name) := missed_of_name_ne hid hc hne hx he hidentity hconnection
  refine ⟨c, hc, hr.trim_name hc, ?_,
    fun hname => dropped_of_name_eq hputs hid hc hname hx he hconnection, hmissed⟩
  by_cases hname : c.name = name
  · have hgone : (t.pool.drop (Pool.key name id)).find? (Pool.key c.name id) = none := by
      rw [hname]
      exact Pool.find?_drop_self ..
    exact ⟨fun _ => hname, fun _ => hgone⟩
  · have hsome := (hmissed hname).stays.trans he
    exact ⟨fun hgone => absurd (hgone.symm.trans hsome) (by simp), fun h => absurd h hname⟩

/-- A connector without blanks around its name. -/
theorem invalidate_drops_iff_lookup : ∃ p x result t told v,
    (lookingUp.execute "lookup" {} Access.unserved {}).run { outside := () } = (result, t) ∧
    (Access.invalidate "lookup" "a").run t = (told, v) ∧
    lookingUp.Dropped "lookup" "a" {} Access.unserved {} p x t told v := by
  have hfilled : lookingUp.registry.Filled :=
    Registry.filled_singleton (by decide +kernel) (by decide)
  obtain ⟨c, hc, -, -, hdropped, -⟩ := invalidate_drops_iff hfilled (.start ())
    (List.mem_singleton.mpr rfl) (rfl : Access.unserved.id = some "a")
    (rfl : (lookingUp.prepare "lookup" {} Access.unserved {}).run { outside := () } = _) rfl rfl
  cases hc
  exact ⟨_, _, _, _, _, _, rfl, rfl, hdropped rfl⟩

/-- A dispatcher of the same connector with blanks around its name. -/
def spaced : Dispatcher Unit :=
  { lookingUp with registry := ⟨[("lookup", { lookup with name := " lookup " })]⟩ }

/-- **The entry of a connector with blanks around its name is missed**: invalidating finds
nothing, and the next execution gets the same version. -/
theorem invalidate_misses_spaced : spaced.registry.Filled ∧ "lookup" ∈ spaced.registry.names ∧
    ∃ p q x y result t u v w,
      (spaced.prepare "lookup" {} Access.unserved {}).run { outside := () } = (.ok (p, x), t) ∧
      (spaced.execute "lookup" {} Access.unserved {}).run { outside := () } = (.ok result, u) ∧
      (Access.invalidate "lookup" "a").run u = (.ok false, v) ∧
      (spaced.prepare "lookup" {} Access.unserved {}).run v = (.ok (q, y), w) ∧
      x.connection.version = 2 ∧ y.connection.version = 2 :=
  ⟨Registry.filled_singleton (by decide +kernel) (by decide), List.mem_singleton.mpr rfl,
    _, _, _, _, _, _, _, _, _, rfl, rfl, rfl, rfl, rfl, rfl⟩

end Dispatcher

end Relay
