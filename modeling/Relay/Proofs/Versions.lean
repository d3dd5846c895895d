/-
# Versions name credentials

The pool counts up: what is put into it gets the next version, and taking out takes no
version back. So in any history of orders, made one after another, a version names one
credential, all connections of a version are the same, and those for one datasource never
go back in their versions. Two of them have one version exactly if nothing has happened to the
entry in between: it was not replaced for another credential, its token was not renewed, and
it was neither revalidated nor invalidated. A connection past the pool has version zero.

Key definitions: `Pool.Moves`, `Pool.Past`, `Access.Order`, `Access.Turn`,
`Access.Turn.Changes`, `Access.Run`, `Access.Versioned`.
Key theorems: `Moves.ascending`, `Moves.mem_of_find?`, `take_find?_iff`, `Run.moves`,
`Run.unchanged`, `Run.changed`, `versions_name_credentials`.
-/
import Relay.Proofs.Endings
import Relay.Proofs.Renewal

namespace Relay

open Call Wire

/-! ### Putting in and taking out -/

namespace Pool

/-- One pool comes from another by putting credentials in, here in their order and under their
versions, and by taking entries out. -/
inductive Moves (p : Pool) : List Connection → Pool → Prop
  | rest : Moves p [] p
  | put {puts : List Connection} {q : Pool} (key : String)
    (identity credential : Option Credential) (h : Moves p puts q) :
    Moves p (puts ++ [⟨q.next, credential⟩]) (q.store key identity credential)
  | drop {puts : List Connection} {q : Pool} (key : String) (h : Moves p puts q) :
    Moves p puts (q.drop key)

variable {p q r : Pool} {puts more : List Connection} {key : String} {e : Entry}

theorem Moves.trans (h : Moves p puts q) (hmore : Moves q more r) : Moves p (puts ++ more) r := by
  induction hmore with
  | rest =>
    rw [List.append_nil]
    exact h
  | put key identity credential _ ih =>
    rw [← List.append_assoc]
    exact ih.put key identity credential
  | drop key _ ih => exact ih.drop key

theorem Moves.next_le (h : Moves p puts q) : p.next ≤ q.next := by
  induction h with
  | rest => exact Nat.le_refl _
  | put key identity credential _ ih =>
    rw [next_store]
    omega
  | drop key _ ih => exact ih

/-- What is put in between has the versions in between. -/
theorem Moves.version_mem (h : Moves p puts q) {c : Connection} (hc : c ∈ puts) :
    p.next ≤ c.version ∧ c.version < q.next := by
  induction h with
  | rest => cases hc
  | @put puts q key identity credential h ih =>
    rw [next_store]
    rcases List.mem_append.mp hc with hc | hc
    · have hold := ih hc
      omega
    · have hle := h.next_le
      cases List.mem_singleton.mp hc
      exact ⟨hle, Nat.lt_succ_self _⟩
  | drop key _ ih => exact ih hc

/-- **Versions go up** from put to put. -/
theorem Moves.ascending (h : Moves p puts q) :
    puts.Pairwise fun x y => x.version < y.version := by
  induction h with
  | rest => exact .nil
  | put key identity credential h ih =>
    refine List.pairwise_append.mpr ⟨ih, List.pairwise_singleton .., fun x hx y hy => ?_⟩
    cases List.mem_singleton.mp hy
    exact (h.version_mem hx).2
  | drop key _ ih => exact ih

/-- An entry was there before, or was put in. -/
theorem Moves.mem_of_find? (h : Moves p puts q) (he : q.find? key = some e) :
    p.find? key = some e ∨ e.connection ∈ puts := by
  induction h with
  | rest => exact .inl he
  | put other identity credential h ih =>
    by_cases hkey : key = other
    · rw [hkey, find?_store_self] at he
      cases he
      exact .inr (List.mem_append_right _ List.mem_cons_self)
    · rw [find?_store_of_ne _ _ _ hkey] at he
      exact (ih he).imp_right fun hmem => List.mem_append_left _ hmem
  | drop other h ih =>
    by_cases hkey : key = other
    · rw [hkey, find?_drop_self] at he
      cases he
    · rw [find?_drop_of_ne _ hkey] at he
      exact ih he

/-- Whatever is in a pool that was empty was put in. -/
theorem Moves.made (h : Moves {} puts q) (he : q.find? key = some e) : e.connection ∈ puts := by
  rcases h.mem_of_find? he with hempty | hmem
  · cases hempty
  · exact hmem

theorem Moves.version_made (h : Moves {} puts q) (he : q.find? key = some e) :
    0 < e.version ∧ e.version < q.next :=
  h.version_mem (h.made he)

theorem moves_enter (p : Pool) (key : String) (credential : Option Credential) :
    ∃ puts, Moves p puts (p.enter key credential) := by
  have hstore : ∃ puts,
      Moves p puts (p.store key (credential.map Credential.identity) credential) :=
    ⟨_, Moves.rest.put key _ _⟩
  unfold enter
  dsimp only
  split
  · split
    · exact ⟨[], .rest⟩
    · exact hstore
  · exact hstore

theorem moves_replace (p : Pool) (key : String) (credential : Option Credential) :
    ∃ puts, Moves p puts (p.replace key credential) := by
  unfold replace
  split
  · exact ⟨_, Moves.rest.put key _ _⟩
  · exact ⟨[], .rest⟩

/-! ### Versions that are past -/

/-- Under the key there is nothing of this version or of one before, and there will not be. -/
def Past (p : Pool) (key : String) (version : Nat) : Prop :=
  version < p.next ∧ ∀ e, p.find? key = some e → version < e.version

theorem Past.moves {version : Nat} (hpast : p.Past key version) (h : Moves p puts q) :
    q.Past key version := by
  refine ⟨Nat.lt_of_lt_of_le hpast.1 h.next_le, fun e he => ?_⟩
  rcases h.mem_of_find? he with hold | hmem
  · exact hpast.2 e hold
  · exact Nat.lt_of_lt_of_le hpast.1 (h.version_mem hmem).1

/-- Once an entry is not the same any more, its version is past. -/
theorem Moves.past (h : Moves p puts q) (he : p.find? key = some e) (hlt : e.version < p.next)
    (hgone : q.find? key ≠ some e) : q.Past key e.version := by
  refine ⟨Nat.lt_of_lt_of_le hlt h.next_le, fun e' he' => ?_⟩
  rcases h.mem_of_find? he' with hold | hmem
  · cases he.symm.trans hold
    exact absurd he' hgone
  · exact Nat.lt_of_lt_of_le hlt (h.version_mem hmem).1

/-- A store leaves no entry as it was. -/
theorem find?_store_ne (p : Pool) (key : String) (identity credential : Option Credential)
    (hlt : e.version < p.next) : (p.store key identity credential).find? key ≠ some e := by
  rw [find?_store_self]
  intro h
  cases h
  exact absurd hlt (Nat.lt_irrefl _)

theorem Past.find?_ne (h : p.Past key e.version) : p.find? key ≠ some e := by
  intro he
  exact absurd (h.2 e he) (Nat.lt_irrefl _)

theorem enter_of_identity (he : p.find? key = some e) {credential : Option Credential}
    (h : e.identity = credential.map Credential.identity) : p.enter key credential = p := by
  unfold enter
  dsimp only
  rw [he]
  dsimp only
  rw [if_pos h]

theorem enter_of_identity_ne (he : p.find? key = some e) {credential : Option Credential}
    (h : e.identity ≠ credential.map Credential.identity) :
    p.enter key credential = p.store key (credential.map Credential.identity) credential := by
  unfold enter
  dsimp only
  rw [he]
  dsimp only
  rw [if_neg h]

theorem enter_of_none (h : p.find? key = none) (credential : Option Credential) :
    p.enter key credential = p.store key (credential.map Credential.identity) credential := by
  unfold enter
  rw [h]

theorem find?_enter_of_ne (p : Pool) {other : String} (credential : Option Credential)
    (h : other ≠ key) : (p.enter key credential).find? other = p.find? other := by
  unfold enter
  dsimp only
  split
  · split
    · rfl
    · exact find?_store_of_ne _ _ _ h
  · exact find?_store_of_ne _ _ _ h

theorem find?_replace_of_ne (p : Pool) {other : String} (credential : Option Credential)
    (h : other ≠ key) : (p.replace key credential).find? other = p.find? other := by
  unfold replace
  split
  · exact find?_store_of_ne _ _ _ h
  · rfl

end Pool

/-! ### What a connection does to the pool -/

namespace Access

variable {σ : Type} {a : Access σ} {s t u : State σ} {c : Connector} {d : Datasource}
  {id : Option String} {name key : String} {always : Bool} {result : Except Halt Connected}
  {e : Pool.Entry} {x : Connected}

theorem TransientEnds.pool {credential : Option Credential}
    (h : a.TransientEnds credential s result t) : t.pool = s.pool := by
  cases h with
  | kept h => exact h.pool
  | renewed h => exact h.pool
  | halted h => exact h.pool

/-- Past the pool, a connection has version zero and leaves the pool alone. -/
theorem Ends.past_pool (h : a.Ends c d none always s result t) :
    t.pool = s.pool ∧ ∀ x, result = .ok x → x.connection.version = 0 := by
  cases h with
  | invalid h => exact ⟨rfl, by simp⟩
  | transient hvalid hid honce h =>
    refine ⟨h.pool, fun x hx => ?_⟩
    cases h with
    | kept h =>
      cases hx
      rfl
    | renewed h =>
      cases hx
      rfl
    | halted h => cases hx
  | pooled hvalid hid he h => cases hid

theorem PooledEnds.moves (h : a.PooledEnds key e always s result t) :
    ∃ puts, Pool.Moves s.pool puts t.pool := by
  cases h with
  | kept honce h => exact ⟨[], h.pool ▸ .rest⟩
  | putBack halways h => exact h.pool ▸ Pool.moves_replace _ _ _
  | renewed h => exact h.pool ▸ Pool.moves_replace _ _ _
  | halted h => exact ⟨[], h.pool ▸ .rest⟩

/-- **Connecting moves the pool on.** -/
theorem Ends.moves (h : a.Ends c d id always s result t) :
    ∃ puts, Pool.Moves s.pool puts t.pool := by
  cases h with
  | invalid h => exact ⟨[], .rest⟩
  | transient hvalid hid honce h => exact ⟨[], h.pool ▸ .rest⟩
  | @pooled name e result t hvalid hid he h =>
    obtain ⟨puts, hputs⟩ := s.pool.moves_enter (Pool.key c.name name) d.credential
    obtain ⟨more, hmore⟩ := h.moves
    exact ⟨_, hputs.trans hmore⟩

theorem preserves_moves (a : Access σ) (p : Pool) :
    a.Preserves fun q => ∃ puts, Pool.Moves p puts q := by
  have hends {s t : State σ} {c : Connector} {d : Datasource} {id : Option String} {always : Bool}
      {result : Except Halt Connected} (h : a.Ends c d id always s result t)
      (hs : ∃ puts, Pool.Moves p puts s.pool) : ∃ puts, Pool.Moves p puts t.pool := by
    obtain ⟨puts, hputs⟩ := hs
    obtain ⟨more, hmore⟩ := h.moves
    exact ⟨_, hputs.trans hmore⟩
  refine ⟨fun c d s hs => hends (a.connect_ends rfl) hs,
    fun c d s hs => hends (a.revalidate_ends rfl) hs, ?_⟩
  rintro q key ⟨puts, hputs⟩
  exact ⟨puts, hputs.drop key⟩

/-- **Whatever has happened, the pool has come from the empty one.** -/
theorem Reachable.moves (h : a.Reachable s) : ∃ puts, Pool.Moves {} puts s.pool :=
  h.keeps (a.preserves_moves {}) ⟨[], .rest⟩

/-- The entries of other datasources are left alone. -/
theorem Ends.find?_of_ne (h : a.Ends c d id always s result t)
    (hkey : id.map (Pool.key c.name) ≠ some key) : t.pool.find? key = s.pool.find? key := by
  cases h with
  | invalid h => rfl
  | transient hvalid hid honce h => rw [h.pool]
  | @pooled name e result t hvalid hid he h =>
    have hne : key ≠ Pool.key c.name name := by
      intro heq
      rw [hid, heq] at hkey
      exact hkey rfl
    have henter := s.pool.find?_enter_of_ne d.credential hne
    cases h with
    | kept honce h => rw [h.pool, henter]
    | putBack halways h => rw [Pool.find?_replace_of_ne _ _ hne, h.pool, henter]
    | renewed h => rw [Pool.find?_replace_of_ne _ _ hne, h.pool, henter]
    | halted h => rw [h.pool, henter]

theorem find?_replace_ne (he : s.pool.find? key = some e) (hlt : e.version < s.pool.next)
    (credential : Option Credential) :
    (s.pool.replace key credential).find? key ≠ some e := by
  rw [Pool.replace_of_find? he]
  exact s.pool.find?_store_ne key _ _ hlt

/-- An entry for the credential stays exactly if its token is not renewed and it is not put
back. -/
theorem PooledEnds.find?_iff (h : a.PooledEnds key e always s result t)
    (he : s.pool.find? key = some e) (hlt : e.version < s.pool.next) :
    t.pool.find? key = some e ↔
      ∀ x, result = .ok x → x.refreshed.isSome = false ∧ always = false := by
  cases h with
  | kept honce h =>
    rw [h.pool]
    refine ⟨fun _ x hx => ?_, fun _ => he⟩
    cases hx
    exact ⟨rfl, honce⟩
  | putBack halways h =>
    rw [h.pool]
    refine ⟨fun hsame => absurd hsame (find?_replace_ne he hlt _), fun hall => ?_⟩
    have honce := (hall _ rfl).2
    rw [halways] at honce
    cases honce
  | renewed h =>
    rw [h.pool]
    refine ⟨fun hsame => absurd hsame (find?_replace_ne he hlt _), fun hall => ?_⟩
    cases (hall _ rfl).1
  | halted h =>
    rw [h.pool]
    refine ⟨fun _ x hx => ?_, fun _ => he⟩
    cases hx

/-- **An entry stays exactly if it is for the credential of the datasource, is not renewed
and is not put back.** -/
theorem Ends.find?_iff (h : a.Ends c d (some name) always s result t)
    (he : s.pool.find? (Pool.key c.name name) = some e) (hlt : e.version < s.pool.next) :
    t.pool.find? (Pool.key c.name name) = some e ↔
      (c.validate d = .ok () → e.identity = d.credential.map Credential.identity) ∧
      ∀ x, result = .ok x → x.refreshed.isSome = false ∧ always = false := by
  cases h with
  | invalid h => simp [h, he]
  | transient hvalid hid honce h => cases hid
  | @pooled name entered result t hvalid hid hentered h =>
    cases hid
    by_cases hidentity : e.identity = d.credential.map Credential.identity
    · rw [Pool.enter_of_identity he hidentity] at hentered h
      cases he.symm.trans hentered
      rw [h.find?_iff he hlt]
      exact ⟨fun hall => ⟨fun _ => hidentity, hall⟩, fun hall => hall.2⟩
    · -- the entry is replaced first, and what comes after it brings nothing back
      obtain ⟨puts, hputs⟩ := s.pool.moves_enter (Pool.key c.name name) d.credential
      obtain ⟨more, hmore⟩ := h.moves
      have hgone : (s.pool.enter (Pool.key c.name name) d.credential).find?
          (Pool.key c.name name) ≠ some e := by
        rw [Pool.enter_of_identity_ne he hidentity]
        exact s.pool.find?_store_ne _ _ _ hlt
      have hpast := (hputs.past he hlt hgone).moves hmore
      exact ⟨fun hsame => absurd hsame hpast.find?_ne,
        fun hall => absurd (hall.1 hvalid) hidentity⟩

/-! ### Orders and turns -/

/-- What is ordered of an access, or happens outside of it meanwhile. -/
inductive Order (σ : Type) where
  | meanwhile (outside : σ)
  | connect (c : Connector) (d : Datasource)
  | revalidate (c : Connector) (d : Datasource)
  | connectUncached (c : Connector) (d : Datasource)
  | invalidate (connector datasource : String)

/-- The order asks for a connection to a datasource: with an id for one through the pool, and
`always` if its entry is to be renewed or put back in any case. -/
inductive Order.Asks : Order σ → Connector → Datasource → Option String → Bool → Prop
  | connect (c : Connector) (d : Datasource) : Asks (.connect c d) c d d.id false
  | revalidate (c : Connector) (d : Datasource) : Asks (.revalidate c d) c d d.id d.id.isSome
  | connectUncached (c : Connector) (d : Datasource) : Asks (.connectUncached c d) c d none false

theorem Order.Asks.unique {order : Order σ} {c' : Connector} {d' : Datasource}
    {id' : Option String} {always' : Bool} (h : order.Asks c d id always)
    (h' : order.Asks c' d' id' always') : c' = c ∧ d' = d ∧ id' = id ∧ always' = always := by
  cases h with
  | connect | revalidate | connectUncached =>
    cases h'
    exact ⟨rfl, rfl, rfl, rfl⟩

/-- Only a revalidation renews an entry or puts it back in any case. -/
theorem Order.Asks.revalidates {order : Order σ} (h : order.Asks c d id always)
    (halways : always = true) : order = .revalidate c d := by
  cases h with
  | connect => cases halways
  | revalidate => rfl
  | connectUncached => cases halways

/-- Carries out an order; the connection that is handed out for it, if it asks for one. -/
def perform (a : Access σ) : Order σ → Call σ (Option Connected)
  | .meanwhile outside => do
    modify fun s => { s with outside }
    pure none
  | .connect c d => do
    let x ← a.connect c d
    pure (some x)
  | .revalidate c d => do
    let x ← a.revalidate c d
    pure (some x)
  | .connectUncached c d => do
    let x ← a.connectUncached c d
    pure (some x)
  | .invalidate connector datasource => do
    let _ ← invalidate connector datasource
    pure none

/-- An order, and what came of it in the state before it. -/
structure Turn (σ : Type) where
  order : Order σ
  before : State σ
  outcome : Except Halt (Option Connected)
  after : State σ

/-- The turn of an order that is carried out in this state. -/
def take (a : Access σ) (order : Order σ) (s : State σ) : Turn σ :=
  ⟨order, s, ((a.perform order).run s).1, ((a.perform order).run s).2⟩

namespace Turn

/-- A connection is handed out, from under this key if it goes through the pool. -/
def HandsOut (v : Turn σ) (key : Option String) (x : Connected) : Prop :=
  ∃ c d id always, v.order.Asks c d id always ∧ id.map (Pool.key c.name) = key ∧
    v.outcome = .ok (some x)

/-- Something happens to the entry under the key. -/
inductive Changes (v : Turn σ) (key : String) : Prop
  /-- A valid datasource is connected to with another credential than the entry is for. -/
  | replaced {c : Connector} {d : Datasource} {name : String} {always : Bool}
    (hasks : v.order.Asks c d (some name) always) (hkey : Pool.key c.name name = key)
    (hvalid : c.validate d = .ok ())
    (h : ∀ e, v.before.pool.find? key = some e →
      e.identity ≠ d.credential.map Credential.identity)
  /-- Its token is renewed. -/
  | refreshed {x : Connected} (hout : v.HandsOut (some key) x)
    (h : x.refreshed.isSome = true)
  | revalidated {c : Connector} {d : Datasource} {x : Connected}
    (horder : v.order = .revalidate c d) (hout : v.HandsOut (some key) x)
  | invalidated {connector datasource : String}
    (horder : v.order = .invalidate connector datasource)
    (hkey : Pool.key connector datasource = key)

variable {v : Turn σ}

theorem handsOut_iff_of_asks (hasks : v.order.Asks c d id always) {under : Option String} :
    v.HandsOut under x ↔ id.map (Pool.key c.name) = under ∧ v.outcome = .ok (some x) := by
  constructor
  · rintro ⟨c', d', id', always', hasks', hunder, hout⟩
    obtain ⟨rfl, rfl, rfl, rfl⟩ := hasks.unique hasks'
    exact ⟨hunder, hout⟩
  · rintro ⟨hunder, hout⟩
    exact ⟨c, d, id, always, hasks, hunder, hout⟩

/-- An order that asks for a connection changes nothing under other keys. -/
theorem not_changes_of_asks (hasks : v.order.Asks c d id always)
    (hkey : id.map (Pool.key c.name) ≠ some key) : ¬v.Changes key := by
  intro h
  cases h with
  | replaced hasks' hkey' hvalid hidentity =>
    obtain ⟨rfl, rfl, rfl, rfl⟩ := hasks.unique hasks'
    exact hkey (congrArg some hkey')
  | refreshed hout hsome => exact hkey ((handsOut_iff_of_asks hasks).mp hout).1
  | revalidated horder hout => exact hkey ((handsOut_iff_of_asks hasks).mp hout).1
  | invalidated horder hkey' =>
    rw [horder] at hasks
    cases hasks

/-- What leaves the entry of the datasource as it is: the entry is for its credential, and if
a connection is handed out, then without a new token and without a revalidation. -/
theorem not_changes_iff_of_asks (hasks : v.order.Asks c d (some name) always) :
    ¬v.Changes (Pool.key c.name name) ↔
      (c.validate d = .ok () → ∃ e, v.before.pool.find? (Pool.key c.name name) = some e ∧
        e.identity = d.credential.map Credential.identity) ∧
      ∀ x, v.outcome = .ok (some x) → x.refreshed.isSome = false ∧ always = false := by
  constructor
  · intro hnot
    refine ⟨fun hvalid => ?_, fun x hx => ?_⟩
    · by_cases hentry : ∃ e, v.before.pool.find? (Pool.key c.name name) = some e ∧
        e.identity = d.credential.map Credential.identity
      · exact hentry
      · have hreplaced : v.Changes (Pool.key c.name name) :=
          .replaced hasks rfl hvalid fun e he hidentity => hentry ⟨e, he, hidentity⟩
        exact absurd hreplaced hnot
    · have hout : v.HandsOut (some (Pool.key c.name name)) x :=
        (handsOut_iff_of_asks hasks).mpr ⟨rfl, hx⟩
      constructor
      · cases hsome : x.refreshed.isSome with
        | false => rfl
        | true => exact absurd (.refreshed hout hsome) hnot
      · cases halways : always with
        | false => rfl
        | true => exact absurd (.revalidated (hasks.revalidates halways) hout) hnot
  · rintro ⟨hsame, hkept⟩ hchanges
    cases hchanges with
    | replaced hasks' hkey hvalid hidentity =>
      obtain ⟨rfl, rfl, ⟨⟩, rfl⟩ := hasks.unique hasks'
      obtain ⟨e, he, heq⟩ := hsame hvalid
      exact hidentity e he heq
    | refreshed hout hsome =>
      obtain ⟨hnone, -⟩ := hkept _ ((handsOut_iff_of_asks hasks).mp hout).2
      rw [hsome] at hnone
      cases hnone
    | revalidated horder hout =>
      obtain ⟨-, honce⟩ := hkept _ ((handsOut_iff_of_asks hasks).mp hout).2
      rw [horder] at hasks
      obtain ⟨-, -, hid, halways⟩ := hasks.unique (.revalidate _ _)
      rw [hid, honce] at halways
      cases halways
    | invalidated horder hkey =>
      rw [horder] at hasks
      cases hasks

end Turn

/-- An order that asks for a connection ends as connecting does, and hands out what that
comes to. -/
theorem take_ends {order : Order σ} (hasks : order.Asks c d id always) (s : State σ) :
    ∃ result, a.Ends c d id always s result (a.take order s).after ∧
      ∀ x, (a.take order s).outcome = .ok (some x) ↔ result = .ok x := by
  have hout {call : Call σ Connected} {result : Except Halt Connected} {t : State σ}
      (h : call.run s = (result, t)) :
      ((call >>= fun x => pure (some x)).run s).2 = t ∧
        ∀ x, ((call >>= fun x => pure (some x)).run s).1 = .ok (some x) ↔ result = .ok x := by
    rw [run_bind, h]
    cases result with
    | error halt => simp
    | ok x => simp
  cases hasks with
  | connect =>
    rcases hrun : (a.connect c d).run s with ⟨result, t⟩
    obtain ⟨hafter, houtcome⟩ := hout hrun
    refine ⟨result, ?_, houtcome⟩
    have hends := a.connect_ends hrun
    rw [← hafter] at hends
    exact hends
  | revalidate =>
    rcases hrun : (a.revalidate c d).run s with ⟨result, t⟩
    obtain ⟨hafter, houtcome⟩ := hout hrun
    refine ⟨result, ?_, houtcome⟩
    have hends := a.revalidate_ends hrun
    rw [← hafter] at hends
    exact hends
  | connectUncached =>
    rcases hrun : (a.connectUncached c d).run s with ⟨result, t⟩
    obtain ⟨hafter, houtcome⟩ := hout hrun
    refine ⟨result, ?_, houtcome⟩
    have hends := a.connectUncached_ends hrun
    rw [← hafter] at hends
    exact hends

/-- **Every turn moves the pool on.** -/
theorem take_moves (order : Order σ) (s : State σ) :
    ∃ puts, Pool.Moves s.pool puts (a.take order s).after.pool := by
  have hasked {c : Connector} {d : Datasource} {id : Option String} {always : Bool}
      (hasks : order.Asks c d id always) :
      ∃ puts, Pool.Moves s.pool puts (a.take order s).after.pool := by
    obtain ⟨result, hends, -⟩ := take_ends (a := a) hasks s
    exact hends.moves
  cases order with
  | meanwhile outside => exact ⟨[], .rest⟩
  | connect c d => exact hasked (.connect c d)
  | revalidate c d => exact hasked (.revalidate c d)
  | connectUncached c d => exact hasked (.connectUncached c d)
  | invalidate connector datasource => exact ⟨[], .drop _ .rest⟩

/-- What is handed out from the pool is what the pool has then. -/
theorem take_handsOut {order : Order σ} (h : (a.take order s).HandsOut (some key) x) :
    ∃ e, (a.take order s).after.pool.find? key = some e ∧ e.connection = x.connection := by
  obtain ⟨c, d, id, always, hasks, hkey, hout⟩ := h
  obtain ⟨result, hends, houtcome⟩ := take_ends (a := a) hasks s
  obtain ⟨name, rfl, rfl⟩ := Option.map_eq_some_iff.mp hkey
  rw [(houtcome x).mp hout] at hends
  obtain ⟨e, he, -, hconnection⟩ := hends.entry
  exact ⟨e, he, hconnection⟩

/-- What is handed out past the pool has version zero. -/
theorem take_handsOut_none {order : Order σ} (h : (a.take order s).HandsOut none x) :
    x.connection.version = 0 := by
  obtain ⟨c, d, id, always, hasks, hkey, hout⟩ := h
  obtain ⟨result, hends, houtcome⟩ := take_ends (a := a) hasks s
  rw [Option.map_eq_none_iff.mp hkey] at hends
  exact hends.past_pool.2 x ((houtcome x).mp hout)

/-- Only what was asked for is handed out. -/
theorem handsOut_of_outcome {order : Order σ} (h : (a.take order s).outcome = .ok (some x)) :
    ∃ under, (a.take order s).HandsOut under x := by
  cases order with
  | meanwhile outside => cases h
  | connect c d => exact ⟨_, c, d, _, _, .connect c d, rfl, h⟩
  | revalidate c d => exact ⟨_, c, d, _, _, .revalidate c d, rfl, h⟩
  | connectUncached c d => exact ⟨_, c, d, _, _, .connectUncached c d, rfl, h⟩
  | invalidate connector datasource => cases h

/-- **An entry stays exactly if the turn does not change it.** -/
theorem take_find?_iff {order : Order σ} (he : s.pool.find? key = some e)
    (hlt : e.version < s.pool.next) :
    (a.take order s).after.pool.find? key = some e ↔ ¬(a.take order s).Changes key := by
  have hasked {c : Connector} {d : Datasource} {id : Option String} {always : Bool}
      (hasks : order.Asks c d id always) :
      (a.take order s).after.pool.find? key = some e ↔ ¬(a.take order s).Changes key := by
    obtain ⟨result, hends, houtcome⟩ := take_ends (a := a) hasks s
    by_cases hkey : id.map (Pool.key c.name) = some key
    · obtain ⟨name, rfl, rfl⟩ := Option.map_eq_some_iff.mp hkey
      have hentry : (∃ e', (a.take order s).before.pool.find? (Pool.key c.name name) = some e' ∧
          e'.identity = d.credential.map Credential.identity) ↔
          e.identity = d.credential.map Credential.identity := by
        constructor
        · rintro ⟨e', he', hidentity⟩
          cases he.symm.trans he'
          exact hidentity
        · exact fun hidentity => ⟨e, he, hidentity⟩
      rw [hends.find?_iff he hlt, Turn.not_changes_iff_of_asks hasks, hentry]
      simp only [houtcome]
    · rw [hends.find?_of_ne hkey, he]
      exact ⟨fun _ => Turn.not_changes_of_asks hasks hkey, fun _ => rfl⟩
  cases order with
  | meanwhile outside =>
    refine ⟨fun _ h => ?_, fun _ => he⟩
    cases h with
    | replaced hasks => cases hasks
    | refreshed hout =>
      obtain ⟨c, d, id, always, hasks, -⟩ := hout
      cases hasks
    | revalidated horder => cases horder
    | invalidated horder => cases horder
  | connect c d => exact hasked (.connect c d)
  | revalidate c d => exact hasked (.revalidate c d)
  | connectUncached c d => exact hasked (.connectUncached c d)
  | invalidate connector datasource =>
    have hpool : (a.take (.invalidate connector datasource) s).after.pool =
      s.pool.drop (Pool.key connector datasource) := rfl
    rw [hpool]
    by_cases hkey : key = Pool.key connector datasource
    · rw [hkey, Pool.find?_drop_self]
      have hchanges : (a.take (.invalidate connector datasource) s).Changes
          (Pool.key connector datasource) := .invalidated rfl rfl
      exact ⟨fun h => (by cases h), fun h => absurd hchanges h⟩
    · rw [Pool.find?_drop_of_ne _ hkey, he]
      refine ⟨fun _ h => ?_, fun _ => rfl⟩
      cases h with
      | replaced hasks => cases hasks
      | refreshed hout =>
        obtain ⟨c, d, id, always, hasks, -⟩ := hout
        cases hasks
      | revalidated horder => cases horder
      | invalidated horder hsame =>
        cases horder
        exact hkey hsame.symm

/-! ### Runs -/

variable (a)

/-- Turns that follow one another, from the first state to the last. -/
inductive Run : State σ → List (Turn σ) → State σ → Prop
  | nil (s : State σ) : Run s [] s
  | cons {order : Order σ} {s t : State σ} {turns : List (Turn σ)}
    (h : Run (a.take order s).after turns t) : Run s (a.take order s :: turns) t

variable {a} {turns later : List (Turn σ)} {v : Turn σ}

theorem Run.of_append (h : a.Run s (turns ++ later) t) :
    ∃ u, a.Run s turns u ∧ a.Run u later t := by
  induction turns generalizing s with
  | nil => exact ⟨s, .nil s, h⟩
  | cons v turns ih =>
    cases h with
    | cons h =>
      obtain ⟨u, hturns, hlater⟩ := ih h
      exact ⟨u, .cons hturns, hlater⟩

/-- **A run moves the pool on**, and what is handed out from the pool on the way was put there. -/
theorem Run.moves (h : a.Run s turns t) {puts : List Connection}
    (hs : Pool.Moves {} puts s.pool) :
    ∃ more, Pool.Moves {} (puts ++ more) t.pool ∧
      ∀ v ∈ turns, ∀ key x, v.HandsOut (some key) x → x.connection ∈ puts ++ more := by
  induction h generalizing puts with
  | nil s =>
    refine ⟨[], ?_, fun v hv => nomatch hv⟩
    rw [List.append_nil]
    exact hs
  | @cons order s t turns h ih =>
    obtain ⟨new, hnew⟩ := take_moves (a := a) order s
    have hu := hs.trans hnew
    obtain ⟨more, hmoves, hmem⟩ := ih hu
    refine ⟨new ++ more, ?_, fun v hv key x hout => ?_⟩
    · rw [← List.append_assoc]
      exact hmoves
    · rw [← List.append_assoc]
      rcases List.mem_cons.mp hv with rfl | hv
      · obtain ⟨e, he, hconnection⟩ := take_handsOut hout
        have hmade := hu.made he
        rw [hconnection] at hmade
        exact List.mem_append_left _ hmade
      · exact hmem v hv key x hout

/-- An entry that no turn changes is there at the end. -/
theorem Run.unchanged (h : a.Run s turns t) {puts : List Connection}
    (hs : Pool.Moves {} puts s.pool) (he : s.pool.find? key = some e)
    (hnone : ∀ v ∈ turns, ¬v.Changes key) : t.pool.find? key = some e := by
  induction h generalizing puts with
  | nil s => exact he
  | @cons order s t turns h ih =>
    obtain ⟨new, hnew⟩ := take_moves (a := a) order s
    have hkept := (take_find?_iff he (hs.version_made he).2).mpr (hnone _ List.mem_cons_self)
    exact ih (hs.trans hnew) hkept fun v hv => hnone v (List.mem_cons_of_mem _ hv)

/-- What is past stays past. -/
theorem Run.past (h : a.Run s turns t) {version : Nat} (hpast : s.pool.Past key version) :
    t.pool.Past key version := by
  induction h with
  | nil s => exact hpast
  | @cons order s t turns h ih =>
    obtain ⟨new, hnew⟩ := take_moves (a := a) order s
    exact ih (hpast.moves hnew)

/-- The version of an entry that some turn changes is past at the end. -/
theorem Run.changed (h : a.Run s turns t) {puts : List Connection}
    (hs : Pool.Moves {} puts s.pool) (he : s.pool.find? key = some e)
    (hsome : ∃ v ∈ turns, v.Changes key) : t.pool.Past key e.version := by
  induction h generalizing puts with
  | nil s =>
    obtain ⟨v, hv, -⟩ := hsome
    cases hv
  | @cons order s t turns h ih =>
    obtain ⟨new, hnew⟩ := take_moves (a := a) order s
    have hlt := (hs.version_made he).2
    by_cases hchanges : (a.take order s).Changes key
    · have hgone : (a.take order s).after.pool.find? key ≠ some e :=
        fun hsame => (take_find?_iff he hlt).mp hsame hchanges
      exact h.past (hnew.past he hlt hgone)
    · obtain ⟨v, hv, hlater⟩ := hsome
      rcases List.mem_cons.mp hv with rfl | hv
      · exact absurd hlater hchanges
      · have hkept := (take_find?_iff he hlt).mpr hchanges
        exact ih (hs.trans hnew) hkept ⟨v, hv, hlater⟩

/-! ### Versions -/

/-- Two connections that were put into the pool under one version are the same. -/
theorem eq_of_ascending {puts : List Connection}
    (h : puts.Pairwise fun x y => x.version < y.version) {x y : Connection} (hx : x ∈ puts)
    (hy : y ∈ puts) (hversion : x.version = y.version) : x = y := by
  induction h with
  | nil => cases hx
  | cons hall _ ih =>
    rcases List.mem_cons.mp hx with rfl | hx'
    · rcases List.mem_cons.mp hy with rfl | hy'
      · rfl
      · have hlt := hall y hy'
        omega
    · rcases List.mem_cons.mp hy with rfl | hy'
      · have hlt := hall x hx'
        omega
      · exact ih hx' hy'

/-- What the versions of a run tell. -/
structure Versioned (turns : List (Turn σ)) : Prop where
  /-- What a turn puts into the pool has higher versions than all that was put there before
  it, and that is all that was handed out from there before it. -/
  ascending : ∀ before v rest, turns = before ++ v :: rest → ∃ earlier puts,
    Pool.Moves {} earlier v.before.pool ∧ Pool.Moves v.before.pool puts v.after.pool ∧
    (earlier ++ puts).Pairwise (fun x y => x.version < y.version) ∧
    ∀ u ∈ before, ∀ key x, u.HandsOut (some key) x → x.connection ∈ earlier
  /-- Connections of one version have one credential. -/
  names : ∀ v ∈ turns, ∀ w ∈ turns, ∀ x y, v.outcome = .ok (some x) → w.outcome = .ok (some y) →
    x.connection.version = y.connection.version → x.connection.version ≠ 0 →
    x.connection.credential = y.connection.credential
  /-- Only past the pool connections have version zero. -/
  transient : ∀ v ∈ turns, ∀ under x, v.HandsOut under x →
    (x.connection.version = 0 ↔ under = none)
  /-- Under one key versions do not go down, and stay exactly while nothing changes the
  entry. -/
  monotone : ∀ key before v between w rest, turns = before ++ v :: between ++ w :: rest →
    ∀ x y, v.HandsOut (some key) x → w.HandsOut (some key) y →
    x.connection.version ≤ y.connection.version ∧
      (x.connection.version = y.connection.version ↔ ∀ u ∈ between ++ [w], ¬u.Changes key)

theorem Run.take_of_mem (h : a.Run s turns t) (hv : v ∈ turns) :
    ∃ order u, v = a.take order u := by
  induction h with
  | nil s => cases hv
  | @cons order s t turns h ih =>
    rcases List.mem_cons.mp hv with rfl | hv
    · exact ⟨order, s, rfl⟩
    · exact ih hv

theorem Run.ascending {outside : σ} (h : a.Run { outside } turns t) {before : List (Turn σ)}
    {v : Turn σ} {rest : List (Turn σ)} (hturns : turns = before ++ v :: rest) :
    ∃ earlier puts, Pool.Moves {} earlier v.before.pool ∧
      Pool.Moves v.before.pool puts v.after.pool ∧
      (earlier ++ puts).Pairwise (fun x y => x.version < y.version) ∧
      ∀ u ∈ before, ∀ key x, u.HandsOut (some key) x → x.connection ∈ earlier := by
  rw [hturns] at h
  obtain ⟨u, hbefore, hrest⟩ := h.of_append
  obtain ⟨earlier, hearlier, hmem⟩ := hbefore.moves .rest
  rw [List.nil_append] at hearlier hmem
  cases hrest with
  | @cons order u t rest hrest =>
    obtain ⟨puts, hputs⟩ := take_moves (a := a) order u
    exact ⟨earlier, puts, hearlier, hputs, (hearlier.trans hputs).ascending, hmem⟩

theorem Run.transient {outside : σ} (h : a.Run { outside } turns t) (hv : v ∈ turns)
    {under : Option String} (hout : v.HandsOut under x) :
    x.connection.version = 0 ↔ under = none := by
  cases under with
  | none =>
    obtain ⟨order, u, rfl⟩ := h.take_of_mem hv
    exact ⟨fun _ => rfl, fun _ => take_handsOut_none hout⟩
  | some key =>
    obtain ⟨puts, hputs, hmem⟩ := h.moves .rest
    have hpositive : 0 < x.connection.version := (hputs.version_mem (hmem v hv key x hout)).1
    refine ⟨fun hzero => ?_, fun h => by cases h⟩
    omega

theorem Run.names {outside : σ} (h : a.Run { outside } turns t) {w : Turn σ} (hv : v ∈ turns)
    (hw : w ∈ turns) {y : Connected} (hx : v.outcome = .ok (some x))
    (hy : w.outcome = .ok (some y)) (hversion : x.connection.version = y.connection.version)
    (hpooled : x.connection.version ≠ 0) : x.connection = y.connection := by
  obtain ⟨puts, hputs, hmem⟩ := h.moves .rest
  have hput {v : Turn σ} {x : Connected} (hv : v ∈ turns) (hx : v.outcome = .ok (some x))
      (hpooled : x.connection.version ≠ 0) : x.connection ∈ [] ++ puts := by
    obtain ⟨order, u, rfl⟩ := h.take_of_mem hv
    obtain ⟨under, hout⟩ := handsOut_of_outcome hx
    cases under with
    | none => exact absurd (take_handsOut_none hout) hpooled
    | some key => exact hmem _ hv key x hout
  exact eq_of_ascending hputs.ascending (hput hv hx hpooled)
    (hput hw hy (hversion ▸ hpooled)) hversion

theorem Run.monotone {outside : σ} (h : a.Run { outside } turns t)
    {before between rest : List (Turn σ)} {v w : Turn σ}
    (hturns : turns = before ++ v :: between ++ w :: rest) {y : Connected}
    (hx : v.HandsOut (some key) x) (hy : w.HandsOut (some key) y) :
    x.connection.version ≤ y.connection.version ∧
      (x.connection.version = y.connection.version ↔
        ∀ u ∈ between ++ [w], ¬u.Changes key) := by
  have hsplit : turns = before ++ v :: ((between ++ [w]) ++ rest) := by
    rw [hturns]
    simp
  rw [hsplit] at h
  obtain ⟨u, hbefore, hrest⟩ := h.of_append
  obtain ⟨earlier, hearlier, -⟩ := hbefore.moves .rest
  cases hrest with
  | @cons order u t rest' hrest =>
    obtain ⟨puts, hputs⟩ := take_moves (a := a) order u
    have hmade := hearlier.trans hputs
    obtain ⟨e, he, hconnection⟩ := take_handsOut hx
    obtain ⟨z, hpassed, -⟩ := hrest.of_append
    obtain ⟨m, hbetween, hlast⟩ := hpassed.of_append
    cases hlast with
    | @cons order' m z turns' hnil =>
      cases hnil
      obtain ⟨e', he', hconnection'⟩ := take_handsOut hy
      have hxe : x.connection.version = e.version := by
        rw [← hconnection]
        rfl
      have hye : y.connection.version = e'.version := by
        rw [← hconnection']
        rfl
      rw [hxe, hye]
      by_cases hchanged : ∃ v ∈ between ++ [a.take order' m], v.Changes key
      · have hpast := hpassed.changed hmade he hchanged
        have hlt := hpast.2 e' he'
        obtain ⟨v, hv, hchanges⟩ := hchanged
        refine ⟨Nat.le_of_lt hlt, fun heq => absurd heq (Nat.ne_of_lt hlt), fun hnone => ?_⟩
        exact absurd hchanges (hnone v hv)
      · have hnone : ∀ v ∈ between ++ [a.take order' m], ¬v.Changes key :=
          fun v hv hchanges => hchanged ⟨v, hv, hchanges⟩
        have hsame := hpassed.unchanged hmade he hnone
        cases he'.symm.trans hsame
        exact ⟨Nat.le_refl _, fun _ => hnone, fun _ => rfl⟩

/-- **Versions name credentials**, in every run of an access from an empty pool. -/
theorem versions_name_credentials {outside : σ} (h : a.Run { outside } turns t) :
    Versioned turns where
  ascending := fun _ _ _ hturns => h.ascending hturns
  names := fun _ hv _ hw _ _ hx hy hversion hpooled =>
    congrArg Connection.credential (h.names hv hw hx hy hversion hpooled)
  transient := fun _ hv _ _ hout => h.transient hv hout
  monotone := fun _ _ _ _ _ _ hturns _ _ hx hy => h.monotone hturns hx hy

/-- The version of the connection that a turn hands out. -/
def Turn.version? (v : Turn σ) : Option Nat :=
  match v.outcome with
  | .ok (some x) => some x.connection.version
  | _ => none

/-- A client is connected to twice and revalidated: its token is fetched at first, is at hand
then, and is fetched anew. -/
theorem versions_name_credentials_unserved : ∃ turns t, issuing.Run { outside := () } turns t ∧
    turns.map Turn.version? = [some 2, some 2, some 3] ∧ Versioned turns := by
  let v := issuing.take (.connect anyone unserved) { outside := () }
  let w := issuing.take (.connect anyone unserved) v.after
  let z := issuing.take (.revalidate anyone unserved) w.after
  have hrun : issuing.Run { outside := () } [v, w, z] z.after := .cons (.cons (.cons (.nil _)))
  exact ⟨_, _, hrun, rfl, versions_name_credentials hrun⟩

end Access

end Relay
