/-
# Versions while calls overlap

Every step of a call does one of eight things to what is shared. From these follows what holds
between calls at any time: the versions given so far are all below the next, what a call is yet
to put into the pool nobody has put there, and every cell that a call or the table knows was
entered under its key and holds what was put there. So however calls overlap, a version is
given once, and names one credential.

Key definitions: `Stage.cell?`, `Stage.pending?`, `Does`, `Leaves`, `Sound`, `Moves`.
Key theorems: `step_does`, `Sound.leaves`, `move?_moves`, `Sound.moves`, `Reaches.sound`.
-/
import Relay.Proofs.Chronicle
import Relay.Proofs.Renewal

namespace Relay.Overlap

open Call

variable {σ : Type} {a : Access σ} {m m' : Shared σ} {i j : Nat} {e : Errand} {v : Visit}
  {stage stage' : Stage} {cell : Cell} {key : String} {c x : Connection}

/-! ### What a step does -/

namespace Stage

/-- The cell that the call works on. -/
def cell? : Stage → Option Cell
  | .entered cell | .loaded cell _ _ | .waiting cell _ | .holding cell _ | .fetching cell _
  | .fetched cell _ | .renewing cell _ _ | .releasing cell _ | .keeping cell | .kept cell _
  | .puttingBack cell _ _ | .ending cell _ => some cell
  | _ => none

/-- What the call has given a version, and not yet put into the pool. -/
def pending? : Stage → Option Connection
  | .made _ e => some e.connection
  | .renewing _ version renewed => some ⟨version, some renewed⟩
  | .puttingBack _ version credential => some ⟨version, credential⟩
  | _ => none

theorem isOpen_of_cell? (h : stage.cell? = some cell) : stage.isOpen = true := by
  cases stage <;> first | rfl | cases h

theorem isOpen_of_pending? (h : stage.pending? = some c) : stage.isOpen = true := by
  cases stage <;> first | rfl | cases h

theorem ne_missing_of_cell? (h : stage.cell? = some cell) (key : String) :
    stage ≠ .missing key := by
  rintro rfl
  cases h

theorem ne_made_of_cell? (h : stage.cell? = some cell) (other : Cell) (entry : Pool.Entry) :
    stage ≠ .made other entry := by
  rintro rfl
  cases h

theorem ne_made_of_pending? (h : stage.pending? = none) (other : Cell) (entry : Pool.Entry) :
    stage ≠ .made other entry := by
  rintro rfl
  cases h

end Stage

/-- The call finds the cell of its credential under its key. -/
def Errand.Finds (e : Errand) (m : Shared σ) (cell : Cell) : Prop :=
  ∃ v key, e = .connect v ∧ v.key? = some key ∧ m.look key v.identity = some cell

/-- What a step does that leads from this stage: it notes nothing, and finds a cell in the
table if it has a new one; or it notes one thing. -/
inductive Does (i : Nat) (e : Errand) (m : Shared σ) (stage : Stage) :
    Stage → Shared σ → Prop
  | quiet {stage' : Stage} {outside : σ} {locked : Cell → Bool}
    (hcell : ∀ cell, stage'.cell? = some cell → stage.cell? = some cell ∨ e.Finds m cell)
    (hpending : stage'.pending? = none)
    (hmissing : ∀ key, stage' = .missing key → e.key? = some key) :
    Does i e m stage stage' { m with outside, locked }
  | handedOwn {x : Connected} {outside : σ} (hx : x.connection.version = 0) :
    Does i e m stage (.done (.ok (some x)))
      (Shared.note { m with outside } i (.handed none x.connection))
  | dropped {key : String} (he : e = .drop key) :
    Does i e m stage (.done (.ok none)) (m.drop i key)
  | made {key : String} {identity credential : Option Credential}
    (hstage : stage = .missing key) :
    Does i e m stage (.made ⟨key, m.next⟩ ⟨identity, m.next, credential⟩)
      (m.version i credential)
  | entered {cell : Cell} {entry : Pool.Entry} (hstage : stage = .made cell entry)
    (hlook : ∀ v, e = .connect v → m.look cell.key v.identity = none) :
    Does i e m stage (.entered cell) (m.enter i cell entry)
  | versioned {cell : Cell} {credential : Option Credential} {stage' : Stage}
    (hcell : stage.cell? = some cell) (hcell' : stage'.cell? = some cell)
    (hpending : stage'.pending? = some ⟨m.next, credential⟩) :
    Does i e m stage stage' (m.version i credential)
  | wrote {cell : Cell} {cause : Cause} {c : Connection} {stage' : Stage}
    (hcell : stage.cell? = some cell) (hpending : stage.pending? = some c)
    (hcell' : stage'.cell? = some cell) (hpending' : stage'.pending? = none) :
    Does i e m stage stage' (m.write i cell cause c)
  | handed {cell : Cell} {refreshed : Option Credential} (hcell : stage.cell? = some cell) :
    Does i e m stage (.done (.ok (some ⟨(m.cells cell).connection, refreshed⟩)))
      (m.note i (.handed (some cell.key) (m.cells cell).connection))

/-- A step to a stage on the same cell, or on none, that notes nothing. -/
theorem Does.stay {outside : σ} {locked : Cell → Bool} (hpending : stage'.pending? = none)
    (hmissing : ∀ key, stage' ≠ .missing key)
    (hcell : ∀ cell, stage'.cell? = some cell → stage.cell? = some cell) :
    Does i e m stage stage' { m with outside, locked } :=
  .quiet (fun cell h => .inl (hcell cell h)) hpending fun key h => absurd h (hmissing key)

theorem Does.settled (refreshed : Option Credential) {locked : Cell → Bool}
    (hcell : stage.cell? = some cell) :
    Does i e m stage (v.settled cell refreshed) { m with locked } := by
  unfold Visit.settled
  split
  · exact .stay rfl (fun key h => by cases h) fun _ h => h ▸ hcell
  · exact .stay rfl (fun key h => by cases h) fun _ h => h ▸ hcell

theorem look_eq_some {identity : Option Credential} (h : m.look key identity = some cell) :
    m.table.find? key = some cell ∧ (m.cells cell).identity = identity := by
  obtain ⟨found, hfound, hsame⟩ := Option.bind_eq_some_iff.mp h
  split at hsame
  · cases hsame
    exact ⟨hfound, by assumption⟩
  · cases hsame

theorem look_of_find? {identity : Option Credential} (hfound : m.table.find? key = some cell)
    (hown : (m.cells cell).identity = identity) : m.look key identity = some cell :=
  Option.bind_eq_some_iff.mpr ⟨cell, hfound, if_pos hown⟩

theorem handOwn_does (outside : σ) {done : Stage × Shared σ}
    {credential refreshed : Option Credential}
    (h : Visit.handOwn i { m with outside } credential refreshed = done) :
    Does i e m stage done.1 done.2 := by
  subst h
  exact .handedOwn (x := ⟨⟨0, credential⟩, refreshed⟩) rfl

theorem begin_does {begun : Stage × Shared σ} (h : v.begin i m = begun) :
    Does i (.connect v) m .start begun.1 begun.2 := by
  subst h
  unfold Visit.begin
  split
  · split
    · exact .stay rfl (fun key h => by cases h) fun _ h => by cases h
    · exact handOwn_does m.outside rfl
  · rename_i name hid
    have hkey : v.key? = some (Pool.key v.connector.name name) := by
      simp [Visit.key?, hid]
    split
    · rename_i found hlook
      refine .quiet (fun cell h => .inr ?_) rfl fun key h => by cases h
      cases h
      exact ⟨v, _, rfl, hkey, hlook⟩
    · refine .quiet (fun cell h => by cases h) rfl fun key h => ?_
      cases h
      exact hkey

/-- **What a step does.** -/
theorem step_does (hmade : ∀ cell entry, stage = .made cell entry → e.key? = some cell.key)
    (h : e.step a i m stage = some (stage', m')) : Does i e m stage stage' m' := by
  have stay {outside : σ} {locked : Cell → Bool} (hpending : stage'.pending? = none)
      (hmissing : ∀ key, stage' ≠ .missing key)
      (hcell : ∀ cell, stage'.cell? = some cell → stage.cell? = some cell) :
      Does i e m stage stage' { m with outside, locked } := .stay hpending hmissing hcell
  cases e with
  | drop key =>
    cases stage with
    | start =>
      cases h
      exact .dropped rfl
    | _ => cases h
  | connect v =>
    have hstep : v.step a i m stage = some (stage', m') := h
    cases stage with
    | start =>
      rw [Visit.step] at hstep
      split at hstep
      · cases hstep
        exact stay rfl (fun _ h => by cases h) fun _ h => by cases h
      · exact begin_does (Option.some.inj hstep)
    | missing key =>
      cases hstep
      exact .made rfl
    | made cell entry =>
      have hkey := hmade cell entry rfl
      rw [Visit.step] at hstep
      split at hstep
      · rename_i present hlook
        cases hstep
        refine .quiet (fun cell h => .inr ?_) rfl fun key h => by cases h
        cases h
        exact ⟨v, _, rfl, hkey, hlook⟩
      · rename_i hlook
        cases hstep
        refine .entered rfl fun w hw => ?_
        cases hw
        exact hlook
    | entered cell =>
      rw [Visit.step] at hstep
      split at hstep
      · split at hstep
        all_goals
          cases hstep
          exact stay rfl (fun _ h => by cases h) fun _ h => h
      · cases hstep
        exact .settled none rfl
    | loaded cell client version =>
      rw [Visit.step] at hstep
      split at hstep
      · cases hstep
        exact stay rfl (fun _ h => by cases h) fun _ h => by cases h
      · cases hstep
        exact stay rfl (fun _ h => by cases h) fun _ h => h
      · cases hstep
        exact .settled none rfl
    | waiting cell version =>
      rw [Visit.step] at hstep
      split at hstep
      · cases hstep
      · cases hstep
        exact stay rfl (fun _ h => by cases h) fun _ h => h
    | holding cell version =>
      rw [Visit.step] at hstep
      split at hstep
      · cases hstep
        exact stay rfl (fun _ h => by cases h) fun _ h => h
      · split at hstep
        all_goals
          cases hstep
          exact stay rfl (fun _ h => by cases h) fun _ h => h
    | fetching cell credential =>
      rw [Visit.step] at hstep
      split at hstep
      all_goals
        cases hstep
        exact stay rfl (fun _ h => by cases h) fun _ h => h
    | fetched | kept =>
      cases hstep
      exact .versioned rfl rfl rfl
    | renewing | puttingBack =>
      cases hstep
      exact .wrote rfl rfl rfl rfl
    | releasing cell result =>
      cases result with
      | error halt =>
        cases hstep
        exact stay rfl (fun _ h => by cases h) fun _ h => by cases h
      | ok refreshed =>
        cases hstep
        exact .settled refreshed rfl
    | keeping cell =>
      cases hstep
      exact stay rfl (fun _ h => by cases h) fun _ h => h
    | ending cell refreshed =>
      cases hstep
      exact .handed rfl
    | transient client =>
      rw [Visit.step] at hstep
      split at hstep
      · cases hstep
        exact stay rfl (fun _ h => by cases h) fun _ h => by cases h
      · cases hstep
        exact stay rfl (fun _ h => by cases h) fun _ h => by cases h
      · exact handOwn_does m.outside (Option.some.inj hstep)
    | transientDue client =>
      rw [Visit.step] at hstep
      split at hstep
      · cases hstep
        exact stay rfl (fun _ h => by cases h) fun _ h => by cases h
      · exact handOwn_does _ (Option.some.inj hstep)
    | done result => cases hstep
    | abandoned => cases hstep

/-! ### What always holds -/

namespace Shared

/-- The cell was entered under its key, and what it holds was put there. -/
def Shows (m : Shared σ) (cell : Cell) : Prop :=
  (∃ c, Put m.record cell.key c ∧ c.version = cell.first) ∧
    Put m.record cell.key (m.cells cell).connection

/-- The call has given this its version, and nothing of this version was put into the pool. -/
def Pending (m : Shared σ) (i : Nat) (c : Connection) : Prop :=
  Given m.record i c ∧ ∀ key x, Put m.record key x → x.version ≠ c.version

theorem lay_self (cell : Cell) (entry : Pool.Entry) : m.lay cell entry cell = entry := if_pos rfl

theorem lay_of_ne {other : Cell} (h : other ≠ cell) (entry : Pool.Entry) :
    m.lay cell entry other = m.cells other := if_neg h

end Shared

/-- A call that has got this far fits what is shared. -/
structure Fits (m : Shared σ) (i : Nat) (t : Task) : Prop where
  shown : ∀ cell, t.stage.cell? = some cell → t.errand.key? = some cell.key ∧ m.Shows cell
  pending : ∀ c, t.stage.pending? = some c → m.Pending i c
  missing : ∀ key, t.stage = .missing key → t.errand.key? = some key
  made : ∀ cell entry, t.stage = .made cell entry →
    t.errand.key? = some cell.key ∧ entry.version = cell.first

/-- A call that knows of nothing fits. -/
theorem Fits.of_none {t : Task} (hcell : t.stage.cell? = none) (hpending : t.stage.pending? = none)
    (hmissing : ∀ key, t.stage ≠ .missing key) : Fits m i t where
  shown := fun cell h => by
    rw [hcell] at h
    cases h
  pending := fun c h => by
    rw [hpending] at h
    cases h
  missing := fun key h => absurd h (hmissing key)
  made := fun other entry h => absurd h (Stage.ne_made_of_pending? hpending other entry)

/-- What holds at any time, however calls overlap. -/
structure Sound (s : System σ) : Prop where
  noted : Noted Rule s.shared.record
  positive : 0 < s.shared.next
  given : ∀ i c, Given s.shared.record i c → c.version < s.shared.next
  table : ∀ key cell, s.shared.table.find? key = some cell →
    cell.key = key ∧ s.shared.Shows cell
  tasks : ∀ i t, s.tasks[i]? = some t → Fits s.shared i t

section

variable {s s' : System σ}

theorem Sound.put_lt (h : Sound s) (hput : Put s.shared.record key c) :
    c.version < s.shared.next := by
  obtain ⟨i, hgiven⟩ := h.noted.given_of_put hput
  exact h.given i c hgiven

/-- What is pending in another call has another version. -/
theorem Sound.pending_ne (h : Sound s) (hc : s.shared.Pending i c) (hx : s.shared.Pending j x)
    (hij : j ≠ i) : c.version ≠ x.version :=
  fun hversion => hij (h.noted.given_unique hc.1 hx.1 hversion).1.symm

/-- A new entry lies in a cell of its own. -/
theorem Shared.Shows.cell_ne {entry : Pool.Entry} {other : Cell} (hother : m.Shows other)
    (hpending : m.Pending i entry.connection) (hfirst : entry.version = cell.first) :
    other ≠ cell := by
  rintro rfl
  obtain ⟨⟨c, hput, hversion⟩, -⟩ := hother
  exact hpending.2 _ c hput (hversion.trans hfirst.symm)

/-- What a step of one call leaves of what was known. -/
structure Leaves (i : Nat) (m m' : Shared σ) : Prop where
  shown : ∀ cell, m.Shows cell → m'.Shows cell
  pending : ∀ j c, j ≠ i → m.Pending j c → m'.Pending j c

/-- A step that puts nothing into the pool leaves everything. -/
theorem Leaves.of_put_iff (hcells : m'.cells = m.cells)
    (hput : ∀ key c, Put m'.record key c ↔ Put m.record key c)
    (hgiven : ∀ j c, Given m.record j c → Given m'.record j c) : Leaves i m m' where
  shown := fun cell h => by
    unfold Shared.Shows at h ⊢
    simpa only [hcells, hput] using h
  pending := fun j c _ h => ⟨hgiven j c h.1, fun key x hx => h.2 key x ((hput key x).mp hx)⟩

/-- A step that puts in what was pending in its call leaves the rest. -/
theorem Sound.leaves_of_put (h : Sound s) {cause : Cause} (hpending : s.shared.Pending i c)
    (hrecord : m'.record = (i, .put key cause c) :: s.shared.record)
    (hcells : ∀ other, s.shared.Shows other → m'.cells other = s.shared.cells other ∨
      other.key = key ∧ (m'.cells other).connection = c) : Leaves i s.shared m' where
  shown := fun other hother => by
    obtain ⟨⟨x, hx, hversion⟩, hlast⟩ := hother
    refine ⟨⟨x, ?_, hversion⟩, ?_⟩
    · rw [hrecord, put_put]
      exact .inr hx
    · rw [hrecord, put_put]
      rcases hcells other ⟨⟨x, hx, hversion⟩, hlast⟩ with hsame | hnew
      · rw [hsame]
        exact .inr hlast
      · exact .inl hnew
  pending := fun j x hj hx => by
    refine ⟨?_, fun other y hy => ?_⟩
    · rw [hrecord]
      exact given_put.mpr hx.1
    · rw [hrecord, put_put] at hy
      rcases hy with ⟨-, rfl⟩ | hy
      · exact h.pending_ne hpending hx hj
      · exact hx.2 other y hy

theorem cells_enter (m : Shared σ) (i : Nat) (cell : Cell) (entry : Pool.Entry) :
    (m.enter i cell entry).cells cell = entry := m.lay_self cell entry

theorem cells_write (m : Shared σ) (i : Nat) (cell : Cell) (cause : Cause) (c : Connection) :
    (m.write i cell cause c).cells cell =
      { m.cells cell with version := c.version, credential := c.credential } := m.lay_self cell _

/-- **What a step leaves to the other calls.** -/
theorem Sound.leaves (h : Sound s) {t : Task} (ht : s.tasks[i]? = some t)
    (hdoes : Does i t.errand s.shared t.stage stage' m') : Leaves i s.shared m' := by
  have hfits := h.tasks i t ht
  cases hdoes with
  | quiet => exact ⟨fun _ h => h, fun _ _ _ h => h⟩
  | handedOwn => exact .of_put_iff rfl (fun _ _ => put_handed) fun _ _ h => given_handed.mpr h
  | dropped => exact .of_put_iff rfl (fun _ _ => put_dropped) fun _ _ h => given_dropped.mpr h
  | handed => exact .of_put_iff rfl (fun _ _ => put_handed) fun _ _ h => given_handed.mpr h
  | made | versioned =>
    exact .of_put_iff rfl (fun _ _ => put_versioned) fun _ _ h => given_versioned.mpr (.inr h)
  | @entered cell entry hstage hlook =>
    have hpending := hfits.pending entry.connection (by rw [hstage]; rfl)
    have hfirst := (hfits.made cell entry hstage).2
    refine h.leaves_of_put hpending rfl fun other hother => .inl ?_
    exact s.shared.lay_of_ne (hother.cell_ne hpending hfirst) entry
  | @wrote cell cause c stage' hcell hpending hcell' hpending' =>
    refine h.leaves_of_put (hfits.pending c hpending) rfl fun other hother => ?_
    by_cases heq : other = cell
    · subst heq
      refine .inr ⟨rfl, ?_⟩
      rw [cells_write]
      rfl
    · exact .inl (s.shared.lay_of_ne heq _)

theorem Fits.of_leaves {t : Task} (hleaves : Leaves i m m') (hj : j ≠ i) (h : Fits m j t) :
    Fits m' j t where
  shown := fun cell hcell => ⟨(h.shown cell hcell).1, hleaves.shown cell (h.shown cell hcell).2⟩
  pending := fun c hc => hleaves.pending j c hj (h.pending c hc)
  missing := h.missing
  made := h.made

/-- The record of a step keeps the rule. -/
theorem Sound.noted_does (h : Sound s) {t : Task} (ht : s.tasks[i]? = some t)
    (hdoes : Does i t.errand s.shared t.stage stage' m') : Noted Rule m'.record := by
  have hfits := h.tasks i t ht
  cases hdoes with
  | quiet => exact h.noted
  | handedOwn hx => exact ⟨hx, h.noted⟩
  | dropped => exact ⟨trivial, h.noted⟩
  | made => exact ⟨⟨h.positive, h.given⟩, h.noted⟩
  | versioned => exact ⟨⟨h.positive, h.given⟩, h.noted⟩
  | @entered cell entry hstage hlook =>
    exact ⟨hfits.pending entry.connection (by rw [hstage]; rfl), h.noted⟩
  | wrote hcell hpending => exact ⟨hfits.pending _ hpending, h.noted⟩
  | handed hcell => exact ⟨(hfits.shown _ hcell).2.2, h.noted⟩

/-- The versions given stay below the next. -/
theorem Sound.given_does (h : Sound s)
    (hdoes : Does i e s.shared stage stage' m') :
    0 < m'.next ∧ ∀ j c, Given m'.record j c → c.version < m'.next := by
  have hold := And.intro h.positive h.given
  have hversion (credential : Option Credential) : 0 < s.shared.next + 1 ∧
      ∀ j c, Given (s.shared.version i credential).record j c → c.version < s.shared.next + 1 := by
    refine ⟨Nat.succ_pos _, fun j c hc => ?_⟩
    rcases given_versioned.mp hc with ⟨-, rfl⟩ | hc
    · exact Nat.lt_succ_self _
    · exact Nat.lt_succ_of_lt (h.given j c hc)
  cases hdoes with
  | quiet => exact hold
  | made | versioned => exact hversion _
  | handedOwn | handed => exact ⟨hold.1, fun j c hc => hold.2 j c (given_handed.mp hc)⟩
  | dropped => exact ⟨hold.1, fun j c hc => hold.2 j c (given_dropped.mp hc)⟩
  | entered | wrote => exact ⟨hold.1, fun j c hc => hold.2 j c (given_put.mp hc)⟩

/-- A cell that has just been entered shows what was put there. -/
theorem enter_shows (m : Shared σ) {entry : Pool.Entry} (hfirst : entry.version = cell.first) :
    (m.enter i cell entry).Shows cell := by
  have hput : Put (m.enter i cell entry).record cell.key entry.connection :=
    put_put.mpr (.inl ⟨rfl, rfl⟩)
  refine ⟨⟨entry.connection, hput, hfirst⟩, ?_⟩
  rw [cells_enter]
  exact hput

/-- The cell of a call after a step is the one that it had, or found, or entered. -/
theorem Does.cell? (hdoes : Does i e m stage stage' m') (hcell : stage'.cell? = some cell) :
    stage.cell? = some cell ∨ e.Finds m cell ∨
      ∃ entry, stage = .made cell entry ∧ m' = m.enter i cell entry := by
  cases hdoes with
  | quiet hkept =>
    rcases hkept cell hcell with hsame | hfinds
    · exact .inl hsame
    · exact .inr (.inl hfinds)
  | handedOwn | dropped | made | handed => cases hcell
  | entered hstage =>
    cases hcell
    exact .inr (.inr ⟨_, hstage, rfl⟩)
  | versioned hsame hcell' =>
    cases hcell'.symm.trans hcell
    exact .inl hsame
  | wrote hsame hpending hcell' =>
    cases hcell'.symm.trans hcell
    exact .inl hsame

/-- What the table has after a step it had before, or was entered by it. -/
theorem Does.find? (hdoes : Does i e m stage stage' m') (hfound : m'.table.find? key = some cell) :
    m.table.find? key = some cell ∨
      cell.key = key ∧ ∃ entry, stage = .made cell entry ∧ m' = m.enter i cell entry := by
  cases hdoes with
  | quiet | handedOwn | made | versioned | wrote | handed => exact .inl hfound
  | @dropped other hkey =>
    have herase : (m.table.erase other).find? key = some cell := hfound
    by_cases heq : key = other
    · rw [heq, Table.find?_erase_self] at herase
      cases herase
    · rw [Table.find?_erase_of_ne _ heq] at herase
      exact .inl herase
  | @entered new entry hstage hlook =>
    have hinsert : (m.table.insert new.key new).find? key = some cell := hfound
    by_cases heq : key = new.key
    · rw [heq, Table.find?_insert_self] at hinsert
      cases hinsert
      exact .inr ⟨heq.symm, entry, hstage, rfl⟩
    · rw [Table.find?_insert_of_ne _ _ heq] at hinsert
      exact .inl hinsert

/-- The table knows cells that were entered under their keys. -/
theorem Sound.table_does (h : Sound s) {t : Task} (ht : s.tasks[i]? = some t)
    (hdoes : Does i t.errand s.shared t.stage stage' m')
    (hfound : m'.table.find? key = some cell) : cell.key = key ∧ m'.Shows cell := by
  rcases hdoes.find? hfound with hold | ⟨hkey, entry, hstage, rfl⟩
  · obtain ⟨hkey, hshows⟩ := h.table key cell hold
    exact ⟨hkey, (h.leaves ht hdoes).shown cell hshows⟩
  · exact ⟨hkey, enter_shows s.shared ((h.tasks i t ht).made cell entry hstage).2⟩

/-- The call that takes the step fits what is shared after it. -/
theorem Sound.fits_does (h : Sound s) {t : Task} (ht : s.tasks[i]? = some t)
    (hdoes : Does i t.errand s.shared t.stage stage' m') :
    Fits m' i { t with stage := stage' } := by
  have hfits := h.tasks i t ht
  have hleaves := h.leaves ht hdoes
  -- a cell that the call had already is shown as before
  have hkept {cell : Cell} (hcell : t.stage.cell? = some cell)
      (hcell' : stage'.cell? = some cell) (other : Cell) (hother : stage'.cell? = some other) :
      t.errand.key? = some other.key ∧ m'.Shows other := by
    cases hcell'.symm.trans hother
    exact ⟨(hfits.shown cell hcell).1, hleaves.shown cell (hfits.shown cell hcell).2⟩
  -- nothing of a version that has just been given is in the pool
  have hnew (credential : Option Credential) :
      (s.shared.version i credential).Pending i ⟨s.shared.next, credential⟩ :=
    ⟨given_versioned.mpr (.inl ⟨rfl, rfl⟩), fun other x hx =>
      Nat.ne_of_lt (h.put_lt (put_versioned.mp hx))⟩
  cases hdoes with
  | quiet hcell hpending hmissing =>
    refine ⟨fun cell hcell' => ?_, fun c hc => ?_, hmissing,
      fun cell entry hmade => absurd hmade (Stage.ne_made_of_pending? hpending cell entry)⟩
    · rcases hcell cell hcell' with hsame | ⟨v, key, he, hkey, hlook⟩
      · exact hfits.shown cell hsame
      · obtain ⟨rfl, hshows⟩ := h.table key cell (look_eq_some hlook).1
        rw [he]
        exact ⟨hkey, hshows⟩
    · cases hpending.symm.trans hc
  | handedOwn | dropped | handed => exact .of_none rfl rfl fun _ h => by cases h
  | @made key identity credential hstage =>
    refine ⟨fun _ h => (by cases h), fun c hc => ?_, fun _ h => (by cases h),
      fun cell entry hmade => ?_⟩
    · cases hc
      exact hnew credential
    · cases hmade
      exact ⟨hfits.missing key hstage, rfl⟩
  | @entered cell entry hstage hlook =>
    obtain ⟨hkey, hfirst⟩ := hfits.made cell entry hstage
    refine ⟨fun other hother => ?_, fun _ h => (by cases h), fun _ h => (by cases h),
      fun _ _ h => (by cases h)⟩
    cases hother
    exact ⟨hkey, enter_shows s.shared hfirst⟩
  | @versioned cell credential stage' hcell hcell' hpending =>
    refine ⟨hkept hcell hcell', fun c hc => ?_,
      fun key hmissing => absurd hmissing (Stage.ne_missing_of_cell? hcell' key),
      fun other entry hmade => absurd hmade (Stage.ne_made_of_cell? hcell' other entry)⟩
    cases hpending.symm.trans hc
    exact hnew credential
  | @wrote cell cause c stage' hcell hpending hcell' hpending' =>
    refine ⟨hkept hcell hcell', fun c hc => ?_,
      fun key hmissing => absurd hmissing (Stage.ne_missing_of_cell? hcell' key),
      fun other entry hmade => absurd hmade (Stage.ne_made_of_cell? hcell' other entry)⟩
    cases hpending'.symm.trans hc

/-! ### Runs -/

/-- What a move does: one call takes a step, or nothing is noted, and every call is as it was,
before its start, or given up. -/
inductive Moves (a : Access σ) (s : System σ) : System σ → Prop
  | step {i : Nat} {t : Task} {stage' : Stage} {m' : Shared σ} (ht : s.tasks[i]? = some t)
    (hstep : t.errand.step a i s.shared t.stage = some (stage', m')) :
    Moves a s ⟨m', s.tasks.set i { t with stage := stage' }⟩
  | rest {outside : σ} {locked : Cell → Bool} {tasks : List Task}
    (hlocked : locked = s.shared.locked ∨
      ∃ (i : Nat) (t : Task) (cell : Cell) (credential : Credential), s.tasks[i]? = some t ∧
        t.stage = .fetching cell credential ∧ locked = (s.shared.setLock cell false).locked ∧
        tasks = s.tasks.set i { t with stage := .abandoned })
    (htasks : ∀ (j : Nat) (u : Task), tasks[j]? = some u →
      s.tasks[j]? = some u ∨ u.stage = .start ∨ u.stage = .abandoned) :
    Moves a s ⟨{ s.shared with outside, locked }, tasks⟩

theorem getElem?_set_cases {tasks : List Task} {t u : Task}
    (h : (tasks.set i t)[j]? = some u) : (j = i ∧ u = t) ∨ (j ≠ i ∧ tasks[j]? = some u) := by
  rw [List.getElem?_set] at h
  split at h
  · rename_i hij
    split at h
    · cases h
      exact .inl ⟨hij.symm, rfl⟩
    · cases h
  · rename_i hij
    exact .inr ⟨Ne.symm hij, h⟩

theorem abandon?_eq_some (h : stage.abandon? m = some m') :
    m' = m ∨ ∃ cell credential, stage = .fetching cell credential ∧ m' = m.setLock cell false := by
  cases stage with
  | start | waiting cell version | transientDue client =>
    cases h
    exact .inl rfl
  | fetching cell credential =>
    cases h
    exact .inr ⟨cell, credential, rfl, rfl⟩
  | _ => cases h

theorem go_eq_some (h : s.move? a (.go i) = some s') :
    ∃ t stage' m', s.tasks[i]? = some t ∧
      t.errand.step a i s.shared t.stage = some (stage', m') ∧
      s' = ⟨m', s.tasks.set i { t with stage := stage' }⟩ := by
  obtain ⟨t, ht, hrest⟩ := Option.bind_eq_some_iff.mp h
  obtain ⟨⟨stage', m'⟩, hstep, hdone⟩ := Option.bind_eq_some_iff.mp hrest
  cases hdone
  exact ⟨t, stage', m', ht, hstep, rfl⟩

theorem abandon_eq_some (h : s.move? a (.abandon i) = some s') :
    ∃ t m', s.tasks[i]? = some t ∧ t.stage.abandon? s.shared = some m' ∧
      s' = ⟨m', s.tasks.set i { t with stage := .abandoned }⟩ := by
  obtain ⟨t, ht, hrest⟩ := Option.bind_eq_some_iff.mp h
  obtain ⟨m', hm', hdone⟩ := Option.bind_eq_some_iff.mp hrest
  cases hdone
  exact ⟨t, m', ht, hm', rfl⟩

theorem move?_moves {w : Move σ} (h : s.move? a w = some s') : Moves a s s' := by
  cases w with
  | meanwhile outside =>
    cases h
    exact .rest (.inl rfl) fun j u hu => .inl hu
  | call e =>
    cases h
    refine .rest (.inl rfl) fun j u hu => ?_
    rw [List.getElem?_append] at hu
    split at hu
    · exact .inl hu
    · have hmem := List.mem_of_getElem? hu
      rw [List.mem_singleton.mp hmem]
      exact .inr (.inl rfl)
  | go i =>
    obtain ⟨t, stage', m', ht, hstep, rfl⟩ := go_eq_some h
    exact .step ht hstep
  | abandon i =>
    obtain ⟨t, m', ht, hm', rfl⟩ := abandon_eq_some h
    have htasks (j : Nat) (u : Task)
        (hu : (s.tasks.set i { t with stage := .abandoned })[j]? = some u) :
        s.tasks[j]? = some u ∨ u.stage = .start ∨ u.stage = .abandoned := by
      rcases getElem?_set_cases hu with ⟨-, rfl⟩ | ⟨-, hu⟩
      · exact .inr (.inr rfl)
      · exact .inl hu
    rcases abandon?_eq_some hm' with rfl | ⟨cell, credential, hstage, rfl⟩
    · exact .rest (.inl rfl) htasks
    · exact .rest (.inr ⟨i, t, cell, credential, ht, hstage, rfl, rfl⟩) htasks

theorem Stage.of_idle (h : stage = .start ∨ stage = .abandoned) :
    stage.cell? = none ∧ stage.pending? = none ∧ ∀ key, stage ≠ .missing key := by
  rcases h with rfl | rfl
  all_goals exact ⟨rfl, rfl, fun key h => by cases h⟩

theorem Fits.of_idle {t : Task} (h : t.stage = .start ∨ t.stage = .abandoned) : Fits m i t := by
  obtain ⟨hcell, hpending, hmissing⟩ := Stage.of_idle h
  exact .of_none hcell hpending hmissing

/-- What a step does to a sound system. -/
theorem Sound.does (h : Sound s) {t : Task} (ht : s.tasks[i]? = some t)
    (hstep : t.errand.step a i s.shared t.stage = some (stage', m')) :
    Does i t.errand s.shared t.stage stage' m' :=
  step_does (fun cell entry hmade => ((h.tasks i t ht).made cell entry hmade).1) hstep

/-- **What every move keeps.** -/
theorem Sound.moves (h : Sound s) (hmoves : Moves a s s') : Sound s' := by
  cases hmoves with
  | @step i t stage' m' ht hstep =>
    have hdoes := h.does ht hstep
    obtain ⟨hpositive, hgiven⟩ := h.given_does hdoes
    refine ⟨h.noted_does ht hdoes, hpositive, hgiven, fun key cell hfound =>
      h.table_does ht hdoes hfound, fun j u hu => ?_⟩
    rcases getElem?_set_cases hu with ⟨rfl, rfl⟩ | ⟨hj, hu⟩
    · exact h.fits_does ht hdoes
    · exact (h.tasks j u hu).of_leaves (h.leaves ht hdoes) hj
  | @rest outside locked tasks hlocked htasks =>
    refine ⟨h.noted, h.positive, h.given, h.table, fun j u hu => ?_⟩
    rcases htasks j u hu with hold | hidle
    · have hfits := h.tasks j u hold
      exact ⟨hfits.shown, hfits.pending, hfits.missing, hfits.made⟩
    · exact .of_idle hidle

theorem Sound.empty (outside : σ) : Sound { shared := { outside } } where
  noted := trivial
  positive := Nat.one_pos
  given := fun _ _ h => by cases h
  table := fun _ _ h => by cases h
  tasks := fun _ _ h => by cases h

/-- **However calls overlap, the system stays sound.** -/
theorem Reaches.sound {P : System σ → Prop} (h : Reaches a P s) : Sound s := by
  induction h with
  | start outside => exact .empty outside
  | move h hmove hp ih => exact ih.moves (move?_moves hmove)

theorem Reaches.holds {P : System σ → Prop} (h : Reaches a P s)
    (hstart : ∀ outside, P { shared := { outside } }) : P s := by
  cases h with
  | start outside => exact hstart outside
  | move h hmove hp => exact hp

end

end Relay.Overlap
