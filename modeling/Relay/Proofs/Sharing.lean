/-
# What calls know of the cells they share

A cell is made for one credential and never holds another, but for a token; so a call that
has got hold of it finds there the credential that it was made for. Tokens are renewed under the
lock of the cell, which one call at a time holds; other credentials are put back without a lock.

Key definitions: `Shared.Holds`, `Visit.Suits`, `Stage.lock?`, `Locks`, `Suited`, `Guarded`.
Key theorems: `Visit.step_suits`, `step_locks`, `Suited.moves`, `Guarded.moves`,
`Suited.pending_cases`.
-/
import Relay.Proofs.Overlapping

namespace Relay

namespace Credential

@[simp] theorem kindOf_map_identity (x : Option Credential) :
    kindOf (x.map identity) = kindOf x := by
  cases x with
  | none => rfl
  | some credential => cases credential <;> rfl

theorem exists_of_kindOf {x : Option Credential} (h : kindOf x = .oauth) :
    ∃ client, x = some (.oauth client) := by
  cases x with
  | none => cases h
  | some credential =>
    cases credential with
    | oauth client => exact ⟨client, rfl⟩
    | none | bearer | basic | apiKey => cases h

end Credential

namespace Overlap

open Call

variable {σ : Type} {a : Access σ} {m m' : Shared σ} {i j : Nat} {e : Errand} {v : Visit}
  {stage stage' : Stage} {cell : Cell} {key : String} {c x : Connection} {s s' : System σ}
  {identity : Option Credential}

/-! ### Credentials -/

/-- The cell is for credentials of this identity, and has one. -/
structure Shared.Holds (m : Shared σ) (cell : Cell) (identity : Option Credential) : Prop where
  own : (m.cells cell).identity = identity
  credential : (m.cells cell).credential.map Credential.identity = identity

theorem Shared.Holds.kindOf (h : m.Holds cell identity) :
    Credential.kindOf (m.cells cell).credential = Credential.kindOf identity := by
  rw [← h.credential, Credential.kindOf_map_identity]

/-- What is laid there has the identity. -/
theorem Shared.Holds.of_cells {entry : Pool.Entry} (hcells : m.cells cell = entry)
    (hidentity : entry.identity = identity)
    (hcredential : entry.credential.map Credential.identity = identity) :
    m.Holds cell identity := by
  subst hcells
  exact ⟨hidentity, hcredential⟩

namespace Visit

/-- At this stage a visit has its own credential in hand, and goes the way of its kind. -/
def Suits (v : Visit) : Stage → Prop
  | .made _ e => e.identity = v.identity ∧ e.credential.map Credential.identity = v.identity
  | .loaded _ _ _ => Credential.kindOf v.identity = .oauth ∧ v.always = false
  | .waiting _ _ | .holding _ _ => Credential.kindOf v.identity = .oauth
  | .fetching _ credential | .fetched _ credential | .renewing _ _ credential =>
    Credential.kindOf v.identity = .oauth ∧ some credential.identity = v.identity
  | .releasing _ (.ok none) => Credential.kindOf v.identity = .oauth ∧ v.always = false
  | .keeping _ => Credential.kindOf v.identity ≠ .oauth ∧ v.always = true
  | .kept _ credential | .puttingBack _ _ credential =>
    (Credential.kindOf v.identity ≠ .oauth ∧ v.always = true) ∧
      credential.map Credential.identity = v.identity
  | _ => True

theorem suits_settled {refreshed : Option Credential}
    (h : v.always = true → refreshed = none → Credential.kindOf v.identity ≠ .oauth) :
    v.Suits (v.settled cell refreshed) := by
  unfold settled
  split
  · rename_i hkeep
    obtain ⟨halways, hnone⟩ := Bool.and_eq_true_iff.mp hkeep
    exact ⟨h halways (Option.isNone_iff_eq_none.mp hnone), halways⟩
  · trivial

theorem suits_begin : v.Suits (v.begin i m).1 := by
  unfold begin handOwn
  split
  · split <;> trivial
  · split <;> trivial

/-- What is pending has the identity of the visit. -/
theorem Suits.identity_pending (h : v.Suits stage) (hpending : stage.pending? = some c) :
    c.credential.map Credential.identity = v.identity := by
  cases stage with
  | made | renewing | puttingBack =>
    cases hpending
    exact h.2
  | _ => cases hpending

/-- **A step keeps to the credential.** -/
theorem step_suits (h : v.Suits stage)
    (hcell : ∀ cell, stage.cell? = some cell → m.Holds cell v.identity)
    (hstep : v.step a i m stage = some (stage', m')) : v.Suits stage' := by
  cases stage with
  | start =>
    rw [step] at hstep
    split at hstep
    · cases hstep
      trivial
    · have hbegin : v.begin i m = (stage', m') := Option.some.inj hstep
      have hsuits : v.Suits (v.begin i m).1 := suits_begin
      rw [hbegin] at hsuits
      exact hsuits
  | missing key =>
    cases hstep
    exact ⟨rfl, rfl⟩
  | made cell entry =>
    rw [step] at hstep
    split at hstep
    all_goals
      cases hstep
      trivial
  | entered cell =>
    have hkind := (hcell cell rfl).kindOf
    rw [step] at hstep
    split at hstep
    · rename_i client hclient
      rw [hclient] at hkind
      split at hstep
      · cases hstep
        exact hkind.symm
      · rename_i halways
        cases hstep
        exact ⟨hkind.symm, Bool.not_eq_true _ ▸ halways⟩
    · rename_i hother
      cases hstep
      refine suits_settled fun _ _ hoauth => ?_
      obtain ⟨client, hclient⟩ := Credential.exists_of_kindOf (hkind.trans hoauth)
      exact hother client hclient
  | loaded cell client version =>
    obtain ⟨hkind, honce⟩ := h
    rw [step] at hstep
    split at hstep
    · cases hstep
      trivial
    · cases hstep
      exact hkind
    · cases hstep
      exact suits_settled fun halways => absurd (honce.symm.trans halways) Bool.false_ne_true
  | waiting cell version =>
    rw [step] at hstep
    split at hstep
    · cases hstep
    · cases hstep
      exact h
  | holding cell version =>
    have hkind : Credential.kindOf v.identity = .oauth := h
    rw [step] at hstep
    split at hstep
    · rename_i hrenewed
      cases hstep
      exact ⟨hkind, hrenewed.2⟩
    · split at hstep
      · rename_i hnone
        have hnot := (hcell cell rfl).kindOf
        rw [hnone, hkind] at hnot
        cases hnot
      · rename_i credential hcredential
        have hsame := (hcell cell rfl).credential
        rw [hcredential] at hsame
        cases hstep
        exact ⟨hkind, hsame⟩
  | fetching cell credential =>
    obtain ⟨hkind, hsame⟩ := h
    rw [step] at hstep
    split at hstep
    · cases hstep
      trivial
    · cases hstep
      exact ⟨hkind, (congrArg some (Credential.identity_withToken _ credential)).trans hsame⟩
  | fetched cell renewed | kept cell renewed =>
    cases hstep
    exact h
  | renewing | puttingBack | ending =>
    cases hstep
    trivial
  | releasing cell result =>
    cases result with
    | error halt =>
      cases hstep
      trivial
    | ok refreshed =>
      cases hstep
      cases refreshed with
      | none =>
        obtain ⟨-, honce⟩ := h
        exact suits_settled fun halways => absurd (honce.symm.trans halways) Bool.false_ne_true
      | some renewed => exact suits_settled fun _ hnone => by cases hnone
  | keeping cell =>
    cases hstep
    exact ⟨h, (hcell cell rfl).credential⟩
  | transient client | transientDue client =>
    rw [step] at hstep
    split at hstep
    all_goals
      cases hstep
      trivial
  | done result => cases hstep
  | abandoned => cases hstep

end Visit

/-- A call suits what is shared: one that connects has a cell of its credential. -/
inductive Task.Suits (m : Shared σ) : Task → Prop
  | connect {v : Visit} {stage : Stage} (hsuits : v.Suits stage)
    (hcell : ∀ cell, stage.cell? = some cell → m.Holds cell v.identity) :
    Task.Suits m ⟨.connect v, stage⟩
  | drop {key : String} {stage : Stage} (hcell : stage.cell? = none)
    (hpending : stage.pending? = none) : Task.Suits m ⟨.drop key, stage⟩

/-- Every cell that is known has a credential of the identity that it is for. -/
structure Suited (s : System σ) : Prop where
  table : ∀ key cell, s.shared.table.find? key = some cell →
    s.shared.Holds cell (s.shared.cells cell).identity
  tasks : ∀ (i : Nat) (t : Task), s.tasks[i]? = some t → t.Suits s.shared

/-- What is pending in a call has the identity of its cell. -/
theorem Task.Suits.of_wrote {t : Task} (h : t.Suits m) (hcell : t.stage.cell? = some cell)
    (hpending : t.stage.pending? = some c) :
    ∃ v, t.errand = .connect v ∧ m.Holds cell v.identity ∧
      c.credential.map Credential.identity = v.identity := by
  cases h with
  | @connect v stage hsuits hcells =>
    exact ⟨v, rfl, hcells cell hcell, hsuits.identity_pending hpending⟩
  | drop hnone =>
    rw [hnone] at hcell
    cases hcell

theorem Suited.visit (h : Suited s) {t : Task} (ht : s.tasks[i]? = some t)
    (he : t.errand = .connect v) :
    v.Suits t.stage ∧ ∀ cell, t.stage.cell? = some cell → s.shared.Holds cell v.identity := by
  obtain ⟨errand, stage⟩ := t
  cases h.tasks i _ ht with
  | connect hsuits hcell =>
    cases he
    exact ⟨hsuits, hcell⟩
  | drop hcell hpending => cases he

/-- A cell that was entered keeps to its identity. -/
theorem Suited.holds_does (h : Suited s) (hsound : Sound s) {t : Task}
    (ht : s.tasks[i]? = some t) (hdoes : Does i t.errand s.shared t.stage stage' m')
    (hshows : s.shared.Shows cell) (hcell : s.shared.Holds cell identity) :
    m'.Holds cell identity := by
  cases hdoes with
  | quiet | handedOwn | dropped | made | versioned | handed => exact ⟨hcell.own, hcell.credential⟩
  | @entered new entry hstage =>
    have hfits := hsound.tasks i t ht
    have hne := hshows.cell_ne (hfits.pending entry.connection (by rw [hstage]; rfl))
      (hfits.made new entry hstage).2
    have hsame := s.shared.lay_of_ne hne entry
    exact .of_cells hsame hcell.own hcell.credential
  | @wrote written cause c stage' hwritten hpending =>
    obtain ⟨v, -, hheld, hsame⟩ := (h.tasks i t ht).of_wrote hwritten hpending
    by_cases heq : cell = written
    · subst heq
      have hidentity : v.identity = identity := hheld.own.symm.trans hcell.own
      exact .of_cells (s.shared.lay_self cell _) hcell.own (hsame.trans hidentity)
    · exact .of_cells (s.shared.lay_of_ne heq _) hcell.own hcell.credential

/-- A new entry that is entered has the identity of the call. -/
theorem enter_holds (m : Shared σ) {entry : Pool.Entry} (hsuits : v.Suits (.made cell entry)) :
    (m.enter i cell entry).Holds cell v.identity :=
  .of_cells (cells_enter m i cell entry) hsuits.1 hsuits.2

/-- The cells that the table has after a step. -/
theorem Suited.table_does (h : Suited s) (hsound : Sound s) {t : Task}
    (ht : s.tasks[i]? = some t) (hdoes : Does i t.errand s.shared t.stage stage' m')
    (hfound : m'.table.find? key = some cell) : m'.Holds cell (m'.cells cell).identity := by
  have of_holds {identity : Option Credential} (hheld : m'.Holds cell identity) :
      m'.Holds cell (m'.cells cell).identity :=
    ⟨rfl, hheld.credential.trans hheld.own.symm⟩
  rcases hdoes.find? hfound with hold | ⟨-, entry, hstage, rfl⟩
  · exact of_holds
      (h.holds_does hsound ht hdoes (hsound.table key cell hold).2 (h.table key cell hold))
  · obtain ⟨errand, stage⟩ := t
    subst hstage
    cases h.tasks i _ ht with
    | connect hsuits hcell => exact of_holds (enter_holds s.shared hsuits)
    | drop hcell hpending => cases hpending

/-- The call that takes the step suits what is shared after it. -/
theorem Suited.suits_does (h : Suited s) (hsound : Sound s) {t : Task}
    (ht : s.tasks[i]? = some t)
    (hstep : t.errand.step a i s.shared t.stage = some (stage', m')) :
    Task.Suits m' { t with stage := stage' } := by
  have hdoes := hsound.does ht hstep
  have hfits := hsound.tasks i t ht
  obtain ⟨errand, stage⟩ := t
  cases h.tasks i _ ht with
  | @drop key stage hcell hpending =>
    cases stage with
    | start =>
      cases hstep
      exact .drop rfl rfl
    | _ => cases hstep
  | @connect v stage hsuits hcell =>
    refine .connect (v.step_suits hsuits hcell hstep) fun cell hcell' => ?_
    rcases hdoes.cell? hcell' with hsame | ⟨w, key, hw, hkey, hlook⟩ | ⟨entry, hmade, rfl⟩
    · exact h.holds_does hsound ht hdoes (hfits.shown cell hsame).2 (hcell cell hsame)
    · cases hw
      obtain ⟨hfound, hidentity⟩ := look_eq_some hlook
      have hheld := h.table key cell hfound
      rw [hidentity] at hheld
      exact h.holds_does hsound ht hdoes (hsound.table key cell hfound).2 hheld
    · have hstage : stage = .made cell entry := hmade
      subst hstage
      exact enter_holds s.shared hsuits

theorem Task.Suits.of_idle {t : Task} (h : t.stage = .start ∨ t.stage = .abandoned) :
    t.Suits m := by
  obtain ⟨errand, stage⟩ := t
  cases errand with
  | connect v =>
    refine .connect ?_ fun cell hcell => ?_
    · rcases h with rfl | rfl <;> trivial
    · cases (Stage.of_idle h).1.symm.trans hcell
  | drop key => exact .drop (Stage.of_idle h).1 (Stage.of_idle h).2.1

/-- A task suits what is shared as long as its cell is kept. -/
theorem Task.Suits.of_holds {t : Task} (h : t.Suits m)
    (hholds : ∀ cell identity, t.stage.cell? = some cell → m.Holds cell identity →
      m'.Holds cell identity) : t.Suits m' := by
  cases h with
  | connect hsuits hcell =>
    exact .connect hsuits fun cell h => hholds cell _ h (hcell cell h)
  | drop hcell hpending => exact .drop hcell hpending

/-- **Calls keep to the credentials of their cells.** -/
theorem Suited.moves (h : Suited s) (hsound : Sound s) (hmoves : Moves a s s') : Suited s' := by
  cases hmoves with
  | @step i t stage' m' ht hstep =>
    have hdoes := hsound.does ht hstep
    refine ⟨fun key cell hfound => h.table_does hsound ht hdoes hfound, fun j u hu => ?_⟩
    rcases getElem?_set_cases hu with ⟨rfl, rfl⟩ | ⟨hj, hu⟩
    · exact h.suits_does hsound ht hstep
    · exact (h.tasks j u hu).of_holds fun cell identity hcell hheld =>
        h.holds_does hsound ht hdoes ((hsound.tasks j u hu).shown cell hcell).2 hheld
  | @rest outside locked tasks hlocked htasks =>
    refine ⟨fun key cell hfound => ?_, fun j u hu => ?_⟩
    · exact ⟨rfl, (h.table key cell hfound).credential⟩
    · rcases htasks j u hu with hold | hidle
      · exact (h.tasks j u hold).of_holds fun cell identity _ hheld =>
          ⟨hheld.own, hheld.credential⟩
      · exact .of_idle hidle

theorem Reaches.suited {P : System σ → Prop} (h : Reaches a P s) : Suited s := by
  induction h with
  | start outside => exact ⟨fun _ _ h => (by cases h), fun _ _ h => (by cases h)⟩
  | move h hmove hp ih => exact ih.moves h.sound (move?_moves hmove)

/-! ### Locks -/

/-- The cell whose lock the call holds. -/
def Stage.lock? : Stage → Option Cell
  | .holding cell _ | .fetching cell _ | .fetched cell _ | .renewing cell _ _
  | .releasing cell _ => some cell
  | _ => none

/-- What a step from this stage does to the locks. -/
inductive Locks (m : Shared σ) (stage : Stage) : Stage → Shared σ → Prop
  | stay {stage' : Stage} {m' : Shared σ} (hlock : stage'.lock? = stage.lock?)
    (hlocked : m'.locked = m.locked) : Locks m stage stage' m'
  | take {cell : Cell} {stage' : Stage} {m' : Shared σ} (hfree : m.locked cell = false)
    (hlock : stage'.lock? = some cell) (hlocked : m'.locked = (m.setLock cell true).locked) :
    Locks m stage stage' m'
  | release {cell : Cell} {stage' : Stage} {m' : Shared σ} (hheld : stage.lock? = some cell)
    (hlock : stage'.lock? = none) (hlocked : m'.locked = (m.setLock cell false).locked) :
    Locks m stage stage' m'

theorem lock?_settled (refreshed : Option Credential) :
    (v.settled cell refreshed).lock? = none := by
  unfold Visit.settled
  split <;> rfl

theorem begin_locks : Locks m .start (v.begin i m).1 (v.begin i m).2 := by
  unfold Visit.begin Visit.handOwn
  split
  · split <;> exact .stay rfl rfl
  · split <;> exact .stay rfl rfl

theorem step_locks (h : e.step a i m stage = some (stage', m')) : Locks m stage stage' m' := by
  cases e with
  | drop key =>
    cases stage with
    | start =>
      cases h
      exact .stay rfl rfl
    | _ => cases h
  | connect v =>
    have hstep : v.step a i m stage = some (stage', m') := h
    cases stage with
    | start =>
      rw [Visit.step] at hstep
      split at hstep
      · cases hstep
        exact .stay rfl rfl
      · have hbegin : v.begin i m = (stage', m') := Option.some.inj hstep
        have hlocks : Locks m .start (v.begin i m).1 (v.begin i m).2 := begin_locks
        rw [hbegin] at hlocks
        exact hlocks
    | waiting cell version =>
      rw [Visit.step] at hstep
      split at hstep
      · cases hstep
      · rename_i hfree
        cases hstep
        exact .take (Bool.not_eq_true _ ▸ hfree) rfl rfl
    | releasing cell result =>
      cases result with
      | error halt =>
        cases hstep
        exact .release rfl rfl rfl
      | ok refreshed =>
        cases hstep
        exact .release rfl (lock?_settled refreshed) rfl
    | entered cell =>
      rw [Visit.step] at hstep
      split at hstep
      · split at hstep
        all_goals
          cases hstep
          exact .stay rfl rfl
      · cases hstep
        exact .stay (lock?_settled none) rfl
    | loaded cell client version =>
      rw [Visit.step] at hstep
      split at hstep
      · cases hstep
        exact .stay rfl rfl
      · cases hstep
        exact .stay rfl rfl
      · cases hstep
        exact .stay (lock?_settled none) rfl
    | holding cell version =>
      rw [Visit.step] at hstep
      split at hstep
      · cases hstep
        exact .stay rfl rfl
      · split at hstep
        all_goals
          cases hstep
          exact .stay rfl rfl
    | made cell entry | fetching cell credential =>
      rw [Visit.step] at hstep
      split at hstep
      all_goals
        cases hstep
        exact .stay rfl rfl
    | transient client | transientDue client =>
      rw [Visit.step] at hstep
      split at hstep
      all_goals
        cases hstep
        exact .stay rfl rfl
    | missing | fetched | renewing | keeping | kept | puttingBack | ending =>
      cases hstep
      exact .stay rfl rfl
    | done result => cases hstep
    | abandoned => cases hstep

theorem locked_setLock (m : Shared σ) (cell other : Cell) (held : Bool) :
    (m.setLock cell held).locked other = if other = cell then held else m.locked other := rfl

/-- The call of this number holds the lock of the cell. -/
def System.LockedBy (s : System σ) (i : Nat) (cell : Cell) : Prop :=
  ∃ t, s.tasks[i]? = some t ∧ t.stage.lock? = some cell

/-- One call at a time holds the lock of a cell. -/
structure Guarded (s : System σ) : Prop where
  locked : ∀ i cell, s.LockedBy i cell → s.shared.locked cell = true
  alone : ∀ i j cell, s.LockedBy i cell → s.LockedBy j cell → i = j

theorem Guarded.stay (h : Guarded s) (hlocked : s'.shared.locked = s.shared.locked)
    (hby : ∀ j cell, s'.LockedBy j cell → s.LockedBy j cell) : Guarded s' where
  locked := fun j cell hj => by
    rw [hlocked]
    exact h.locked j cell (hby j cell hj)
  alone := fun j k cell hj hk => h.alone j k cell (hby j cell hj) (hby k cell hk)

theorem Guarded.take (i : Nat) (h : Guarded s) (hfree : s.shared.locked cell = false)
    (hlocked : s'.shared.locked = (s.shared.setLock cell true).locked)
    (hby : ∀ j other, s'.LockedBy j other → (j = i ∧ other = cell) ∨ s.LockedBy j other) :
    Guarded s' where
  locked := fun j other hj => by
    rw [hlocked, locked_setLock]
    split
    · rfl
    · rename_i hne
      rcases hby j other hj with ⟨-, heq⟩ | hold
      · exact absurd heq hne
      · exact h.locked j other hold
  alone := fun j k other hj hk => by
    -- nobody has held the lock that was free
    have hnot (l : Nat) : ¬s.LockedBy l cell := fun hl =>
      Bool.false_ne_true (hfree.symm.trans (h.locked l cell hl))
    rcases hby j other hj with ⟨rfl, rfl⟩ | hj'
    · rcases hby k other hk with ⟨rfl, -⟩ | hk'
      · rfl
      · exact absurd hk' (hnot k)
    · rcases hby k other hk with ⟨rfl, rfl⟩ | hk'
      · exact absurd hj' (hnot j)
      · exact h.alone j k other hj' hk'

theorem Guarded.release (h : Guarded s) (hheld : s.LockedBy i cell)
    (hlocked : s'.shared.locked = (s.shared.setLock cell false).locked)
    (hby : ∀ j other, s'.LockedBy j other → j ≠ i ∧ s.LockedBy j other) : Guarded s' where
  locked := fun j other hj => by
    obtain ⟨hne, hold⟩ := hby j other hj
    rw [hlocked, locked_setLock]
    split
    · rename_i heq
      rw [heq] at hold
      exact absurd (h.alone j i cell hold hheld) hne
    · exact h.locked j other hold
  alone := fun j k other hj hk => h.alone j k other (hby j other hj).2 (hby k other hk).2

/-- Who holds a lock after the call `i` has got to another stage. -/
theorem lockedBy_set {t : Task} {cell : Cell}
    (h : System.LockedBy ⟨m', s.tasks.set i { t with stage := stage' }⟩ j cell) :
    (j = i ∧ stage'.lock? = some cell) ∨ (j ≠ i ∧ s.LockedBy j cell) := by
  obtain ⟨u, hu, hlock⟩ := h
  rcases getElem?_set_cases hu with ⟨rfl, rfl⟩ | ⟨hj, hu⟩
  · exact .inl ⟨rfl, hlock⟩
  · exact .inr ⟨hj, u, hu, hlock⟩

/-- **Every move keeps the locks.** -/
theorem Guarded.moves (h : Guarded s) (hmoves : Moves a s s') : Guarded s' := by
  cases hmoves with
  | @step i t stage' m' ht hstep =>
    cases step_locks hstep with
    | stay hlock hlocked =>
      refine h.stay hlocked fun j cell hj => ?_
      rcases lockedBy_set hj with ⟨rfl, hsame⟩ | ⟨-, hold⟩
      · exact ⟨t, ht, hlock.symm.trans hsame⟩
      · exact hold
    | take hfree hlock hlocked =>
      refine h.take i hfree hlocked fun j other hj => ?_
      rcases lockedBy_set hj with ⟨rfl, hsame⟩ | ⟨-, hold⟩
      · cases hlock.symm.trans hsame
        exact .inl ⟨rfl, rfl⟩
      · exact .inr hold
    | release hheld hlock hlocked =>
      refine h.release ⟨t, ht, hheld⟩ hlocked fun j other hj => ?_
      rcases lockedBy_set hj with ⟨rfl, hsame⟩ | ⟨hne, hold⟩
      · cases hlock.symm.trans hsame
      · exact ⟨hne, hold⟩
  | @rest outside locked tasks hlocked htasks =>
    rcases hlocked with hsame | ⟨i, t, cell, credential, ht, hstage, hreleased, hset⟩
    · refine h.stay hsame fun j cell hj => ?_
      obtain ⟨u, hu, hlock⟩ := hj
      rcases htasks j u hu with hold | hidle | hidle
      · exact ⟨u, hold, hlock⟩
      · rw [hidle] at hlock
        cases hlock
      · rw [hidle] at hlock
        cases hlock
    · subst hset
      have hheld : t.stage.lock? = some cell := by rw [hstage]; rfl
      refine h.release ⟨t, ht, hheld⟩ hreleased fun j other hj => ?_
      rcases lockedBy_set hj with ⟨rfl, hnone⟩ | ⟨hne, hold⟩
      · cases hnone
      · exact ⟨hne, hold⟩

theorem Reaches.guarded {P : System σ → Prop} (h : Reaches a P s) : Guarded s := by
  induction h with
  | start outside =>
    have hnone (i : Nat) (cell : Cell) :
        ¬System.LockedBy { shared := { outside : Shared σ } } i cell := by
      rintro ⟨t, ht, -⟩
      cases ht
    exact ⟨fun i cell h => absurd h (hnone i cell), fun i j cell h => absurd h (hnone i cell)⟩
  | move h hmove hp ih => exact ih.moves (move?_moves hmove)

/-! ### What calls put into a cell -/

/-- A call that is to put something into its cell holds the lock and renews a token, or puts
another credential back. -/
theorem Visit.Suits.of_wrote (h : v.Suits stage) (hcell : stage.cell? = some cell)
    (hpending : stage.pending? = some c) :
    (stage.lock? = some cell ∧ Credential.kindOf v.identity = .oauth) ∨
      (Credential.kindOf v.identity ≠ .oauth ∧ v.always = true) := by
  cases stage with
  | renewing held version renewed =>
    cases hcell
    exact .inl ⟨rfl, h.1⟩
  | puttingBack held version credential => exact .inr h.1
  | made => cases hcell
  | _ => cases hpending

end Overlap

end Relay
