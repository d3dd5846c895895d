/-
# Keys whose calls agree

Of the calls under some keys, let any two that are going on at once agree: they connect under
one key with one credential, and at most one of them puts it back. Then all of them work on the
cell that is under their key, and no two are to put something into it at once. So what is put under
these keys goes up, and what is handed out there is what was put there last: this is what the
versions are for. Other overlaps break it: three that do are shown at the end.

Key definitions: `Spares`, `Affects`, `Above`, `Orderly`, `Consistent`.
Key theorems: `Sound.spares`, `Orderly.moves`, `Reaches.orderly`, `reaches_of_calls`,
`versions_overlapping`.
-/
import Relay.Proofs.Sharing

namespace Relay.Overlap

open Call

variable {σ : Type} {a : Access σ} {m m' : Shared σ} {i j : Nat} {e : Errand} {v w : Visit}
  {stage stage' : Stage} {cell : Cell} {key : String} {c x : Connection} {s s' : System σ}
  {identity : Option Credential} {keys : String → Prop} {t u : Task}

/-! ### What a step does under other keys -/

/-- A step leaves everything under these keys as it was. -/
structure Spares (keys : String → Prop) (m m' : Shared σ) : Prop where
  table : ∀ key, keys key → m'.table.find? key = m.table.find? key
  cells : ∀ key cell, keys key → m.table.find? key = some cell → m'.cells cell = m.cells cell
  put : ∀ key x, keys key → (Put m'.record key x ↔ Put m.record key x)
  current : ∀ key, keys key → current key m'.record = current key m.record

theorem Spares.look (h : Spares keys m m') (hkey : keys key)
    (hlook : m.look key identity = some cell) : m'.look key identity = some cell := by
  obtain ⟨hfound, hown⟩ := look_eq_some hlook
  refine look_of_find? ((h.table key hkey).trans hfound) ?_
  rw [h.cells key cell hkey hfound]
  exact hown

theorem Spares.find? (h : Spares keys m m') (hkey : keys key) :
    m'.find? key = m.find? key := by
  unfold Shared.find?
  rw [h.table key hkey]
  exact Option.map_congr fun cell hfound => h.cells key cell hkey hfound

/-- A step spares all keys, or changes what is under the key of the call. -/
inductive Affects (i : Nat) (e : Errand) (m : Shared σ) (stage : Stage) (m' : Shared σ) : Prop
  | nothing (hspares : ∀ keys, Spares keys m m')
  | drops {key : String} (he : e = .drop key) (hafter : m' = m.drop i key)
  | enters {cell : Cell} {entry : Pool.Entry} (hstage : stage = .made cell entry)
    (hlook : ∀ v, e = .connect v → m.look cell.key v.identity = none)
    (hafter : m' = m.enter i cell entry)
  | writes {cell : Cell} {cause : Cause} {c : Connection} (hcell : stage.cell? = some cell)
    (hpending : stage.pending? = some c) (hafter : m' = m.write i cell cause c)

theorem Does.affects (hdoes : Does i e m stage stage' m') : Affects i e m stage m' := by
  cases hdoes with
  | quiet => exact .nothing fun _ => ⟨fun _ _ => rfl, fun _ _ _ _ => rfl, fun _ _ _ => .rfl,
      fun _ _ => rfl⟩
  | handedOwn | handed =>
    exact .nothing fun _ => ⟨fun _ _ => rfl, fun _ _ _ _ => rfl, fun _ _ _ => put_handed,
      fun _ _ => rfl⟩
  | made | versioned =>
    exact .nothing fun _ => ⟨fun _ _ => rfl, fun _ _ _ _ => rfl, fun _ _ _ => put_versioned,
      fun _ _ => rfl⟩
  | dropped he => exact .drops he rfl
  | entered hstage hlook => exact .enters hstage hlook rfl
  | wrote hcell hpending => exact .writes hcell hpending rfl

theorem put_put_of_ne {record : List (Nat × Event)} {other : String} {cause : Cause}
    (h : key ≠ other) : Put ((i, .put other cause c) :: record) key x ↔ Put record key x := by
  rw [put_put]
  exact or_iff_right fun hsame => h hsame.1

/-- **A step spares the keys that its call is not under.** -/
theorem Sound.spares (h : Sound s) (ht : s.tasks[i]? = some t)
    (haffects : Affects i t.errand s.shared t.stage m')
    (hkeys : ∀ key, keys key → t.errand.key? ≠ some key) : Spares keys s.shared m' := by
  have hfits := h.tasks i t ht
  -- the cells under the keys are others than one under another key
  have hcell {key : String} {found cell : Cell} (hkey : keys key)
      (hfound : s.shared.table.find? key = some found) (hown : t.errand.key? = some cell.key) :
      found ≠ cell := by
    rintro rfl
    rw [(h.table key found hfound).1] at hown
    exact hkeys key hkey hown
  cases haffects with
  | nothing hspares => exact hspares keys
  | @drops other he hafter =>
    subst hafter
    have hne {key : String} (hkey : keys key) : other ≠ key := by
      rintro rfl
      exact hkeys other hkey (by rw [he]; rfl)
    exact ⟨fun key hkey => Table.find?_erase_of_ne _ (hne hkey).symm, fun _ _ _ _ => rfl,
      fun _ _ _ => put_dropped, fun key hkey => if_neg (hne hkey)⟩
  | @enters cell entry hstage hlook hafter =>
    subst hafter
    have hown := (hfits.made cell entry hstage).1
    have hne {key : String} (hkey : keys key) : key ≠ cell.key := by
      rintro rfl
      exact hkeys cell.key hkey hown
    exact ⟨fun key hkey => Table.find?_insert_of_ne _ _ (hne hkey),
      fun key found hkey hfound => s.shared.lay_of_ne (hcell hkey hfound hown) entry,
      fun key x hkey => put_put_of_ne (hne hkey),
      fun key hkey => current_put_of_ne (hne hkey).symm⟩
  | @writes cell cause c hheld hpending hafter =>
    subst hafter
    have hown := (hfits.shown cell hheld).1
    have hne {key : String} (hkey : keys key) : key ≠ cell.key := by
      rintro rfl
      exact hkeys cell.key hkey hown
    exact ⟨fun key hkey => rfl,
      fun key found hkey hfound => s.shared.lay_of_ne (hcell hkey hfound hown) _,
      fun key x hkey => put_put_of_ne (hne hkey),
      fun key hkey => current_put_of_ne (hne hkey).symm⟩

/-! ### What holds under the keys -/

/-- The version is above all that were put under the keys. -/
def Above (keys : String → Prop) (record : List (Nat × Event)) (version : Nat) : Prop :=
  ∀ key x, keys key → Put record key x → x.version < version

theorem Spares.above (h : Spares keys m m') {version : Nat}
    (habove : Above keys m.record version) : Above keys m'.record version :=
  fun key x hkey hput => habove key x hkey ((h.put key x hkey).mp hput)

/-- What holds of keys of whose calls any two that are going on at once agree. -/
structure Orderly (keys : String → Prop) (s : System σ) : Prop where
  noted : Noted (SteadyRule keys) s.shared.record
  latest : ∀ key, keys key →
    (s.shared.find? key).map Pool.Entry.connection = current key s.shared.record
  /-- Every call works on the cell that is under its key. -/
  held : ∀ (i : Nat) (t : Task) (key : String) (cell : Cell), s.tasks[i]? = some t →
    t.errand.key? = some key → keys key → t.stage.cell? = some cell →
    s.shared.table.find? key = some cell
  /-- What a call is to put into the pool is above all that was put there; or it has made an entry
  that it will not enter, since there is one by now. -/
  above : ∀ (i : Nat) (t : Task) (key : String) (c : Connection), s.tasks[i]? = some t →
    t.errand.key? = some key → keys key → t.stage.pending? = some c →
    Above keys s.shared.record c.version ∨
      (t.stage.cell? = none ∧ ∃ cell, t.errand.Finds s.shared cell)

/-- What holds between any two moves. -/
structure Consistent (s : System σ) : Prop where
  sound : Sound s
  suited : Suited s
  guarded : Guarded s

theorem Reaches.consistent {P : System σ → Prop} (h : Reaches a P s) : Consistent s :=
  ⟨h.sound, h.suited, h.guarded⟩

/-- A call that has got hold of the cell under its key finds it there. -/
theorem Suited.looks (h : Suited s) (ht : s.tasks[i]? = some t) (he : t.errand = .connect v)
    (hcell : t.stage.cell? = some cell) (hfound : s.shared.table.find? key = some cell) :
    s.shared.look key v.identity = some cell :=
  look_of_find? hfound ((h.visit ht he).2 cell hcell).own

/-- A call that finds a cell under its key does not enter another. -/
theorem Sound.not_finds (h : Sound s) (ht : s.tasks[i]? = some t) {entry : Pool.Entry}
    (hstage : t.stage = .made cell entry)
    (hlook : ∀ v, t.errand = .connect v → s.shared.look cell.key v.identity = none)
    {other : Cell} (hfinds : t.errand.Finds s.shared other) : False := by
  obtain ⟨v, key, he, hkey, hfound⟩ := hfinds
  have hown := ((h.tasks i t ht).made cell entry hstage).1
  rw [he] at hown
  cases hkey.symm.trans hown
  rw [hlook v he] at hfound
  cases hfound

/-- What the call that takes the step is to put into the pool has just been given its
version. -/
theorem Sound.above_does (hs : Sound s) (hdoes : Does i e s.shared stage stage' m')
    (hpending : stage'.pending? = some c) : Above keys m'.record c.version := by
  cases hdoes with
  | quiet hkept hnone =>
    rw [hnone] at hpending
    cases hpending
  | handedOwn | dropped | entered | handed => cases hpending
  | made =>
    cases hpending
    exact fun key x hkey hput => hs.put_lt (put_versioned.mp hput)
  | versioned hcell hcell' hnew =>
    cases hnew.symm.trans hpending
    exact fun key x hkey hput => hs.put_lt (put_versioned.mp hput)
  | wrote hcell hwritten hcell' hnone =>
    rw [hnone] at hpending
    cases hpending

section

variable (h : Orderly keys s) (hs : Consistent s) (ht : s.tasks[i]? = some t)
include h hs ht

theorem Orderly.noted_does (hdoes : Does i t.errand s.shared t.stage stage' m') :
    Noted (SteadyRule keys) m'.record := by
  have hfits := hs.sound.tasks i t ht
  cases hdoes with
  | quiet => exact h.noted
  | handedOwn | dropped | made | versioned => exact ⟨trivial, h.noted⟩
  | @entered cell entry hstage hlook =>
    refine ⟨fun hkey => ?_, h.noted⟩
    have hown := (hfits.made cell entry hstage).1
    rcases h.above i t cell.key entry.connection ht hown hkey (by rw [hstage]; rfl) with
      habove | ⟨-, other, hfinds⟩
    · exact habove
    · exact (hs.sound.not_finds ht hstage hlook hfinds).elim
  | @wrote cell cause c stage' hcell hpending =>
    refine ⟨fun hkey => ?_, h.noted⟩
    rcases h.above i t cell.key c ht (hfits.shown cell hcell).1 hkey hpending with
      habove | ⟨hnone, -⟩
    · exact habove
    · rw [hcell] at hnone
      cases hnone
  | @handed cell refreshed hcell =>
    refine ⟨fun hkey => ?_, h.noted⟩
    rw [← h.latest cell.key hkey, Shared.find?,
      h.held i t cell.key cell ht (hfits.shown cell hcell).1 hkey hcell]
    rfl

theorem Orderly.latest_does (hdoes : Does i t.errand s.shared t.stage stage' m')
    (hkey : keys key) : (m'.find? key).map Pool.Entry.connection = current key m'.record := by
  have hfits := hs.sound.tasks i t ht
  by_cases hown : t.errand.key? = some key
  · cases hdoes.affects with
    | nothing hspares =>
      rw [(hspares keys).find? hkey, (hspares keys).current key hkey]
      exact h.latest key hkey
    | @drops other he hafter =>
      rw [he] at hown
      cases hown
      rw [hafter, Shared.find?, Shared.drop, Table.find?_erase_self, current, if_pos rfl]
      rfl
    | @enters cell entry hstage hlook hafter =>
      cases (hfits.made cell entry hstage).1.symm.trans hown
      rw [hafter, Shared.find?, Shared.enter, Table.find?_insert_self, current_put_self]
      exact congrArg (fun entry => some (Pool.Entry.connection entry))
        (cells_enter s.shared i cell entry)
    | @writes cell cause c hcell hpending hafter =>
      cases (hfits.shown cell hcell).1.symm.trans hown
      have hfound := h.held i t cell.key cell ht hown hkey hcell
      rw [hafter, Shared.find?, Shared.write, hfound, current_put_self]
      exact congrArg (fun entry => some (Pool.Entry.connection entry))
        (cells_write s.shared i cell cause c)
  · have hspares : Spares (· = key) s.shared m' :=
      hs.sound.spares ht hdoes.affects fun other hsame => hsame ▸ hown
    rw [hspares.find? rfl, hspares.current key rfl]
    exact h.latest key hkey

/-- The call that takes the step works on the cell under its key. -/
theorem Orderly.held_does (hdoes : Does i t.errand s.shared t.stage stage' m')
    (hown : t.errand.key? = some key) (hkey : keys key) (hcell : stage'.cell? = some cell) :
    m'.table.find? key = some cell := by
  have hfits := hs.sound.tasks i t ht
  cases hdoes with
  | quiet hkept =>
    rcases hkept cell hcell with hsame | ⟨v, other, he, hother, hlook⟩
    · exact h.held i t key cell ht hown hkey hsame
    · rw [he] at hown
      cases hother.symm.trans hown
      exact (look_eq_some hlook).1
  | handedOwn | dropped | made | handed => cases hcell
  | @entered new entry hstage hlook =>
    cases hcell
    cases (hfits.made cell entry hstage).1.symm.trans hown
    exact Table.find?_insert_self ..
  | versioned hsame hcell' =>
    cases hcell'.symm.trans hcell
    exact h.held i t key cell ht hown hkey hsame
  | wrote hsame hpending hcell' =>
    cases hcell'.symm.trans hcell
    exact h.held i t key cell ht hown hkey hsame

end

/-! ### The other calls -/

theorem Errand.Agrees.elim {e' : Errand} (h : e.Agrees e') :
    ∃ v w, e = .connect v ∧ e' = .connect w ∧ v.key? = w.key? ∧ v.identity = w.identity ∧
      (v.always = false ∨ w.always = false ∨ Credential.kindOf v.identity = .oauth) := by
  cases e with
  | drop key => cases h
  | connect v =>
    cases e' with
    | drop key => cases h
    | connect w => exact ⟨v, w, rfl, rfl, h⟩

/-- Calls that agree are under one key. -/
theorem Errand.Agrees.same_key {e' : Errand} {own : String} (h : e.Agrees e')
    (hkey : e'.key? = some key) (hown : e.key? = some own) : own = key := by
  obtain ⟨v, w, rfl, rfl, hsame, -⟩ := h.elim
  exact Option.some.inj (hown.symm.trans (hsame.trans hkey))

/-- A call that agrees with one that finds no cell has none. -/
theorem Suited.no_cell (h : Suited s) (hu : s.tasks[j]? = some u)
    (hlook : ∀ v, e = .connect v → s.shared.look key v.identity = none)
    (hagrees : e.Agrees u.errand) (hcell : u.stage.cell? = some cell)
    (hfound : s.shared.table.find? key = some cell) : False := by
  obtain ⟨v, w, hv, hw, -, hidentity, -⟩ := hagrees.elim
  have hsome := h.looks hu hw hcell hfound
  rw [← hidentity, hlook v hv] at hsome
  cases hsome

/-- Two calls that agree are not both to put something into their cell. -/
theorem Consistent.not_both (hs : Consistent s) (ht : s.tasks[i]? = some t)
    (hu : s.tasks[j]? = some u) (hij : i ≠ j) (hagrees : t.errand.Agrees u.errand)
    (hcell : t.stage.cell? = some cell) (hpending : t.stage.pending? = some c)
    (hcell' : u.stage.cell? = some cell) (hpending' : u.stage.pending? = some x) : False := by
  obtain ⟨v, w, hv, hw, -, hidentity, hways⟩ := hagrees.elim
  rcases (hs.suited.visit ht hv).1.of_wrote hcell hpending with ⟨hlock, hkind⟩ | ⟨hkind, halways⟩
  · rcases (hs.suited.visit hu hw).1.of_wrote hcell' hpending' with ⟨hlock', -⟩ | ⟨hkind', -⟩
    · exact hij (hs.guarded.alone i j cell ⟨t, ht, hlock⟩ ⟨u, hu, hlock'⟩)
    · exact hkind' (hidentity ▸ hkind)
  · rcases (hs.suited.visit hu hw).1.of_wrote hcell' hpending' with ⟨-, hkind'⟩ | ⟨-, halways'⟩
    · exact hkind (hidentity ▸ hkind')
    · rcases hways with honce | honce | hoauth
      · exact Bool.false_ne_true (honce.symm.trans halways)
      · exact Bool.false_ne_true (honce.symm.trans halways')
      · exact hkind hoauth

section

variable (h : Orderly keys s) (hs : Consistent s) (ht : s.tasks[i]? = some t)
  (hu : s.tasks[j]? = some u) (hij : i ≠ j) (hunder : u.errand.key? = some key) (hkey : keys key)
  (haffects : Affects i t.errand s.shared t.stage m')
  (hagrees : ∀ own, t.errand.key? = some own → keys own → t.errand.Agrees u.errand)
include h hs ht hu hunder hkey haffects hagrees

/-- Another call keeps its cell under its key. -/
theorem Orderly.held_other (hcell : u.stage.cell? = some cell) :
    m'.table.find? key = some cell := by
  have hfound := h.held j u key cell hu hunder hkey hcell
  by_cases hown : ∃ own, t.errand.key? = some own ∧ keys own
  · obtain ⟨own, hunder', hown⟩ := hown
    have hagree := hagrees own hunder' hown
    cases haffects with
    | nothing hspares => exact ((hspares keys).table key hkey).trans hfound
    | drops he =>
      rw [he] at hagree
      cases hagree
    | @enters new entry hstage hlook hafter =>
      cases hagree.same_key hunder ((hs.sound.tasks i t ht).made new entry hstage).1
      exact (hs.suited.no_cell hu hlook hagree hcell hfound).elim
    | writes hheld hpending hafter =>
      rw [hafter]
      exact hfound
  · have hspares := hs.sound.spares ht haffects fun own hown' hsame => hown ⟨own, hsame, hown'⟩
    exact (hspares.table key hkey).trans hfound

/-- What another call is to put into the pool stays above all that was put there, or is not
entered. -/
theorem Orderly.above_other (hij : i ≠ j) (hpending : u.stage.pending? = some c) :
    Above keys m'.record c.version ∨
      (u.stage.cell? = none ∧ ∃ cell, u.errand.Finds m' cell) := by
  have hbefore := h.above j u key c hu hunder hkey hpending
  have hspared (hspares : Spares keys s.shared m') : Above keys m'.record c.version ∨
      (u.stage.cell? = none ∧ ∃ cell, u.errand.Finds m' cell) := by
    rcases hbefore with habove | ⟨hnone, cell, w, other, hw, hother, hlook⟩
    · exact .inl (hspares.above habove)
    · have hsame : other = key := by
        rw [hw] at hunder
        exact Option.some.inj (hother.symm.trans hunder)
      subst hsame
      exact .inr ⟨hnone, cell, w, other, hw, hother, hspares.look hkey hlook⟩
  by_cases hown : ∃ own, t.errand.key? = some own ∧ keys own
  · obtain ⟨own, hunder', hown⟩ := hown
    have hagree := hagrees own hunder' hown
    obtain ⟨v, w, hv, hw, -, hidentity, -⟩ := hagree.elim
    have hvisit := hs.suited.visit ht hv
    -- the other call finds the cell that this one has put something into
    have hfinds {cell : Cell} (hfound : m'.table.find? key = some cell)
        (hown : (m'.cells cell).identity = v.identity) : ∃ cell, u.errand.Finds m' cell := by
      refine ⟨cell, w, key, hw, ?_, look_of_find? hfound (hown.trans hidentity)⟩
      rw [hw] at hunder
      exact hunder
    cases haffects with
    | nothing hspares => exact hspared (hspares keys)
    | drops he =>
      rw [he] at hv
      cases hv
    | @enters cell entry hstage hlook hafter =>
      cases hagree.same_key hunder ((hs.sound.tasks i t ht).made cell entry hstage).1
      rw [hstage] at hvisit
      have hnone : u.stage.cell? = none := by
        refine Option.eq_none_iff_forall_ne_some.mpr fun held hheld => ?_
        have hfound := h.held j u cell.key held hu hunder hkey hheld
        exact hs.suited.no_cell hu hlook hagree hheld hfound
      subst hafter
      refine .inr ⟨hnone, hfinds (Table.find?_insert_self ..) ?_⟩
      rw [cells_enter]
      exact hvisit.1.1
    | @writes cell cause x hcell hwritten hafter =>
      have hcellkey := ((hs.sound.tasks i t ht).shown cell hcell).1
      cases hagree.same_key hunder hcellkey
      have hfound := h.held i t cell.key cell ht hcellkey hkey hcell
      have hnone : u.stage.cell? = none := by
        refine Option.eq_none_iff_forall_ne_some.mpr fun held hheld => ?_
        cases hfound.symm.trans (h.held j u cell.key held hu hunder hkey hheld)
        exact hs.not_both ht hu hij hagree hcell hwritten hheld hpending
      subst hafter
      refine .inr ⟨hnone, hfinds hfound ?_⟩
      rw [cells_write]
      exact (hvisit.2 cell hcell).own
  · exact hspared (hs.sound.spares ht haffects fun own hown' hsame => hown ⟨own, hsame, hown'⟩)

end

/-! ### Runs -/

theorem isOpen_of_step (h : e.step a i m stage = some (stage', m')) : stage.isOpen = true := by
  cases stage with
  | done result =>
    cases e with
    | connect v => cases h
    | drop key => cases h
  | abandoned =>
    cases e with
    | connect v => cases h
    | drop key => cases h
  | _ => rfl

/-- **While calls agree, every move keeps the order.** -/
theorem Orderly.moves (h : Orderly keys s) (hs : Consistent s) (hagreed : s.Agreed keys)
    (hmoves : Moves a s s') : Orderly keys s' := by
  cases hmoves with
  | @step i t stage' m' ht hstep =>
    have hdoes := hs.sound.does ht hstep
    have hagrees {j : Nat} {u : Task} {key : String} (hj : j ≠ i) (hu : s.tasks[j]? = some u)
        (hopen : u.stage.isOpen = true) (hunder : u.errand.key? = some key) (hkey : keys key)
        (own : String) (hunder' : t.errand.key? = some own) (hown : keys own) :
        t.errand.Agrees u.errand :=
      hagreed i j t u own key hj.symm ht hu (isOpen_of_step hstep) hopen hunder' hunder hown hkey
    refine ⟨h.noted_does hs ht hdoes, fun key hkey => h.latest_does hs ht hdoes hkey,
      fun j u key cell hu hunder hkey hcell => ?_, fun j u key c hu hunder hkey hpending => ?_⟩
    · rcases getElem?_set_cases hu with ⟨rfl, rfl⟩ | ⟨hj, hu⟩
      · exact h.held_does hs ht hdoes hunder hkey hcell
      · exact h.held_other hs ht hu hunder hkey hdoes.affects
          (hagrees hj hu (Stage.isOpen_of_cell? hcell) hunder hkey) hcell
    · rcases getElem?_set_cases hu with ⟨rfl, rfl⟩ | ⟨hj, hu⟩
      · exact .inl (hs.sound.above_does hdoes hpending)
      · exact h.above_other hs ht hu hunder hkey hdoes.affects
          (hagrees hj hu (Stage.isOpen_of_pending? hpending) hunder hkey) hj.symm hpending
  | @rest outside locked tasks hlocked htasks =>
    refine ⟨h.noted, h.latest, fun j u key cell hu hunder hkey hcell => ?_,
      fun j u key c hu hunder hkey hpending => ?_⟩
    · rcases htasks j u hu with hold | hidle
      · exact h.held j u key cell hold hunder hkey hcell
      · rw [(Stage.of_idle hidle).1] at hcell
        cases hcell
    · rcases htasks j u hu with hold | hidle
      · exact h.above j u key c hold hunder hkey hpending
      · rw [(Stage.of_idle hidle).2.1] at hpending
        cases hpending

theorem agreed_empty (outside : σ) (keys : String → Prop) :
    System.Agreed keys { shared := { outside } } :=
  fun i j t u key other _ ht => by cases ht

/-- **Keys whose calls agree are in order.** -/
theorem Reaches.orderly (h : Reaches a (System.Agreed keys) s) : Orderly keys s := by
  induction h with
  | start outside =>
    exact ⟨trivial, fun _ _ => rfl, fun _ _ _ _ h => (by cases h), fun _ _ _ _ h => (by cases h)⟩
  | move h hmove hp ih =>
    exact ih.moves h.consistent (h.holds fun outside => agreed_empty outside keys)
      (move?_moves hmove)

/-! ### Calls to one datasource -/

theorem Reaches.mono {P Q : System σ → Prop} (hpq : ∀ s, P s → Q s) (h : Reaches a P s) :
    Reaches a Q s := by
  induction h with
  | start outside => exact .start outside
  | move h hmove hp ih => exact .move ih hmove (hpq _ hp)

/-- Moves that keep a property lead on through states that have it. -/
theorem Reaches.moves {P : System σ → Prop} {moves : List (Move σ)} (h : Reaches a P s) (hp : P s)
    (hkeeps : ∀ move ∈ moves, ∀ s s' : System σ, P s → s.move? a move = some s' → P s')
    (hmoves : s.moves? a moves = some s') : Reaches a P s' := by
  induction moves generalizing s with
  | nil =>
    cases hmoves
    exact h
  | cons move moves ih =>
    obtain ⟨between, hmove, hrest⟩ := Option.bind_eq_some_iff.mp hmoves
    have hbetween := hkeeps move List.mem_cons_self s between hp hmove
    exact ih (.move h hmove hbetween) hbetween
      (fun later hlater => hkeeps later (List.mem_cons_of_mem _ hlater)) hrest

theorem reaches_of_moves {moves : List (Move σ)} {outside : σ}
    (h : System.moves? a { shared := { outside } } moves = some s) :
    Reaches a (fun _ => True) s :=
  (Reaches.start outside).moves trivial (fun _ _ _ _ _ _ => trivial) h

/-- A call goes on with what it was made for. -/
theorem errand_of_move {move : Move σ} (hmove : s.move? a move = some s')
    (hcall : ∀ e', move = .call e' → e' = e) (h : ∀ t ∈ s.tasks, t.errand = e) :
    ∀ t ∈ s'.tasks, t.errand = e := by
  have hset {i : Nat} {t : Task} {stage : Stage} (ht : s.tasks[i]? = some t) :
      ∀ u ∈ s.tasks.set i { t with stage }, u.errand = e := fun u hu => by
    rcases List.mem_or_eq_of_mem_set hu with hu | rfl
    · exact h u hu
    · exact h t (List.mem_of_getElem? ht)
  cases move with
  | meanwhile outside =>
    cases hmove
    exact h
  | call e' =>
    cases hmove
    intro t ht
    rcases List.mem_append.mp ht with ht | ht
    · exact h t ht
    · rw [List.mem_singleton.mp ht]
      exact hcall e' rfl
  | go i =>
    obtain ⟨t, stage', m', ht, -, rfl⟩ := go_eq_some hmove
    exact hset ht
  | abandon i =>
    obtain ⟨t, m', ht, -, rfl⟩ := abandon_eq_some hmove
    exact hset ht

/-- **Calls that connect to one datasource agree**, however many there are at once. -/
theorem reaches_of_calls {moves : List (Move σ)} {outside : σ} (hagrees : e.Agrees e)
    (hcalls : ∀ e', .call e' ∈ moves → e' = e)
    (h : System.moves? a { shared := { outside } } moves = some s) :
    Reaches a (System.Agreed keys) s := by
  have hsame : Reaches a (fun s => ∀ t ∈ s.tasks, t.errand = e) s := by
    refine (Reaches.start outside).moves (fun t ht => by cases ht) ?_ h
    intro move hmem s s' hs hmove
    exact errand_of_move hmove (fun e' he' => hcalls e' (he' ▸ hmem)) hs
  refine hsame.mono fun s hs i j t u key other _ ht hu _ _ _ _ _ _ => ?_
  rw [hs t (List.mem_of_getElem? ht), hs u (List.mem_of_getElem? hu)]
  exact hagrees

/-! ### Versions -/

/-- **Versions while calls overlap.** However they do, versions are given in ascending order, are
put into the pool once and name one credential; and where of the calls under some keys only such
as agree overlap, they go up under these keys. -/
theorem versions_overlapping (a : Access σ) :
    (∀ s, Reaches a (fun _ => True) s → Named s.shared.record) ∧
      ∀ keys s, Reaches a (System.Agreed keys) s → Steady keys s.shared.record :=
  ⟨fun _ h => h.sound.noted.named, fun _ _ h => h.orderly.noted.steady⟩

/-- The versions that moves hand out and put into the pool under a key. -/
def versions? (a : Access Unit) (key : String) (moves : List (Move Unit)) :
    Option (List Nat × List Nat) :=
  (System.moves? a { shared := { outside := () } } moves).map fun s =>
    (handed key s.shared.record, puts key s.shared.record)

/-- So many steps of one call. -/
def steps (i n : Nat) : List (Move Unit) := List.replicate n (.go i)

def connectingClient : Errand := .connecting Access.anyone Access.unserved

/-- A client is connected to twice at once. The second call waits for the lock while the first
fetches a token. -/
def twice : List (Move Unit) :=
  [.call connectingClient, .call connectingClient] ++
    steps 0 7 ++ steps 1 3 ++ steps 0 5 ++ steps 1 4

/-- Both calls are handed the token that was fetched once. -/
theorem versions_overlapping_twice : ∃ s : System Unit,
    handed "anyone:a" s.shared.record = [2, 2] ∧ puts "anyone:a" s.shared.record = [1, 2] ∧
      Named s.shared.record ∧ Steady (fun _ => True) s.shared.record := by
  have hversions : versions? Access.issuing "anyone:a" twice = some ([2, 2], [1, 2]) := by
    decide +kernel
  obtain ⟨s, hmoves, hboth⟩ := Option.map_eq_some_iff.mp hversions
  obtain ⟨hhanded, hputs⟩ := Prod.mk.inj hboth
  have hagrees : connectingClient.Agrees connectingClient := ⟨rfl, rfl, .inl rfl⟩
  have hcalls (e : Errand) (he : .call e ∈ twice) : e = connectingClient := by
    simpa [twice, steps] using he
  have hall := (versions_overlapping Access.issuing).1 s (reaches_of_moves hmoves)
  have hsteady := (versions_overlapping Access.issuing).2 (fun _ => True) s
    (reaches_of_calls hagrees hcalls hmoves)
  exact ⟨s, hhanded, hputs, hall, hsteady⟩

/-! ### Calls that do not agree -/

def bearing (text : String) : Datasource :=
  { id := some "a", credential := some (.bearer ⟨text⟩) }

/-- Two calls with two credentials: the first has taken its version, and enters its entry over
that of the second. -/
def overtaking : List (Move Unit) :=
  [.call (.connecting Access.anyone (bearing "old")),
    .call (.connecting Access.anyone (bearing "new"))] ++
    steps 0 2 ++ steps 1 5 ++ steps 0 3

/-- The first call goes on with an entry that was dropped; the third has made another. -/
def outliving : List (Move Unit) :=
  [.call (.connecting Access.anyone (bearing "old"))] ++ steps 0 3 ++
    [.call (.invalidating "anyone" "a")] ++ steps 1 1 ++
    [.call (.connecting Access.anyone (bearing "old"))] ++ steps 2 5 ++ steps 0 2

/-- Two revalidations with one credential, which both put back. -/
def puttingBackTwice : List (Move Unit) :=
  [.call (.revalidating Access.anyone (bearing "old")),
    .call (.revalidating Access.anyone (bearing "old"))] ++
    steps 0 6 ++ steps 1 6 ++ steps 0 2

def holding : Datasource :=
  { id := some "a"
    credential := some (.oauth
      { id := "me", secret := ⟨"mine"⟩, tokenUrl := ""
        token := some { secret := ⟨"issued"⟩, issuedAt := default } }) }

/-- Fetches no token. -/
def refusing : Access Unit :=
  { Access.issuing with
    tokens :=
      { fetch := fun _ outside => (.error (.failed (.authentication "refused")), outside) } }

/-- One call after another; the revalidation between two others fails. -/
def inVain : List (Move Unit) :=
  [.call (.connecting Access.anyone holding)] ++ steps 0 6 ++
    [.call (.revalidating Access.anyone holding)] ++ steps 1 6 ++
    [.call (.connecting Access.anyone holding)] ++ steps 2 4

/-- **Versions go down where calls that overlap do not agree**: over another credential, after the
entry was dropped, and when two calls put one back. And a revalidation that fails leaves the
version as it was. -/
theorem versions_fall :
    versions? Access.issuing "anyone:a" overtaking = some ([2, 1], [2, 1]) ∧
      versions? Access.issuing "anyone:a" outliving = some ([2, 1], [1, 2]) ∧
      versions? Access.issuing "anyone:a" puttingBackTwice = some ([3, 2], [1, 3, 2]) ∧
      versions? refusing "anyone:a" inVain = some ([1, 1], [1]) := by
  decide +kernel

end Relay.Overlap
