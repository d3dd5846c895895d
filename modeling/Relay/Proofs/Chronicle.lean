/-
# What a record tells of versions

Calls that overlap leave one record of what they did. A rule says of each note what was noted
before it. Under the rule that holds however calls overlap, versions are given in ascending order,
each of them is put into the pool once at most, and what is handed out was put there. Under
the rule for keys of whose calls any two that are going on at once agree, the versions that are
put there ascend as well, and what is handed out is what was put there last: so two connections
under a key have one version exactly if nothing happened to the entry between them.

Key definitions: `Given`, `Put`, `current`, `Noted`, `Rule`, `SteadyRule`, `Named`, `Steady`.
Key theorems: `noted_iff`, `Noted.given_unique`, `Noted.named`, `Noted.steady`.
-/
import Relay.Overlap

namespace Relay.Overlap

/-! ### Notes -/

section

variable {record earlier between : List (Nat × Event)} {i j : Nat} {key other : String}
  {cause : Cause} {c x y : Connection}

/-- The call has given a version to a credential. -/
def Given (record : List (Nat × Event)) (i : Nat) (c : Connection) : Prop :=
  (i, .versioned c) ∈ record

/-- This was put into the pool for the key. -/
def Put (record : List (Nat × Event)) (key : String) (c : Connection) : Prop :=
  ∃ i cause, (i, .put key cause c) ∈ record

/-- The versions handed out under the key, in their order. -/
def handed (key : String) (record : List (Nat × Event)) : List Nat :=
  record.reverse.filterMap fun note =>
    match note.2 with
    | .handed (some under) c => if under = key then some c.version else none
    | _ => none

/-- The versions put into the pool for the key, in their order. -/
def puts (key : String) (record : List (Nat × Event)) : List Nat :=
  record.reverse.filterMap fun note =>
    match note.2 with
    | .put under _ c => if under = key then some c.version else none
    | _ => none

/-- What was put into the pool for the key last, if it was not dropped. -/
def current (key : String) : List (Nat × Event) → Option Connection
  | [] => none
  | (_, .put other _ c) :: earlier => if other = key then some c else current key earlier
  | (_, .dropped other) :: earlier => if other = key then none else current key earlier
  | (_, .versioned _) :: earlier => current key earlier
  | (_, .handed _ _) :: earlier => current key earlier

/-- The entry under the key is replaced, renewed, put back, or dropped. -/
def Event.Changes (key : String) : Event → Prop
  | .put other _ _ => other = key
  | .dropped other => other = key
  | _ => False

@[simp] theorem given_versioned : Given ((i, .versioned c) :: record) j x ↔
    (j = i ∧ x = c) ∨ Given record j x := by
  simp [Given]

@[simp] theorem given_put : Given ((i, .put key cause c) :: record) j x ↔ Given record j x := by
  simp [Given]

@[simp] theorem given_dropped : Given ((i, .dropped key) :: record) j x ↔ Given record j x := by
  simp [Given]

@[simp] theorem given_handed {under : Option String} :
    Given ((i, .handed under c) :: record) j x ↔ Given record j x := by
  simp [Given]

@[simp] theorem put_versioned : Put ((i, .versioned c) :: record) key x ↔ Put record key x := by
  simp [Put]

@[simp] theorem put_put : Put ((i, .put other cause c) :: record) key x ↔
    (key = other ∧ x = c) ∨ Put record key x := by
  constructor
  · rintro ⟨j, cause', hmem⟩
    rcases List.mem_cons.mp hmem with heq | hmem
    · cases heq
      exact .inl ⟨rfl, rfl⟩
    · exact .inr ⟨j, cause', hmem⟩
  · rintro (⟨rfl, rfl⟩ | ⟨j, cause', hmem⟩)
    · exact ⟨i, cause, List.mem_cons_self⟩
    · exact ⟨j, cause', List.mem_cons_of_mem _ hmem⟩

@[simp] theorem put_dropped : Put ((i, .dropped other) :: record) key x ↔ Put record key x := by
  simp [Put]

@[simp] theorem put_handed {under : Option String} :
    Put ((i, .handed under c) :: record) key x ↔ Put record key x := by
  simp [Put]

theorem current_put_self :
    current key ((i, .put key cause c) :: record) = some c := if_pos rfl

theorem current_put_of_ne (h : other ≠ key) :
    current key ((i, .put other cause c) :: record) = current key record := if_neg h

theorem put_of_current (h : current key record = some x) : Put record key x := by
  induction record with
  | nil => cases h
  | cons note record ih =>
    obtain ⟨i, e⟩ := note
    cases e with
    | versioned c => exact put_versioned.mpr (ih h)
    | put other cause c =>
      by_cases hkey : other = key
      · rw [hkey, current_put_self] at h
        cases h
        exact put_put.mpr (.inl ⟨hkey.symm, rfl⟩)
      · rw [current_put_of_ne hkey] at h
        exact put_put.mpr (.inr (ih h))
    | dropped other =>
      by_cases hkey : other = key
      · rw [current, if_pos hkey] at h
        cases h
      · rw [current, if_neg hkey] at h
        exact put_dropped.mpr (ih h)
    | handed under c => exact put_handed.mpr (ih h)

/-- What nothing changes stays. -/
theorem current_append (h : ∀ e ∈ between, ¬e.2.Changes key) :
    current key (between ++ record) = current key record := by
  induction between with
  | nil => rfl
  | cons note between ih =>
    obtain ⟨i, e⟩ := note
    have hnot : ¬e.Changes key := h (i, e) List.mem_cons_self
    have hrest := ih fun e he => h e (List.mem_cons_of_mem _ he)
    cases e with
    | versioned c => exact hrest
    | put other cause c => exact (current_put_of_ne hnot).trans hrest
    | dropped other => exact (if_neg hnot).trans hrest
    | handed under c => exact hrest

/-- What is there after a change was put there in between. -/
theorem put_between (h : current key (between ++ record) = some y)
    (hchange : ∃ e ∈ between, e.2.Changes key) :
    ∃ later i cause rest, between = later ++ (i, .put key cause y) :: rest := by
  induction between with
  | nil =>
    obtain ⟨e, he, -⟩ := hchange
    cases he
  | cons note between ih =>
    obtain ⟨i, e⟩ := note
    -- if this note is not the put itself, then the change comes before it
    have hbefore (hsame : current key (between ++ record) = some y) (hnot : ¬e.Changes key) :
        ∃ later j cause rest, (i, e) :: between = later ++ (j, .put key cause y) :: rest := by
      obtain ⟨e', he', hchanges⟩ := hchange
      rcases List.mem_cons.mp he' with rfl | he'
      · exact absurd hchanges hnot
      · obtain ⟨later, j, cause, rest, rfl⟩ := ih hsame ⟨e', he', hchanges⟩
        exact ⟨(i, e) :: later, j, cause, rest, rfl⟩
    cases e with
    | versioned c => exact hbefore h id
    | handed under c => exact hbefore h id
    | put other cause c =>
      by_cases hkey : other = key
      · subst hkey
        rw [List.cons_append, current_put_self] at h
        cases h
        exact ⟨[], i, cause, between, rfl⟩
      · rw [List.cons_append, current_put_of_ne hkey] at h
        exact hbefore h hkey
    | dropped other =>
      by_cases hkey : other = key
      · rw [List.cons_append, current, if_pos hkey] at h
        cases h
      · rw [List.cons_append, current, if_neg hkey] at h
        exact hbefore h hkey

end

/-! ### Rules -/

/-- Every note is made by the rule, from what was noted before it. -/
def Noted (rule : Nat × Event → List (Nat × Event) → Prop) : List (Nat × Event) → Prop
  | [] => True
  | e :: earlier => rule e earlier ∧ Noted rule earlier

section

variable {rule : Nat × Event → List (Nat × Event) → Prop} {record : List (Nat × Event)}

theorem noted_iff : Noted rule record ↔
    ∀ later e earlier, record = later ++ e :: earlier → rule e earlier := by
  induction record with
  | nil => simp [Noted]
  | cons note record ih =>
    constructor
    · rintro ⟨hnote, hrecord⟩ later e earlier heq
      cases later with
      | nil =>
        cases heq
        exact hnote
      | cons first later =>
        obtain ⟨-, hrest⟩ := List.cons.inj heq
        exact ih.mp hrecord later e earlier hrest
    · intro hall
      exact ⟨hall [] note record rfl, ih.mpr fun later e earlier heq =>
        hall (note :: later) e earlier (by rw [heq, List.cons_append])⟩

theorem Noted.of_mem (h : Noted rule record) {e : Nat × Event} (he : e ∈ record) :
    ∃ earlier, rule e earlier ∧ ∀ x ∈ earlier, x ∈ record := by
  obtain ⟨later, earlier, heq⟩ := List.append_of_mem he
  refine ⟨earlier, noted_iff.mp h later e earlier heq, fun x hx => ?_⟩
  rw [heq]
  exact List.mem_append_right _ (List.mem_cons_of_mem _ hx)

end

/-- What holds of a note, however calls overlap. -/
def Rule : Nat × Event → List (Nat × Event) → Prop
  | (_, .versioned c), earlier =>
    0 < c.version ∧ ∀ j x, Given earlier j x → x.version < c.version
  | (i, .put _ _ c), earlier =>
    Given earlier i c ∧ ∀ key x, Put earlier key x → x.version ≠ c.version
  | (_, .handed (some key) c), earlier => Put earlier key c
  | (_, .handed none c), _ => c.version = 0
  | (_, .dropped _), _ => True

/-- What holds of a note besides, if any two calls under these keys that are going on at once
agree. -/
def SteadyRule (keys : String → Prop) : Nat × Event → List (Nat × Event) → Prop
  | (_, .put key _ c), earlier =>
    keys key → ∀ other x, keys other → Put earlier other x → x.version < c.version
  | (_, .handed (some key) c), earlier => keys key → current key earlier = some c
  | _, _ => True

section

variable {record : List (Nat × Event)} {i j : Nat} {key : String} {c x : Connection}

theorem Noted.given_of_put (h : Noted Rule record) (hput : Put record key c) :
    ∃ i, Given record i c := by
  obtain ⟨i, cause, hmem⟩ := hput
  obtain ⟨earlier, ⟨hgiven, -⟩, hsub⟩ := h.of_mem hmem
  exact ⟨i, hsub _ hgiven⟩

theorem Noted.given_pos (h : Noted Rule record) (hc : Given record i c) : 0 < c.version := by
  obtain ⟨earlier, ⟨hpos, -⟩, -⟩ := h.of_mem hc
  exact hpos

/-- **A version is given once.** -/
theorem Noted.given_unique (h : Noted Rule record) (hc : Given record i c)
    (hx : Given record j x) (hversion : c.version = x.version) : i = j ∧ c = x := by
  induction record with
  | nil => cases hc
  | cons note record ih =>
    obtain ⟨hrule, hrecord⟩ := h
    rcases List.mem_cons.mp hc with hnote | hc'
    · rcases List.mem_cons.mp hx with hnote' | hx'
      · cases hnote.trans hnote'.symm
        exact ⟨rfl, rfl⟩
      · rw [← hnote] at hrule
        have hlt : x.version < c.version := hrule.2 j x hx'
        omega
    · rcases List.mem_cons.mp hx with hnote' | hx'
      · rw [← hnote'] at hrule
        have hlt : c.version < x.version := hrule.2 i c hc'
        omega
      · exact ih hrecord hc' hx'

/-- What a record tells of versions, however the calls overlap. -/
structure Named (record : List (Nat × Event)) : Prop where
  /-- A credential is given a higher version than all that were given before. -/
  ascending : ∀ later i c earlier, record = later ++ (i, .versioned c) :: earlier →
    0 < c.version ∧ ∀ j x, Given earlier j x → x.version < c.version
  /-- What is put into the pool was given its version before, and no version is put there
  again. -/
  once : ∀ later i key cause c earlier, record = later ++ (i, .put key cause c) :: earlier →
    Given earlier i c ∧ ∀ other x, Put earlier other x → x.version ≠ c.version
  /-- What is handed out under a key was put there before. -/
  pooled : ∀ later i key c earlier, record = later ++ (i, .handed (some key) c) :: earlier →
    Put earlier key c
  /-- Connections of one version, not zero, have one credential. -/
  names : ∀ i key c j other x, (i, .handed key c) ∈ record → (j, .handed other x) ∈ record →
    c.version = x.version → c.version ≠ 0 → c.credential = x.credential
  /-- The connections past the pool, and no others, have version zero. -/
  transient : ∀ i key c, (i, .handed key c) ∈ record → (c.version = 0 ↔ key = none)

theorem Noted.version_eq_zero_iff (h : Noted Rule record) {under : Option String}
    (hc : (i, .handed under c) ∈ record) : c.version = 0 ↔ under = none := by
  obtain ⟨earlier, hrule, hsub⟩ := h.of_mem hc
  cases under with
  | none => exact ⟨fun _ => rfl, fun _ => hrule⟩
  | some key =>
    have hput : Put record key c := by
      obtain ⟨j, cause, hmem⟩ := hrule
      exact ⟨j, cause, hsub _ hmem⟩
    obtain ⟨j, hgiven⟩ := h.given_of_put hput
    have hpos := h.given_pos hgiven
    refine ⟨fun hzero => ?_, fun hnone => by cases hnone⟩
    omega

/-- What is handed out and not past the pool was given its version. -/
theorem Noted.given_of_handed (h : Noted Rule record) {under : Option String}
    (hc : (i, .handed under c) ∈ record) (hversion : c.version ≠ 0) :
    ∃ j, Given record j c := by
  obtain ⟨earlier, hrule, hsub⟩ := h.of_mem hc
  cases under with
  | none => exact absurd hrule hversion
  | some key =>
    obtain ⟨j, cause, hmem⟩ := hrule
    exact h.given_of_put ⟨j, cause, hsub _ hmem⟩

theorem Noted.named (h : Noted Rule record) : Named record where
  ascending := fun later i c earlier heq => noted_iff.mp h later _ earlier heq
  once := fun later i key cause c earlier heq => noted_iff.mp h later _ earlier heq
  pooled := fun later i key c earlier heq => noted_iff.mp h later _ earlier heq
  names := fun i key c j other x hc hx hversion hne => by
    obtain ⟨_, hgiven⟩ := h.given_of_handed hc hne
    obtain ⟨_, hgiven'⟩ := h.given_of_handed hx (hversion ▸ hne)
    rw [(h.given_unique hgiven hgiven' hversion).2]
  transient := fun i key c hc => h.version_eq_zero_iff hc

/-- What a record tells of keys of whose calls any two that are going on at once agree. -/
structure Steady (keys : String → Prop) (record : List (Nat × Event)) : Prop where
  /-- What is put there has a higher version than all that was put there before. -/
  higher : ∀ later i key cause c earlier, record = later ++ (i, .put key cause c) :: earlier →
    keys key → ∀ other x, keys other → Put earlier other x → x.version < c.version
  /-- Under one key the versions handed out do not go down, and stay exactly while nothing
  changes the entry. -/
  monotone : ∀ later j y between i x earlier key,
    record = later ++ (j, .handed (some key) y) :: between ++ (i, .handed (some key) x) :: earlier →
    keys key → x.version ≤ y.version ∧
      (x.version = y.version ↔ ∀ e ∈ between, ¬e.2.Changes key)

theorem Noted.steady {keys : String → Prop} (h : Noted (SteadyRule keys) record) :
    Steady keys record where
  higher := fun later i key cause c earlier heq => noted_iff.mp h later _ earlier heq
  monotone := fun later j y between i x earlier key heq hkey => by
    have hsplit : record = later ++ (j, .handed (some key) y) ::
        (between ++ (i, .handed (some key) x) :: earlier) := by
      rw [heq, List.append_assoc, List.cons_append]
    have hy : current key (between ++ (i, .handed (some key) x) :: earlier) = some y :=
      noted_iff.mp h _ _ _ hsplit hkey
    have hx : current key earlier = some x := noted_iff.mp h _ _ _ heq hkey
    by_cases hchange : ∃ e ∈ between, e.2.Changes key
    · obtain ⟨first, k, cause, rest, rfl⟩ := put_between hy hchange
      have hput : record = (later ++ (j, .handed (some key) y) :: first) ++
          (k, .put key cause y) :: (rest ++ (i, .handed (some key) x) :: earlier) := by
        rw [hsplit]
        simp
      have hbefore : Put (rest ++ (i, .handed (some key) x) :: earlier) key x := by
        obtain ⟨l, cause', hmem⟩ := put_of_current hx
        exact ⟨l, cause', List.mem_append_right _ (List.mem_cons_of_mem _ hmem)⟩
      have hlt : x.version < y.version := noted_iff.mp h _ _ _ hput hkey key x hkey hbefore
      obtain ⟨e, he, hchanges⟩ := hchange
      exact ⟨Nat.le_of_lt hlt, fun heq => absurd heq (Nat.ne_of_lt hlt),
        fun hnone => absurd hchanges (hnone e he)⟩
    · have hnone : ∀ e ∈ between, ¬e.2.Changes key :=
        fun e he hchanges => hchange ⟨e, he, hchanges⟩
      rw [current_append hnone] at hy
      cases hx.symm.trans hy
      exact ⟨Nat.le_refl _, fun _ => hnone, fun _ => rfl⟩

end

end Relay.Overlap
