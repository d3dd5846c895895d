/-
# What replies are classified as

A reply is classified as a success or as a failure, with its status and its headers. It
is a success only with a status of success, and no failure is of a kind that is found
before anything is sent.

Key definitions: `Report.WellEnded`.
Key theorems: `classify_cases`, `wellEnded_classify`, `classify_status`, `classify_refused`.
-/
import Relay.Proofs.Except
import Relay.Reply

namespace Relay

/-- A success has a status of success and a body, a failure says what went wrong and has
no body. -/
def Report.WellEnded (r : Report) : Prop :=
  (∃ code body, 200 ≤ code ∧ code < 300 ∧ r.status = .http code ∧ r.body? = some body ∧
    r.info? = none) ∨
  ∃ info, r.info? = some info ∧ r.body? = none

theorem Report.wellEnded_failed (status : Report.Status) (f : Failure) (headers : Table String)
    (snapshot : Option Snapshot) : (Report.failed status f headers snapshot).WellEnded :=
  .inr ⟨f.info, rfl, rfl⟩

namespace Reply

variable {r : Reply} {format : Format}

theorem isSuccess_iff : r.isSuccess = true ↔ 200 ≤ r.status ∧ r.status < 300 := by
  rw [isSuccess, Bool.and_eq_true, decide_eq_true_iff, decide_eq_true_iff]

theorem refusal_kind (f : Failure) : (r.refusal f).kind = f.kind := by
  unfold refusal
  split
  · rfl
  · rfl

theorem parseJson_kind {body : Text.Utf8.Bytes} {f : Failure} (h : parseJson body = .error f) :
    f.kind = .parse := by
  unfold parseJson at h
  split at h
  · cases h
  · cases h
    rfl

theorem parseBody_kind {f : Failure} (h : r.parseBody format = .error f) : f.kind = .parse := by
  unfold parseBody at h
  split at h
  · exact parseJson_kind h
  · split at h
    · exact parseJson_kind h
    · split at h
      · cases h
      · cases h
        rfl

/-- What is read of a body before the status is looked at. -/
def parsed (r : Reply) (format : Format) : Except Failure Json :=
  if r.body.isEmpty then .ok .null else r.parseBody format

/-- The value of a status of success, and the failure of any other. -/
def settled (r : Reply) (parsed : Json) : Except Failure Json :=
  if r.isSuccess then .ok parsed
  else
    let f := Failure.plugin s!"datasource returned unexpected status {r.status}"
    .error (if parsed.isNull then f else f.withDetail parsed)

theorem value_eq (r : Reply) (format : Format) :
    r.value format = r.parsed format >>= r.settled := by
  unfold value parsed
  by_cases hempty : r.body.isEmpty = true
  · rw [if_pos hempty, if_pos hempty]
    rfl
  · rw [if_neg hempty, if_neg hempty]
    rfl

/-- Only a reply with a status of success has a value. -/
theorem isSuccess_of_value {body : Json} (h : r.value format = .ok body) :
    r.isSuccess = true := by
  rw [value_eq] at h
  obtain ⟨parsed, -, hsettled⟩ := except_bind_eq_ok_iff.mp h
  unfold settled at hsettled
  split at hsettled
  · assumption
  · cases hsettled

/-- A reply that was not refused and has no value is a parse or a plugin failure. -/
theorem value_kind {f : Failure} (h : r.value format = .error f) :
    f.kind = .parse ∨ f.kind = .plugin := by
  rw [value_eq] at h
  rcases except_bind_eq_error_iff.mp h with hparsed | ⟨parsed, -, hsettled⟩
  · unfold parsed at hparsed
    split at hparsed
    · cases hparsed
    · exact .inl (parseBody_kind hparsed)
  · unfold settled at hsettled
    split at hsettled
    · cases hsettled
    · cases hsettled
      refine .inr ?_
      split
      · rfl
      · rfl

/-- **A reply is classified as a success or as a failure.** -/
theorem classify_cases (r : Reply) (format : Format) (snapshot : Option Snapshot) :
    (∃ body, r.isSuccess = true ∧
      r.classify format snapshot = .success r.status body r.headers snapshot) ∨
    ∃ f, f.kind.isPreFlight = false ∧
      r.classify format snapshot = .failed (.http r.status) f r.headers snapshot := by
  unfold classify
  split
  · refine .inr ⟨_, ?_, rfl⟩
    rw [refusal_kind]
    rfl
  · split
    · refine .inr ⟨_, ?_, rfl⟩
      rw [refusal_kind]
      rfl
    · split
      · rename_i body hvalue
        exact .inl ⟨body, isSuccess_of_value hvalue, rfl⟩
      · rename_i f hvalue
        refine .inr ⟨f, ?_, rfl⟩
        rcases value_kind hvalue with hkind | hkind
        · rw [hkind]
          rfl
        · rw [hkind]
          rfl

/-- The report has the status and the headers of the reply. -/
theorem classify_status (r : Reply) (format : Format) (snapshot : Option Snapshot) :
    (r.classify format snapshot).status = .http r.status ∧
      (r.classify format snapshot).headers = r.headers := by
  rcases r.classify_cases format snapshot with ⟨body, -, heq⟩ | ⟨f, -, heq⟩
  · rw [heq]
    exact ⟨rfl, rfl⟩
  · rw [heq]
    exact ⟨rfl, rfl⟩

/-- Whatever the body says, a refused credential is told as such. -/
theorem classify_refused (h : r.status = 401) (format : Format) (snapshot : Option Snapshot) :
    ∃ info, (r.classify format snapshot).info? = some info ∧ info.kind = .authentication := by
  unfold classify
  rw [if_pos h]
  exact ⟨_, rfl, refusal_kind _⟩

theorem wellEnded_classify (r : Reply) (format : Format) (snapshot : Option Snapshot) :
    (r.classify format snapshot).WellEnded := by
  rcases r.classify_cases format snapshot with ⟨body, hsuccess, heq⟩ | ⟨f, -, heq⟩
  · obtain ⟨hlow, hhigh⟩ := isSuccess_iff.mp hsuccess
    rw [heq]
    exact .inl ⟨r.status, body, hlow, hhigh, rfl, rfl, rfl⟩
  · rw [heq]
    exact Report.wellEnded_failed ..

end Reply

end Relay
