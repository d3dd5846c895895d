/-
# The rules by which replies are classified

Every reply falls under exactly one of five rules, and the first that applies decides: a
refused credential, another refusal, a body that cannot be read, any other status that is
no success, and success. What is told of a refusal is the body as text; neither the format
nor the content type nor what the body holds has a say in it.

Key definitions: `Report.kind?`, `Report.detail?`, `Reply.Unreadable`, `Reply.Classified`.
Key theorems: `classify_classified`, `classify_rules`.
-/
import Relay.Proofs.Reply
import Relay.Proofs.Utf8

namespace Relay

/-- The kind of failure that a report tells of. -/
def Report.kind? (r : Report) : Option Failure.Kind := r.info?.map Failure.Info.kind

/-- What a report adds to the message of its failure. -/
def Report.detail? (r : Report) : Option Json := r.info?.bind Failure.Info.detail

theorem Json.isNull_iff (value : Json) : value.isNull = true ↔ value = .null := by
  cases value <;> simp [Json.isNull]

namespace Reply

variable {r : Reply} {format : Format} {snapshot : Option Snapshot} {report : Report}

/-- There is a body, and it cannot be read in the format. -/
def Unreadable (r : Reply) (format : Format) : Prop :=
  r.body ≠ [] ∧ ∃ f, r.parseBody format = .error f

/-- There is nothing to read, or it can be read. -/
theorem not_unreadable_iff :
    ¬r.Unreadable format ↔ r.body = [] ∨ ∃ value, r.parseBody format = .ok value := by
  unfold Unreadable
  cases hparse : r.parseBody format with
  | error f => simp
  | ok value => simp

theorem parsed_eq_ok_iff {value : Json} : r.parsed format = .ok value ↔
    r.body = [] ∧ value = .null ∨ r.body ≠ [] ∧ r.parseBody format = .ok value := by
  unfold parsed
  by_cases hempty : r.body = []
  · simp [hempty, eq_comm]
  · simp [hempty]

theorem parsed_eq_error_iff {f : Failure} : r.parsed format = .error f ↔
    r.body ≠ [] ∧ r.parseBody format = .error f := by
  unfold parsed
  by_cases hempty : r.body = []
  · simp [hempty]
  · simp [hempty]

/-- The detail of a refusal is the body as text, if there is any. -/
theorem refusal_detail {f : Failure} (hf : f.detail = none) :
    (r.refusal f).detail =
      if r.body = [] then none else some (.str (Text.Utf8.decodeLossy r.body)) := by
  unfold refusal bodyText?
  by_cases hempty : r.body = []
  · simp [hempty, hf]
  · simp [hempty, Failure.withDetail]

/-- Which rule a report follows. -/
inductive Classified (r : Reply) (format : Format) (snapshot : Option Snapshot) : Report → Prop
  | unauthorized {f : Failure} (h : r.status = 401) (hkind : f.kind = .authentication)
    (hdetail : f.detail = none) :
    Classified r format snapshot (.failed (.http r.status) (r.refusal f) r.headers snapshot)
  | refused {f : Failure} (hrefused : 400 ≤ r.status ∧ r.status < 500) (h : r.status ≠ 401)
    (hkind : f.kind = .datasource) (hdetail : f.detail = none) :
    Classified r format snapshot (.failed (.http r.status) (r.refusal f) r.headers snapshot)
  | unreadable {f : Failure} (hrefused : ¬(400 ≤ r.status ∧ r.status < 500))
    (hparsed : r.parsed format = .error f) :
    Classified r format snapshot (.failed (.http r.status) f r.headers snapshot)
  | unexpected {f : Failure} {value : Json} (hrefused : ¬(400 ≤ r.status ∧ r.status < 500))
    (hstatus : ¬(200 ≤ r.status ∧ r.status < 300)) (hparsed : r.parsed format = .ok value)
    (hkind : f.kind = .plugin) (hdetail : f.detail = if value = .null then none else some value) :
    Classified r format snapshot (.failed (.http r.status) f r.headers snapshot)
  | success {value : Json} (hstatus : 200 ≤ r.status ∧ r.status < 300)
    (hparsed : r.parsed format = .ok value) :
    Classified r format snapshot (.success r.status value r.headers snapshot)

/-- **Every report follows one of the rules.** -/
theorem classify_classified (r : Reply) (format : Format) (snapshot : Option Snapshot) :
    Classified r format snapshot (r.classify format snapshot) := by
  unfold classify
  dsimp only
  by_cases hauth : r.status = 401
  · rw [if_pos hauth]
    exact .unauthorized hauth rfl rfl
  rw [if_neg hauth]
  by_cases hrefused : 400 ≤ r.status ∧ r.status < 500
  · rw [if_pos hrefused]
    exact .refused hrefused hauth rfl rfl
  rw [if_neg hrefused, value_eq]
  cases hparsed : r.parsed format with
  | error f => exact .unreadable hrefused hparsed
  | ok value =>
    have hsettled : (Except.ok value >>= r.settled) = r.settled value := rfl
    rw [hsettled]
    unfold settled
    by_cases hstatus : r.isSuccess = true
    · rw [if_pos hstatus]
      exact .success (isSuccess_iff.mp hstatus) hparsed
    · rw [if_neg hstatus]
      refine .unexpected hrefused (fun h => hstatus (isSuccess_iff.mpr h)) hparsed ?_ ?_
      · split <;> rfl
      · by_cases hnull : value = .null
        · simp [hnull, Json.isNull, Failure.plugin]
        · have hsome : value.isNull = false :=
            Bool.eq_false_iff.mpr fun h => hnull (value.isNull_iff.mp h)
          simp [hnull, hsome, Failure.withDetail]

/-! ### What follows from the rules -/

theorem kind?_failed (f : Failure) :
    (Report.failed (.http r.status) f r.headers snapshot).kind? = some f.kind := rfl

theorem detail?_failed (f : Failure) :
    (Report.failed (.http r.status) f r.headers snapshot).detail? = f.detail := rfl

/-- The kind of a report, with the condition under which it is that one. -/
theorem Classified.kind?_cases (h : r.Classified format snapshot report) :
    (report.kind? = some .authentication ∧ r.status = 401) ∨
    (report.kind? = some .datasource ∧ (400 ≤ r.status ∧ r.status < 500) ∧ r.status ≠ 401) ∨
    (report.kind? = some .parse ∧ ¬(400 ≤ r.status ∧ r.status < 500) ∧ r.Unreadable format) ∨
    (report.kind? = some .plugin ∧ ¬(400 ≤ r.status ∧ r.status < 500) ∧
      ¬(200 ≤ r.status ∧ r.status < 300) ∧ ¬r.Unreadable format) ∨
    (report.kind? = none ∧ (200 ≤ r.status ∧ r.status < 300) ∧ ¬r.Unreadable format) := by
  have readable {value : Json} (hparsed : r.parsed format = .ok value) :
      ¬r.Unreadable format := by
    rintro ⟨hbody, f, hf⟩
    have herror := parsed_eq_error_iff.mpr ⟨hbody, hf⟩
    rw [hparsed] at herror
    cases herror
  cases h with
  | unauthorized h hkind => exact .inl ⟨by rw [kind?_failed, refusal_kind, hkind], h⟩
  | refused hrefused h hkind =>
    exact .inr (.inl ⟨by rw [kind?_failed, refusal_kind, hkind], hrefused, h⟩)
  | unreadable hrefused hparsed =>
    obtain ⟨hbody, hf⟩ := parsed_eq_error_iff.mp hparsed
    exact .inr (.inr (.inl ⟨by rw [kind?_failed, parseBody_kind hf], hrefused, hbody, _, hf⟩))
  | unexpected hrefused hstatus hparsed hkind =>
    have hreadable := readable hparsed
    exact .inr (.inr (.inr (.inl ⟨by rw [kind?_failed, hkind], hrefused, hstatus, hreadable⟩)))
  | success hstatus hparsed =>
    exact .inr (.inr (.inr (.inr ⟨rfl, hstatus, readable hparsed⟩)))

/-- A report tells of no failure exactly if it is a success. -/
theorem Classified.isSuccess_iff_kind? (h : r.Classified format snapshot report) :
    report.isSuccess = true ↔ report.kind? = none := by
  cases h <;> simp [Report.kind?, Report.info?, Report.isSuccess, Report.failed, Report.success]

/-- What a refusal tells depends on nothing but the status and the body. -/
theorem Classified.refusal (h : r.Classified format snapshot report)
    (hrefused : 400 ≤ r.status ∧ r.status < 500) :
    report.kind? = some (if r.status = 401 then .authentication else .datasource) ∧
      report.detail? =
        if r.body = [] then none else some (.str (Text.Utf8.decodeLossy r.body)) := by
  cases h with
  | unauthorized h hkind hdetail =>
    rw [kind?_failed, detail?_failed, refusal_kind, refusal_detail hdetail, if_pos h, hkind]
    exact ⟨rfl, rfl⟩
  | refused _ h hkind hdetail =>
    rw [kind?_failed, detail?_failed, refusal_kind, refusal_detail hdetail, if_neg h, hkind]
    exact ⟨rfl, rfl⟩
  | unreadable hnot => exact absurd hrefused hnot
  | unexpected hnot => exact absurd hrefused hnot
  | success hstatus => omega

/-- What the rules say of the report on a reply. -/
structure Rules (r : Reply) (format : Format) (snapshot : Option Snapshot) (report : Report) :
    Prop where
  status : report.status = .http r.status
  headers : report.headers = r.headers
  snapshot : report.snapshot = snapshot
  success : report.isSuccess = true ↔ (200 ≤ r.status ∧ r.status < 300) ∧
    (r.body = [] ∨ ∃ value, r.parseBody format = .ok value)
  body : ∀ body, report.body? = some body ↔ (200 ≤ r.status ∧ r.status < 300) ∧
    (r.body = [] ∧ body = .null ∨ r.body ≠ [] ∧ r.parseBody format = .ok body)
  unauthorized : report.kind? = some .authentication ↔ r.status = 401
  refused : report.kind? = some .datasource ↔
    (400 ≤ r.status ∧ r.status < 500) ∧ r.status ≠ 401
  unreadable : report.kind? = some .parse ↔ ¬(400 ≤ r.status ∧ r.status < 500) ∧
    r.body ≠ [] ∧ ∃ f, r.parseBody format = .error f
  unexpected : report.kind? = some .plugin ↔ ¬(400 ≤ r.status ∧ r.status < 500) ∧
    ¬(200 ≤ r.status ∧ r.status < 300) ∧
    (r.body = [] ∨ ∃ value, r.parseBody format = .ok value)
  /-- A refusal tells the body as text, verbatim where it is text. -/
  refusal : 400 ≤ r.status ∧ r.status < 500 →
    report.detail? = (if r.body = [] then none else some (.str (Text.Utf8.decodeLossy r.body))) ∧
    ∀ s, Text.Utf8.decode r.body = .ok s → Text.Utf8.decodeLossy r.body = s
  /-- It tells the same in any format, with any headers, and whatever can be read. -/
  alike : 400 ≤ r.status ∧ r.status < 500 →
    ∀ (other : Reply) (format' : Format) (snapshot' : Option Snapshot),
      other.status = r.status → other.body = r.body →
        (other.classify format' snapshot').kind? = report.kind? ∧
        (other.classify format' snapshot').detail? = report.detail?
  /-- Another status that is no success tells the value that was read, unless it is null. -/
  value : report.kind? = some .plugin →
    (r.body = [] → report.detail? = none) ∧
    ∀ value, r.body ≠ [] → r.parseBody format = .ok value →
      report.detail? = if value = .null then none else some value

theorem Classified.body?_iff (h : r.Classified format snapshot report) (body : Json) :
    report.body? = some body ↔
      (200 ≤ r.status ∧ r.status < 300) ∧ r.parsed format = .ok body := by
  cases h with
  | unauthorized h => exact ⟨fun hbody => (nomatch hbody), fun hbody => by omega⟩
  | refused h => exact ⟨fun hbody => (nomatch hbody), fun hbody => by omega⟩
  | unreadable _ hparsed => simp [hparsed, Report.body?, Report.failed]
  | unexpected _ hstatus => simp [hstatus, Report.body?, Report.failed]
  | success hstatus hparsed => simp [hstatus, hparsed, Report.body?, Report.success]

theorem Classified.value (h : r.Classified format snapshot report) {value : Json}
    (hkind : report.kind? = some .plugin) (hparsed : r.parsed format = .ok value) :
    report.detail? = if value = .null then none else some value := by
  cases h with
  | unauthorized _ hauth =>
    rw [kind?_failed, refusal_kind, hauth] at hkind
    cases hkind
  | refused _ _ hrefused =>
    rw [kind?_failed, refusal_kind, hrefused] at hkind
    cases hkind
  | unreadable _ herror =>
    rw [hparsed] at herror
    cases herror
  | unexpected _ _ hvalue _ hdetail =>
    rw [hparsed] at hvalue
    cases hvalue
    rw [detail?_failed, hdetail]
  | success => cases hkind

/-- **The rules decide every reply**, whatever its status, its headers and its body. -/
theorem classify_rules (r : Reply) (format : Format) (snapshot : Option Snapshot) :
    r.Rules format snapshot (r.classify format snapshot) := by
  have h := r.classify_classified format snapshot
  have hstatus := r.classify_status format snapshot
  have hkinds := h.kind?_cases
  have hunreadable : r.Unreadable format ↔ r.body ≠ [] ∧ ∃ f, r.parseBody format = .error f :=
    Iff.rfl
  exact {
    status := hstatus.1
    headers := hstatus.2
    snapshot := by
      generalize r.classify format snapshot = report at h
      cases h <;> rfl
    success := by
      rw [h.isSuccess_iff_kind?, ← not_unreadable_iff]
      grind
    body := fun body => by rw [h.body?_iff, parsed_eq_ok_iff]
    unauthorized := by grind
    refused := by grind
    unreadable := by
      rw [← hunreadable]
      grind
    unexpected := by
      rw [← not_unreadable_iff]
      grind
    refusal := fun hrefused => ⟨(h.refusal hrefused).2, fun _ => Text.Utf8.decodeLossy_of_decode⟩
    alike := fun hrefused other format' snapshot' hsame hbody => by
      have hother := (other.classify_classified format' snapshot').refusal (hsame ▸ hrefused)
      have hthis := h.refusal hrefused
      rw [hother.1, hother.2, hthis.1, hthis.2, hsame, hbody]
      exact ⟨rfl, rfl⟩
    value := fun hkind => by
      refine ⟨fun hempty => ?_, fun value hbody hvalue => ?_⟩
      · exact h.value hkind (parsed_eq_ok_iff.mpr (.inl ⟨hempty, rfl⟩))
      · exact h.value hkind (parsed_eq_ok_iff.mpr (.inr ⟨hbody, hvalue⟩)) }

end Reply

end Relay
