/-
# The layers of a request

A request has the headers of the datasource that have a name, then those of the action as it is
after binding and sanitizing, and the query of both in the same order. Sanitizing comes after
binding, so it drops also what has become blank only by the values that were put in, and it is
the only step that looks at the action's part: building filters the datasource's part alone.
Nothing without a name is left to send.

Key definitions: `Plan.Sanitizes`, `Plan.Named`, `Rest.Layered`, `OpenAi.Layered`.
Key theorems: `plan_eq_ok_iff`, `not_blank_of_mem_layered`, `Rest.build_eq_ok`,
`OpenAi.build_eq_ok`, `plan_layered`.
-/
import Relay.Proofs.Binding
import Relay.Proofs.PreFlight

namespace Relay

/-! ### Properties that have a name -/

namespace Property

theorem mem_stripBlank {p : Property} {ps : List Property} :
    p ∈ stripBlank ps ↔ p ∈ ps ∧ p.isBlank = false := by
  simp [stripBlank]

/-- Nothing is among merged headers but what was given. -/
theorem mem_of_mem_mergeAuto {p : Property} {headers auto : List Property}
    (h : p ∈ mergeAuto headers auto) : p ∈ headers ∨ p ∈ auto := by
  unfold mergeAuto at h
  induction auto generalizing headers with
  | nil => exact .inl h
  | cons q auto ih =>
    rcases ih h with h | h
    · dsimp only at h
      split at h
      · exact .inl h
      · rcases List.mem_append.mp h with h | h
        · exact .inl h
        · exact .inr (List.mem_singleton.mp h ▸ List.mem_cons_self)
    · exact .inr (List.mem_cons_of_mem _ h)

/-- Of layered properties none is blank, if none of the action's is. -/
theorem not_blank_of_mem_layered {datasource action : List Property}
    (h : ∀ p ∈ action, p.isBlank = false) : ∀ p ∈ layered datasource action, p.isBlank = false := by
  intro p hp
  rcases List.mem_append.mp hp with hp | hp
  · exact (mem_stripBlank.mp hp).2
  · exact h p hp

end Property

namespace Action

variable (a : Action)

theorem not_blank_of_mem_headers : ∀ p ∈ a.sanitize.headers, p.isBlank = false := by
  intro p hp
  rcases Property.mem_of_mem_mergeAuto hp with hp | hp
  · exact (Property.mem_stripBlank.mp hp).2
  · exact (Property.mem_stripBlank.mp hp).2

theorem not_blank_of_mem_query : ∀ p ∈ a.sanitize.query, p.isBlank = false :=
  fun _ hp => (Property.mem_stripBlank.mp hp).2

theorem not_blank_of_mem_form : ∀ p ∈ a.sanitize.form, p.isBlank = false :=
  fun _ hp => (Property.mem_stripBlank.mp hp).2

end Action

/-- The form fields of a body. -/
def Body.fields : Body → List Property
  | .form fields => fields
  | .multipart fields => fields
  | _ => []

/-- An action is planned when it is bound, and a command is selected and a request built for the
sanitized action. -/
theorem Dispatcher.plan_eq_ok_iff {c : Connector} {i : Invocation} {ds : Datasource}
    {action : Action} {p : Plan} :
    plan c i ds action = .ok p ↔
      ∃ bound, action.resolve i.params = .ok ⟨bound, p.inserted⟩ ∧ p.action = bound.sanitize ∧
        c.select p.action = .ok p.command ∧ p.command.build p.action ds i = .ok p.request := by
  unfold plan
  simp only [except_bind_eq_ok_iff, except_mapError_eq_ok_iff]
  constructor
  · rintro ⟨bound, hbound, command, hselect, request, hbuild, hp⟩
    cases hp
    exact ⟨bound.action, hbound, rfl, hselect, hbuild⟩
  · rintro ⟨bound, hbound, haction, hselect, hbuild⟩
    obtain ⟨sanitized, inserted, command, request⟩ := p
    cases haction
    exact ⟨_, hbound, command, hselect, request, hbuild, rfl⟩

namespace Rest

/-- Text and JSON have no fields. -/
theorem fields_text (text : Option String) : ((text.map Body.text).getD .empty).fields = [] := by
  cases text <;> rfl

theorem fields_json (value : Option Json) (text : Option String) :
    ((value.map Body.json).getD ((text.map Body.text).getD .empty)).fields = [] := by
  cases value with
  | none => exact fields_text text
  | some value => rfl

/-- A body has no fields but those of the form. -/
theorem mem_form_of_buildBody {method : Method} {type text : Option String}
    {form : List Property} {body : Body} (h : buildBody method type text form = .ok body) :
    ∀ f ∈ body.fields, f ∈ form := by
  have hnone {body : Body} (hbody : body.fields = []) : ∀ f ∈ body.fields, f ∈ form := by
    simp [hbody]
  unfold buildBody at h
  dsimp only at h
  split at h
  · cases h
    exact hnone rfl
  · split at h
    · cases h
      exact hnone (fields_text _)
    · split at h
      · cases h
        exact fun _ hf => hf
      · split at h
        · split at h
          · cases h
          · cases h
            exact fun _ hf => hf
        · split at h
          · cases h
            exact hnone (fields_json _ _)
          · cases h
            exact hnone (fields_text _)

/-- A request has the layered headers and no fields but those of the form. -/
theorem build_eq_ok {a : Action} {ds : Datasource} {i : Invocation} {r : Request}
    (h : build a ds i = .ok r) :
    r.headers = Property.layered ds.headers a.headers ∧ (∀ f ∈ r.body.fields, f ∈ a.form) ∧
      buildUrl a ds i = .ok r.url := by
  obtain ⟨url, hurl, h⟩ := except_bind_eq_ok_iff.mp h
  obtain ⟨body, hbody, h⟩ := except_bind_eq_ok_iff.mp h
  cases h
  exact ⟨rfl, mem_form_of_buildBody (except_mapError_eq_ok_iff.mp hbody), hurl⟩

/-- The URL is that of a page, or the path's with the layered query. -/
theorem buildUrl_eq_ok {a : Action} {ds : Datasource} {i : Invocation} {url : Url}
    (h : buildUrl a ds i = .ok url) :
    (∃ page, pageUrl? a i = .ok (some page) ∧ Request.joinUrl ds.url (some page) = .ok url) ∨
    ∃ base, pageUrl? a i = .ok none ∧ Request.joinUrl ds.url a.path = .ok base ∧
      url = Request.appendQuery base (Property.layered ds.query a.query) a.encodeQuery := by
  obtain ⟨page, hpage, h⟩ := except_bind_eq_ok_iff.mp h
  have hpage := except_mapError_eq_ok_iff.mp hpage
  cases page with
  | some page => exact .inl ⟨page, hpage, h⟩
  | none =>
    obtain ⟨base, hbase, h⟩ := except_bind_eq_ok_iff.mp h
    cases h
    exact .inr ⟨base, hpage, hbase, rfl⟩

theorem select_eq_ok {a : Action} {c : Command} (h : select a = .ok c) : c = command := by
  unfold select at h
  split at h
  · cases h
    rfl
  · cases h

end Rest

namespace OpenAi

/-- The content type is declared for a task that sends JSON, unless it is there already. -/
def declared (task : Task) (headers : List Property) : List Property :=
  if task = .listModels ∨ ∃ h ∈ headers, Text.foldName h.key = "content-type" then []
  else [⟨"Content-Type", "application/json"⟩]

theorem withJsonType_eq {task : Task} (htask : task ≠ .listModels) (headers : List Property) :
    withJsonType headers = headers ++ declared task headers := by
  have hlower : Text.lower "content-type" = "content-type" := by decide +kernel
  have hany : (headers.any fun h => h.hasName "content-type") = true ↔
      ∃ h ∈ headers, Text.foldName h.key = "content-type" := by
    simp [List.any_eq_true, Property.hasName, hlower]
  unfold withJsonType declared
  by_cases hthere : (headers.any fun h => h.hasName "content-type") = true
  · rw [if_pos hthere, if_pos (.inr (hany.mp hthere)), List.append_nil]
  · rw [if_neg hthere, if_neg fun h => h.elim htask fun h => hthere (hany.mpr h)]

theorem not_blank_of_mem_declared {task : Task} {headers : List Property} :
    ∀ h ∈ declared task headers, h.isBlank = false := by
  intro h hh
  unfold declared at hh
  split at hh
  · exact absurd hh List.not_mem_nil
  · rw [List.mem_singleton.mp hh]
    decide

/-- A request goes to a path below the base. -/
theorem request_eq_ok {method : Method} {ds : Datasource} {path : String} {body : Body}
    {headers : List Property} {r : Request} (h : request method ds path body headers = .ok r) :
    r.headers = headers ∧ r.body = body ∧
      ∃ path, Request.joinUrl (some (baseUrl ds)) (some path) = .ok r.url := by
  obtain ⟨url, hurl, h⟩ := except_bind_eq_ok_iff.mp h
  cases h
  exact ⟨rfl, rfl, path, hurl⟩

/-- What is built has the layered headers with the declared content type, no form, and nothing
appended to its URL. -/
theorem build_eq_ok {task : Task} {a : Action} {ds : Datasource} {i : Invocation} {r : Request}
    (h : build task a ds i = .ok r) :
    r.headers = Property.layered ds.headers a.headers ++
      declared task (Property.layered ds.headers a.headers) ∧
    r.body.fields = [] ∧ ∃ path, Request.joinUrl (some (baseUrl ds)) (some path) = .ok r.url := by
  cases task with
  | chat =>
    obtain ⟨chat, -, h⟩ := except_bind_eq_ok_iff.mp h
    obtain ⟨hheaders, hbody, hurl⟩ := request_eq_ok h
    exact ⟨hheaders.trans (withJsonType_eq (by decide) _), by rw [hbody]; rfl, hurl⟩
  | embeddings =>
    obtain ⟨embeddings, -, h⟩ := except_bind_eq_ok_iff.mp h
    obtain ⟨hheaders, hbody, hurl⟩ := request_eq_ok h
    exact ⟨hheaders.trans (withJsonType_eq (by decide) _), by rw [hbody]; rfl, hurl⟩
  | listModels =>
    obtain ⟨hheaders, hbody, hurl⟩ := request_eq_ok h
    exact ⟨hheaders.trans (List.append_nil _).symm, by rw [hbody]; rfl, hurl⟩

theorem select_eq_ok {a : Action} {c : Command} (h : select a = .ok c) :
    ∃ task, Task.ofForm? a.formData = .ok task ∧ c = task.command := by
  unfold select at h
  cases htask : Task.ofForm? a.formData with
  | error f =>
    rw [htask] at h
    cases h
  | ok task =>
    rw [htask] at h
    cases h
    exact ⟨task, rfl, rfl⟩

end OpenAi

/-! ### Planned requests -/

/-- The plan is for the action as it is bound and then sanitized. -/
def Plan.Sanitizes (action : Action) (i : Invocation) (p : Plan) : Prop :=
  ∃ bound, action.resolve i.params = .ok ⟨bound, p.inserted⟩ ∧ p.action = bound.sanitize

/-- No header and no form field of the request has a blank name. -/
structure Plan.Named (p : Plan) : Prop where
  headers : ∀ h ∈ p.request.headers, h.isBlank = false
  fields : ∀ f ∈ p.request.body.fields, f.isBlank = false

/-- A request to a REST API has the headers of the datasource and then those of the action. Its
URL is that of a page, or that of the path with the parameters of both in the same order, of
which none has a blank name. -/
structure Rest.Layered (i : Invocation) (ds : Datasource) (p : Plan) : Prop where
  headers : p.request.headers = Property.stripBlank ds.headers ++ p.action.headers
  url : (∃ page, pageUrl? p.action i = .ok (some page) ∧
      Request.joinUrl ds.url (some page) = .ok p.request.url) ∨
    ∃ base, pageUrl? p.action i = .ok none ∧ Request.joinUrl ds.url p.action.path = .ok base ∧
      p.request.url = Request.appendQuery base (Property.stripBlank ds.query ++ p.action.query)
        p.action.encodeQuery
  query : ∀ q ∈ Property.stripBlank ds.query ++ p.action.query, q.isBlank = false

/-- A request to the OpenAI service has the headers of the datasource, then those of the
action, and then the content type if it is declared for the task. Nothing is appended to its
URL. -/
structure OpenAi.Layered (ds : Datasource) (p : Plan) : Prop where
  headers : ∃ task, Task.ofForm? p.action.formData = .ok task ∧ p.command = task.command ∧
    p.request.headers = Property.stripBlank ds.headers ++ p.action.headers ++
      declared task (Property.stripBlank ds.headers ++ p.action.headers)
  url : ∃ path, Request.joinUrl (some (baseUrl ds)) (some path) = .ok p.request.url

namespace Dispatcher

variable {i : Invocation} {ds : Datasource} {action : Action} {p : Plan}

theorem plan_rest_layered (h : plan Rest.connector i ds action = .ok p) :
    p.Sanitizes action i ∧ p.Named ∧ Rest.Layered i ds p := by
  obtain ⟨bound, hbound, haction, hselect, hbuild⟩ := plan_eq_ok_iff.mp h
  rw [Rest.select_eq_ok hselect] at hbuild
  obtain ⟨hheaders, hfields, hurl⟩ := Rest.build_eq_ok hbuild
  refine ⟨⟨bound, hbound, haction⟩, ⟨?_, fun f hf => ?_⟩, hheaders, Rest.buildUrl_eq_ok hurl, ?_⟩
  · rw [hheaders, haction]
    exact Property.not_blank_of_mem_layered bound.not_blank_of_mem_headers
  · have hform := hfields f hf
    rw [haction] at hform
    exact bound.not_blank_of_mem_form f hform
  · rw [haction]
    exact Property.not_blank_of_mem_layered bound.not_blank_of_mem_query

theorem plan_openAi_layered (h : plan OpenAi.connector i ds action = .ok p) :
    p.Sanitizes action i ∧ p.Named ∧ OpenAi.Layered ds p := by
  obtain ⟨bound, hbound, haction, hselect, hbuild⟩ := plan_eq_ok_iff.mp h
  rw [OpenAi.connector_select] at hselect
  obtain ⟨task, htask, hcommand⟩ := OpenAi.select_eq_ok hselect
  rw [hcommand] at hbuild
  have htaskBuild : OpenAi.build task p.action ds i = .ok p.request := hbuild
  obtain ⟨hheaders, hfields, hurl⟩ := OpenAi.build_eq_ok htaskBuild
  refine ⟨⟨bound, hbound, haction⟩, ⟨fun header hheader => ?_, fun f hf => ?_⟩,
    ⟨task, htask, hcommand, hheaders⟩, hurl⟩
  · rw [hheaders, List.mem_append] at hheader
    rcases hheader with hheader | hheader
    · rw [haction] at hheader
      exact Property.not_blank_of_mem_layered bound.not_blank_of_mem_headers header hheader
    · exact OpenAi.not_blank_of_mem_declared header hheader
  · rw [hfields] at hf
    exact absurd hf List.not_mem_nil

/-- **Nothing without a name is sent, and the layers keep their order.** An action that is
planned is bound first and then sanitized. Then no header and no form field of its request has
a blank name, whatever the values are that were put in. -/
theorem plan_layered (i : Invocation) (ds : Datasource) (action : Action) (p : Plan) :
    (plan Rest.connector i ds action = .ok p →
      p.Sanitizes action i ∧ p.Named ∧ Rest.Layered i ds p) ∧
    (plan OpenAi.connector i ds action = .ok p →
      p.Sanitizes action i ∧ p.Named ∧ OpenAi.Layered ds p) :=
  ⟨plan_rest_layered, plan_openAi_layered⟩

/-- A datasource with a header and a parameter without a name. -/
def gappy : Datasource :=
  { url := some "http://a.test"
    headers := [⟨" ", "x"⟩, ⟨"A", "1"⟩]
    query := [⟨"", "y"⟩, ⟨"b", "2"⟩] }

/-- An action whose names are all put in, besides those of a form. -/
def unnamedForm : Action :=
  { method := .post
    headers := [⟨"{{k}}", "u"⟩, ⟨"Content-Type", "application/x-www-form-urlencoded"⟩]
    autoHeaders := [⟨"{{k}}", "v"⟩]
    query := [⟨"{{k}}", "3"⟩, ⟨"c", "4"⟩]
    form := [⟨"{{k}}", "5"⟩, ⟨"d", "6"⟩] }

def unnamedText : Action :=
  { headers := [⟨"{{k}}", "u"⟩]
    formData := [("command", .str "EMBEDDINGS"),
      ("embeddings", .obj [("input", .str "text"), ("model", .str "small")])] }

/-- Names that become blank when they are put in are not sent. The content type is declared to
the service only. -/
theorem plan_layered_unnamed : ∃ p q,
    plan Rest.connector { params := [("k", .str "\t ")] } gappy unnamedForm = .ok p ∧
    plan OpenAi.connector { params := [("k", .str "\t ")] } gappy unnamedText = .ok q ∧
    p.request.headers = [⟨"A", "1"⟩, ⟨"Content-Type", "application/x-www-form-urlencoded"⟩] ∧
    p.request.url.query = some "b=2&c=4" ∧ p.request.body = .form [⟨"d", "6"⟩] ∧
    q.request.headers = [⟨"A", "1"⟩, ⟨"Content-Type", "application/json"⟩] ∧
    p.Named ∧ Rest.Layered { params := [("k", .str "\t ")] } gappy p ∧
    q.Named ∧ OpenAi.Layered gappy q := by
  have hform : unnamedForm.resolve [("k", .str "\t ")] =
      .ok ⟨{ unnamedForm with
        headers := [⟨"\t ", "u"⟩, ⟨"Content-Type", "application/x-www-form-urlencoded"⟩]
        autoHeaders := [⟨"\t ", "v"⟩]
        query := [⟨"\t ", "3"⟩, ⟨"c", "4"⟩]
        form := [⟨"\t ", "5"⟩, ⟨"d", "6"⟩] }, [⟨"k", .str "\t "⟩]⟩ := by
    have hexpressions : unnamedForm.expressions = ["k", "k", "k", "k"] := by cbv
    rw [Action.resolve_eq_ok_iff, hexpressions]
    exact ⟨rfl, by cbv⟩
  have htext : unnamedText.resolve [("k", .str "\t ")] =
      .ok ⟨{ unnamedText with headers := [⟨"\t ", "u"⟩] }, [⟨"k", .str "\t "⟩]⟩ := by
    have hexpressions : unnamedText.expressions = ["k"] := by cbv
    rw [Action.resolve_eq_ok_iff, hexpressions]
    exact ⟨rfl, by cbv⟩
  have hbuildRest : Rest.build
      { unnamedForm with
        headers := [⟨"Content-Type", "application/x-www-form-urlencoded"⟩]
        autoHeaders := []
        query := [⟨"c", "4"⟩]
        form := [⟨"d", "6"⟩] } gappy { params := [("k", .str "\t ")] } = .ok
        { method := .post
          url := ⟨"http", some ⟨"", none, some (.domain "a.test"), none⟩, "/",
            some "b=2&c=4", none⟩
          headers := [⟨"A", "1"⟩, ⟨"Content-Type", "application/x-www-form-urlencoded"⟩]
          body := .form [⟨"d", "6"⟩] } :=
    except_eq_ok_of_toOption (by decide +kernel)
  have hrest : plan Rest.connector { params := [("k", .str "\t ")] } gappy unnamedForm = .ok
      ⟨_, [⟨"k", .str "\t "⟩], Rest.command, _⟩ :=
    plan_eq_ok_iff.mpr ⟨_, hform, by decide +kernel, rfl, hbuildRest⟩
  have htask : OpenAi.Task.ofForm? unnamedText.formData = .ok .embeddings :=
    except_eq_ok_of_toOption (by decide +kernel)
  have hselect : OpenAi.connector.select { unnamedText with headers := [] } =
      .ok OpenAi.Task.embeddings.command := by
    rw [OpenAi.connector_select]
    exact congrArg (Except.map OpenAi.Task.command) htask
  have hbuild : OpenAi.build .embeddings { unnamedText with headers := [] } gappy
      { params := [("k", .str "\t ")] } = .ok
        { method := .post
          url := ⟨"http", some ⟨"", none, some (.domain "a.test"), none⟩, "/v1/embeddings",
            none, none⟩
          headers := [⟨"A", "1"⟩, ⟨"Content-Type", "application/json"⟩]
          body := .json (.obj [("input", .str "text"), ("model", .str "small")]) } :=
    except_eq_ok_of_toOption (by decide +kernel)
  have hopenAi : plan OpenAi.connector { params := [("k", .str "\t ")] } gappy unnamedText = .ok
      ⟨{ unnamedText with headers := [] }, [⟨"k", .str "\t "⟩], _, _⟩ :=
    plan_eq_ok_iff.mpr ⟨_, htext, by decide +kernel, hselect, hbuild⟩
  obtain ⟨-, hnamed, hlayered⟩ := (plan_layered _ _ _ _).1 hrest
  obtain ⟨-, hnamed', hlayered'⟩ := (plan_layered _ _ _ _).2 hopenAi
  exact ⟨_, _, hrest, hopenAi, rfl, rfl, rfl, rfl, hnamed, hlayered, hnamed', hlayered'⟩

end Dispatcher

end Relay
