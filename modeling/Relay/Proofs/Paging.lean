/-
# Following a page

An action that pages by URL names the pages before and behind it. Where one of them is asked
for, its URL is the whole target of the request: path and query of the action play no part, nor
does the query of the datasource, whose URL is the base of a relative page. Where that page is
blank, nothing is built. An action that pages in another way is built as if no page were there
and none were asked for. The rest of a request, its message, knows nothing of its target.

Key definitions: `Action.page`, `Action.SameMessage`, `Rest.addressed`, `Rest.FollowsPage`.
Key theorems: `build_eq`, `buildUrl_of_page`, `pageUrl?_of_ne_url`, `page_is_target`.
-/
import Relay.Connector.Rest
import Relay.Proofs.Except

namespace Relay

namespace Action

/-- The URL of a neighbouring page, as it is configured. -/
def linked (a : Action) : PageLink → Option String
  | .next => a.next
  | .prev => a.prev

/-- The URL of a neighbouring page without blanks around it; empty if there is none. -/
def page (a : Action) (link : PageLink) : String := Text.trim ((a.linked link).getD "")

/-- The actions say the same, wherever they say it: path, query and pages may differ. -/
structure SameMessage (a b : Action) : Prop where
  method : a.method = b.method
  headers : a.headers = b.headers
  body : a.body = b.body
  form : a.form = b.form

end Action

namespace Rest

variable {a b : Action} {d : Datasource} {i j : Invocation} {link : PageLink}

/-! ### Target and message -/

/-- The request of an action to this URL: method, headers and body. -/
def addressed (a : Action) (d : Datasource) (url : Url) : Except Failure Request := do
  let headers := Property.layered d.headers a.headers
  let body ← (buildBody a.method (contentType? headers) a.body a.form).mapError Fault.failure
  pure { method := a.method, url, headers, body }

/-- **A request is its target and its message.** -/
theorem build_eq : build a d i = buildUrl a d i >>= addressed a d := rfl

theorem url_of_addressed {url : Url} {r : Request} (h : addressed a d url = .ok r) :
    r.url = url := by
  obtain ⟨body, -, h⟩ := except_bind_eq_ok_iff.mp h
  cases h
  rfl

/-- The message is the same where the actions say the same, whatever is asked of the datasource
besides. -/
theorem addressed_congr (h : a.SameMessage b) (query : List Property) :
    addressed a d = addressed b { d with query } := by
  obtain ⟨hmethod, hheaders, hbody, hform⟩ := h
  unfold addressed
  rw [hmethod, hheaders, hbody, hform]

/-! ### Pages -/

theorem pageUrl?_of_url (hpaging : a.paging = .url) (hlink : i.page = some link) :
    pageUrl? a i =
      if a.page link = "" then .error (.missingPage link) else .ok (some (a.page link)) := by
  have hpage : pageUrl? a i =
      if a.page link == "" then .error (.missingPage link) else .ok (some (a.page link)) := by
    unfold pageUrl?
    rw [hpaging, hlink]
    cases link with
    | next => rfl
    | prev => rfl
  rw [hpage]
  by_cases hblank : a.page link = ""
  · rw [if_pos hblank, if_pos (beq_iff_eq.mpr hblank)]
  · rw [if_neg hblank, if_neg (by simpa using hblank)]

/-- Only an action that pages by URL has a page to ask for. -/
theorem pageUrl?_of_ne_url (hpaging : a.paging ≠ .url) : pageUrl? a i = .ok none := by
  unfold pageUrl?
  split
  · exact absurd (by assumption) hpaging
  · rfl

/-- **The page that is asked for is the target.** -/
theorem buildUrl_of_page (hpaging : a.paging = .url) (hlink : i.page = some link) :
    buildUrl a d i =
      if a.page link = "" then .error (Fault.missingPage link).failure
      else Request.joinUrl d.url (some (a.page link)) := by
  unfold buildUrl
  rw [pageUrl?_of_url hpaging hlink]
  by_cases hblank : a.page link = ""
  · rw [if_pos hblank, if_pos hblank, except_error_mapError, except_error_bind]
  · rw [if_neg hblank, if_neg hblank, except_ok_mapError, except_ok_bind]

/-- Without paging by URL the target is the path with the query of both. -/
theorem buildUrl_of_ne_url (hpaging : a.paging ≠ .url) :
    buildUrl a d i = (do
      let url ← Request.joinUrl d.url a.path
      pure (Request.appendQuery url (Property.layered d.query a.query) a.encodeQuery)) := by
  unfold buildUrl
  rw [pageUrl?_of_ne_url hpaging, except_ok_mapError, except_ok_bind]

/-- The request of an action goes to the page that the link names: to that joined to the URL of
the datasource if it is not blank, and else nowhere, which is a fault of the configuration. -/
structure FollowsPage (link : PageLink) (a : Action) (d : Datasource) (i : Invocation) : Prop where
  missing : a.page link = "" →
    build a d i = .error (.configuration (Fault.missingPage link).message)
  unjoined : a.page link ≠ "" → ∀ f, Request.joinUrl d.url (some (a.page link)) = .error f →
    build a d i = .error f
  joined : a.page link ≠ "" → ∀ url, Request.joinUrl d.url (some (a.page link)) = .ok url →
    build a d i = addressed a d url
  url : ∀ r, build a d i = .ok r →
    a.page link ≠ "" ∧ Request.joinUrl d.url (some (a.page link)) = .ok r.url

theorem followsPage (hpaging : a.paging = .url) (hlink : i.page = some link) :
    FollowsPage link a d i where
  missing hblank := by
    rw [build_eq, buildUrl_of_page hpaging hlink, if_pos hblank, except_error_bind, Fault.failure]
  unjoined hpage f hf := by
    rw [build_eq, buildUrl_of_page hpaging hlink, if_neg hpage, hf, except_error_bind]
  joined hpage url hurl := by
    rw [build_eq, buildUrl_of_page hpaging hlink, if_neg hpage, hurl, except_ok_bind]
  url r hr := by
    rw [build_eq, buildUrl_of_page hpaging hlink] at hr
    obtain ⟨url, hurl, hr⟩ := except_bind_eq_ok_iff.mp hr
    rw [url_of_addressed hr]
    by_cases hblank : a.page link = ""
    · rw [if_pos hblank] at hurl
      cases hurl
    · rw [if_neg hblank] at hurl
      exact ⟨hblank, hurl⟩

/-- Where a page is asked for, two actions that page by URL and have the same page there make the
same request if they say the same. -/
theorem build_congr_of_page (hlink : i.page = some link) (ha : a.paging = .url)
    (hb : b.paging = .url) (hpage : a.linked link = b.linked link) (h : a.SameMessage b)
    (query : List Property) : build a d i = build b { d with query } i := by
  have hsame : a.page link = b.page link := by rw [Action.page, hpage, Action.page]
  rw [build_eq, build_eq, buildUrl_of_page ha hlink, buildUrl_of_page hb hlink, hsame,
    addressed_congr h query]

/-- **A page that is asked for is the whole target**, and only where an action pages by URL. Two
actions that have the same page there follow it both, whatever else they hold and whatever query
the datasource has, and make the same request if they say the same. Any other action builds the
same whatever pages it names and whichever is asked for. -/
theorem page_is_target (d : Datasource) (i : Invocation) :
    (∀ (link : PageLink) (a b : Action) (query : List Property), i.page = some link →
      a.paging = .url → b.paging = .url → a.linked link = b.linked link →
      a.page link = b.page link ∧
      FollowsPage link a d i ∧ FollowsPage link b { d with query } i ∧
      (a.SameMessage b → build a d i = build b { d with query } i)) ∧
    ∀ (a : Action) (page : Option PageLink) (next prev : Option String), a.paging ≠ .url →
      build { a with next, prev } d { i with page } = build a d i := by
  refine ⟨fun link a b query hlink ha hb hpage => ?_, fun a page next prev ha => ?_⟩
  · exact ⟨by rw [Action.page, hpage, Action.page], followsPage ha hlink, followsPage hb hlink,
      fun h => build_congr_of_page hlink ha hb hpage h query⟩
  · have hother : ({ a with next, prev } : Action).paging ≠ .url := ha
    rw [build_eq, build_eq, buildUrl_of_ne_url hother, buildUrl_of_ne_url ha]
    rfl

/-- The next page of this listing is below the datasource, and it has none before it. -/
def listing : Action :=
  { path := some "/users"
    query := [⟨"page", "1"⟩]
    paging := .url
    next := some " /users?page=2 " }

/-- Elsewhere and with another page before it, but with the same page behind. -/
def otherListing : Action :=
  { path := some "https://b.test/"
    encodeQuery := false
    paging := .url
    next := some " /users?page=2 "
    prev := some "/users?page=0" }

def regional : Datasource := { url := some "https://a.test/v1", query := [⟨"region", "eu"⟩] }

/-- Both listings go on with the same request, and neither path nor query are in it. The first
has nowhere to go back to; paged by cursor, it goes nowhere else. -/
theorem page_is_target_relative :
    (listing.linked .next = otherListing.linked .next ∧ listing.SameMessage otherListing ∧
      listing.paging = .url ∧ otherListing.paging = .url) ∧
    build listing regional { page := some .next } =
      build otherListing { regional with query := [] } { page := some .next } ∧
    (∃ r, build listing regional { page := some .next } = .ok r ∧
      r.url.path = "/v1/users" ∧ r.url.query = some "page=2") ∧
    build listing regional { page := some .prev } =
      .error (.configuration "no Prev page URL is configured") ∧
    build { listing with paging := .cursor, next := none, prev := some "x" } regional
        { page := some .prev } =
      build { listing with paging := .cursor } regional {} := by
  have hsame : listing.SameMessage otherListing := ⟨rfl, rfl, rfl, rfl⟩
  have hpage : listing.page .next ≠ "" := by decide +kernel
  have hurl : Request.joinUrl regional.url (some (listing.page .next)) = .ok
      ⟨"https", some ⟨"", none, some (.domain "a.test"), none⟩, "/v1/users", some "page=2",
        none⟩ :=
    except_eq_ok_of_toOption (by decide +kernel)
  obtain ⟨-, hnext, -, hequal⟩ := (page_is_target regional { page := some .next }).1 .next
    listing otherListing [] rfl rfl rfl rfl
  obtain ⟨-, hprev, -⟩ := (page_is_target regional { page := some .prev }).1 .prev
    listing listing [] rfl rfl rfl rfl
  have hcursor := (page_is_target regional {}).2 { listing with paging := .cursor } (some .prev)
    none (some "x") (by decide)
  exact ⟨⟨rfl, hsame, rfl, rfl⟩, hequal hsame, ⟨_, hnext.joined hpage _ hurl, rfl, rfl⟩,
    hprev.missing (by decide +kernel), hcursor⟩

end Rest

end Relay
