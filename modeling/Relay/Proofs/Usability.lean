/-
# Datasources that were found valid

The URL of a datasource is looked at alone, and every request goes to that URL with a path behind
it. Both texts have the same scheme and the same text up to the end of the authority, with one
exception. Controls at the end of a text are not read. Behind them the path stands in the other
text, so there they are; and where nothing but them stands between the authority and the path,
they belong to the authority, which is then refused. Blanks at the end do no harm, since they are
trimmed before, but the controls below the tab and most of those behind it are no blanks.

Key definitions: `Url.Exposed`.
Key theorems: `authorityText_append_controls`, `webUrl_of_authorityText`, `webUrl_joinText`,
`OpenAi.connector_usable`.
-/
import Relay.Proofs.Landing
import Relay.Proofs.Binding
import Relay.Proofs.PreFlight

namespace Relay

open Text

namespace Url

/-! ### The text of an authority -/

/-- In front of a path an authority has the same text as in front of slashes, or of nothing. -/
theorem authorityText_append_slash {common slashes : List Char} (path : List Char)
    (hslash : ∀ c ∈ slashes, c = '/') (hne : authorityText (common ++ slashes) ≠ []) :
    authorityText (common ++ '/' :: path) = authorityText (common ++ slashes) := by
  have hpath : (('/' :: path).takeWhile fun c => !isAuthorityEnd true c) = [] := rfl
  unfold authorityText
  rw [skip_append hslash hne, skip_append hslash hne, List.takeWhile_append,
    List.takeWhile_append, untilEnd_slashes hslash, hpath]

/-- **Controls in front of a path belong to the authority if nothing stands behind it.** -/
theorem authorityText_append_controls {cs controls : List Char} (hne : authorityText cs ≠ [])
    (hcontrol : ∀ c ∈ controls, c.toNat ≤ 32) (path : List Char) :
    authorityText (cs ++ (controls ++ '/' :: path)) =
      if behindAuthority cs = [] then authorityText cs ++ controls else authorityText cs := by
  have hskip (tail : List Char) : (cs ++ tail).dropWhile (isSlash true) =
      cs.dropWhile (isSlash true) ++ tail := by
    have hslash : ∀ c ∈ ([] : List Char), c = '/' := fun c hc => absurd hc List.not_mem_nil
    exact skip_append hslash (by rwa [List.append_nil]) tail
  unfold authorityText behindAuthority
  rw [hskip]
  generalize cs.dropWhile (isSlash true) = front
  have hsplit := List.takeWhile_append_dropWhile (p := fun c => !isAuthorityEnd true c) (l := front)
  rw [List.takeWhile_append, untilEnd_controls hcontrol]
  by_cases hnone : front.dropWhile (fun c => !isAuthorityEnd true c) = []
  · rw [hnone, List.append_nil] at hsplit
    rw [if_pos hnone, if_pos (by rw [hsplit]), hsplit]
  · rw [if_neg hnone, if_neg]
    intro hlength
    have hlengths := congrArg List.length hsplit
    rw [List.length_append, hlength, Nat.add_eq_left] at hlengths
    exact hnone (List.length_eq_zero_iff.mp hlengths)

/-- The text ends in a control, and that is read as the end of the authority if more text is put
behind it. -/
def Exposed (s : String) : Prop :=
  EndsInControl s.toList ∧ ∃ scheme rest,
    cutScheme? (clean s.toList) = some (scheme, rest) ∧ behindAuthority rest = []

end Url

namespace Request

open Url

/-- **The text of an authority decides over the URL**, whatever stands behind it. -/
theorem webUrl_of_authorityText {s t : String} {u : Url} {rest rest' : List Char}
    (hu : webUrl s = .ok u) (hcut : cutScheme? (clean s.toList) = some (u.scheme, rest))
    (hcut' : cutScheme? (clean t.toList) = some (u.scheme, rest'))
    (htext : authorityText rest' = authorityText rest) :
    ∃ v, webUrl t = .ok v ∧ v.scheme = u.scheme ∧ v.authority = u.authority := by
  obtain ⟨hspecial, rest₀, hcut₀, hread⟩ := afterSlashes?_of_webUrl hu
  obtain ⟨-, rfl⟩ := Prod.mk.inj (Option.some.inj (hcut₀.symm.trans hcut))
  obtain ⟨-, a, ha, hauthority⟩ := afterSlashes?_eq_ok hread
  rw [hspecial] at ha
  have ha' : authority? u.scheme (authorityText rest') (behindAuthority rest') = .ok a := by
    rw [htext]
    exact authority?_of_text hspecial ha _
  obtain ⟨v, hv, hscheme, hauthority'⟩ : ∃ v,
      afterSlashes? u.scheme (rest'.dropWhile (isSlash true)) = .ok v ∧ v.scheme = u.scheme ∧
        v.authority = some a := by
    unfold afterSlashes?
    rw [hspecial]
    change ∃ v, (authority? u.scheme (authorityText rest') (behindAuthority rest') >>= _) = _ ∧ _
    rw [ha']
    exact ⟨_, rfl, rfl, rfl⟩
  have hweb := (webUrl_eq_ok_iff.mp hu).2
  have hfile : ¬(u.scheme == "file") = true := by
    intro heq
    rw [eq_of_beq heq] at hweb
    exact absurd hweb (by decide)
  refine ⟨v, webUrl_eq_ok_iff.mpr ⟨?_, by rw [hscheme]; exact hweb⟩, hscheme,
    hauthority'.trans hauthority.symm⟩
  unfold parse?
  rw [hcut']
  dsimp only
  unfold afterScheme?
  rw [if_neg hfile, if_pos hspecial, hv]

/-- The only failures are those of a configuration. -/
theorem webUrl_error {s : String} (h : ¬∃ u, webUrl s = .ok u) :
    ∃ message, webUrl s = .error (.configuration message) := by
  unfold webUrl at h ⊢
  cases hurl : Url.parse? s with
  | error fault => exact ⟨_, rfl⟩
  | ok url =>
    rw [hurl] at h
    dsimp only at h ⊢
    split
    · rename_i hweb
      rw [if_pos hweb] at h
      exact absurd ⟨url, rfl⟩ h
    · exact ⟨_, rfl⟩

/-- An authority with controls at its end is refused. -/
theorem not_webUrl_of_controls {t : String} {scheme : String} {rest text controls : List Char}
    (hcut : cutScheme? (clean t.toList) = some (scheme, rest))
    (htext : authorityText rest = text ++ controls) (hne : controls ≠ [])
    (hcontrol : ∀ c ∈ controls, c.toNat ≤ 32) : ¬∃ v, webUrl t = .ok v := by
  rintro ⟨v, hv⟩
  obtain ⟨hspecial, rest', hcut', behind, a, ha, -⟩ := webUrl_eq_ok hv
  obtain ⟨rfl, rfl⟩ := Prod.mk.inj (Option.some.inj (hcut'.symm.trans hcut))
  rw [htext] at ha
  obtain ⟨c, hc⟩ := Option.ne_none_iff_exists'.mp (mt List.getLast?_eq_none_iff.mp hne)
  have hlast : (text ++ controls).getLast? = some c := by
    rw [List.getLast?_append, hc, Option.some_or]
  exact not_control_of_authority? hspecial ha hlast (hcontrol c (List.mem_of_getLast? hc))

/-- Of the controls at the end of a trimmed text the last is neither a tab nor a line end. -/
theorem not_tab_of_trim {s : String} (htrim : trim s = s) {c : Char}
    (hc : s.toList.getLast? = some c) : isTabOrNewline c = false := by
  rw [← htrim, trim, String.toList_ofList] at hc
  have hblank := not_blank_of_getLast?_trimChars hc
  rw [Bool.eq_false_iff]
  intro htab
  rcases isTabOrNewline_cases htab with rfl | rfl | rfl
  all_goals exact absurd hblank (by decide)

/-- **A path that is put behind a web URL leads to its scheme and authority, unless the URL is
exposed.** Then it leads nowhere. The text of the URL has no blanks at its end. -/
theorem webUrl_joinText {base : String} {u : Url} (hbase : webUrl base = .ok u)
    (htrim : trim base = base) (path : String) :
    (¬Exposed base → ∃ v, webUrl (joinText base path) = .ok v ∧ v.scheme = u.scheme ∧
      v.authority = u.authority) ∧
    (Exposed base → ∃ message, webUrl (joinText base path) = .error (.configuration message)) := by
  obtain ⟨hspecial, rest, hcut, behind, a, ha, -⟩ := webUrl_eq_ok hbase
  have hne : authorityText rest ≠ [] := authority?_ne_nil hspecial ha
  have hjoined : (joinText base path).toList =
      dropEndWhile (· = '/') base.toList ++ '/' :: path.toList.dropWhile (· = '/') := by
    rw [joinText, String.toList_ofList]
  obtain ⟨common, slashes, controls, hclean, hcleanJoined, hslash, hcontrol, hnone, hsome⟩ :=
    clean_join (exists_head_of_cutScheme? hcut) (path.toList.dropWhile (· = '/'))
  generalize cleanEnd (path.toList.dropWhile (· = '/')) = below at hcleanJoined
  rw [← hjoined, List.append_assoc] at hcleanJoined
  obtain ⟨more, rfl, hcutJoined⟩ := cutScheme?_append hslash (hclean ▸ hcut)
  have hcut' := hcutJoined (controls ++ '/' :: below)
  rw [← hcleanJoined] at hcut'
  by_cases hends : EndsInControl base.toList
  · obtain ⟨hcontrols, rfl⟩ := hsome hends fun c hc => not_tab_of_trim htrim hc
    rw [List.append_nil] at hcut hne
    have htext := authorityText_append_controls hne hcontrol below
    by_cases hbehind : behindAuthority more = []
    · -- nothing ends the authority in front of the controls
      rw [if_pos hbehind] at htext
      refine ⟨fun hnot => absurd ⟨hends, _, _, hcut, hbehind⟩ hnot, fun _ => ?_⟩
      exact webUrl_error (not_webUrl_of_controls hcut' htext hcontrols hcontrol)
    · rw [if_neg hbehind] at htext
      refine ⟨fun _ => webUrl_of_authorityText hbase hcut hcut' htext, ?_⟩
      rintro ⟨-, scheme, rest, hcut'', hnil⟩
      obtain ⟨-, rfl⟩ := Prod.mk.inj (Option.some.inj (hcut''.symm.trans hcut))
      exact absurd hnil hbehind
  · rw [hnone hends, List.nil_append] at hcut'
    have htext := authorityText_append_slash below hslash hne
    exact ⟨fun _ => webUrl_of_authorityText hbase hcut hcut' htext,
      fun hexposed => absurd hexposed.1 hends⟩

end Request

namespace OpenAi

open Url Request

variable {d : Datasource}

/-- The URL of a datasource has no blanks around it. -/
theorem trim_baseUrl (d : Datasource) : trim (baseUrl d) = baseUrl d := by
  unfold baseUrl
  dsimp only
  split
  · decide +kernel
  · exact trim_trim _

theorem baseUrl_ne_empty (d : Datasource) : baseUrl d ≠ "" := by
  unfold baseUrl
  dsimp only
  split
  · decide
  · rename_i hne
    exact fun heq => hne (beq_iff_eq.mpr heq)

/-- The URL of a datasource that was found valid is one of the web. -/
theorem exists_webUrl_of_invalids (h : connector.invalids d = []) :
    ∃ u, webUrl (baseUrl d) = .ok u := by
  have hread : joinUrl (some (baseUrl d)) none = webUrl (baseUrl d) := by
    have hne : ¬(baseUrl d == "") = true := by
      rw [beq_iff_eq]
      exact baseUrl_ne_empty d
    have hpath : trim "" = "" := by decide +kernel
    unfold joinUrl
    dsimp only [Option.getD_some, Option.getD_none]
    rw [hpath, trim_baseUrl, if_neg (by decide +kernel), if_neg hne, if_pos (by decide)]
  cases hurl : webUrl (baseUrl d) with
  | ok u => exact ⟨u, rfl⟩
  | error f =>
    have hlisted : s!"Invalid URL: {f.message}." ∈ connector.invalids d := by
      show _ ∈ TextSet.union [] _
      rw [TextSet.mem_union, hread, hurl]
      exact .inr (List.mem_append_right _ List.mem_cons_self)
    exact absurd h (List.ne_nil_of_mem hlisted)

theorem joinUrl_modelsPath {u : Url} (hbase : webUrl (baseUrl d) = .ok u) :
    joinUrl (some (baseUrl d)) (some modelsPath) = webUrl (joinText (baseUrl d) modelsPath) := by
  have htrim : trim modelsPath = modelsPath := by decide +kernel
  have hbelow : trim modelsPath ≠ "" → joinUrl (some (baseUrl d)) (some modelsPath) =
      webUrl (joinText (trim (baseUrl d)) (trim modelsPath)) :=
    (joinUrl_below (by rw [trim_baseUrl]; exact hbase) (by decide +kernel)).2
  rw [trim_baseUrl, htrim] at hbelow
  exact hbelow (by decide)

/-- What comes of the requests for the models: of the test, of every discovery that there is a
command for, and of the task of that name. -/
structure Requests (d : Datasource) (result : Except Failure Url) : Prop where
  test : (connector.testRequest d).map (Option.map Request.url) = result.map some
  discovery : ∀ (q : DiscoveryRequest) (command : Command),
    connector.selectDiscovery q = .ok command →
      (command.buildDiscovery d q).map Request.url = result
  listModels : ∀ (a : Action) (i : Invocation),
    (Task.listModels.command.build a d i).map Request.url = result

theorem request_url (method : Method) (d : Datasource) (path : String) (body : Body)
    (headers : List Property) : (request method d path body headers).map Request.url =
      joinUrl (some (baseUrl d)) (some path) := by
  unfold request
  cases joinUrl (some (baseUrl d)) (some path) <;> rfl

/-- They all go to the same URL, or fail for the same reason. -/
theorem requests_joinUrl (d : Datasource) :
    Requests d (joinUrl (some (baseUrl d)) (some modelsPath)) where
  test := by
    have htest : connector.testRequest = testRequest := by
      unfold connector
      rfl
    rw [htest, testRequest]
    cases joinUrl (some (baseUrl d)) (some modelsPath) <;> rfl
  discovery := fun q command h => by
    rw [connector_selectDiscovery, selectDiscovery] at h
    cases htask : Task.ofDiscovery? q with
    | error f =>
      rw [htask] at h
      cases h
    | ok task =>
      rw [htask] at h
      cases h
      exact request_url _ _ _ _ _
  listModels := fun a i => request_url _ _ _ _ _

/-- **When a valid datasource is usable.** If nothing is wrong with a datasource, its URL is one of
the web. Unless that is exposed, the test, every discovery and the list of models have a request,
and all go to one URL with the scheme, the host and the port of the datasource's. If it is
exposed, none of them has a request. -/
theorem connector_usable (h : connector.invalids d = []) : ∃ u, webUrl (baseUrl d) = .ok u ∧
    (¬Exposed (baseUrl d) → ∃ v, Requests d (.ok v) ∧ v.scheme = u.scheme ∧
      v.authority = u.authority) ∧
    (Exposed (baseUrl d) → ∃ message, Requests d (.error (.configuration message))) := by
  obtain ⟨u, hbase⟩ := exists_webUrl_of_invalids h
  have hrequests := requests_joinUrl d
  rw [joinUrl_modelsPath hbase] at hrequests
  obtain ⟨husable, hexposed⟩ := webUrl_joinText hbase (trim_baseUrl d) modelsPath
  refine ⟨u, hbase, fun hnot => ?_, fun hcontrol => ?_⟩
  · obtain ⟨v, hv, hscheme, hauthority⟩ := husable hnot
    rw [hv] at hrequests
    exact ⟨v, hrequests, hscheme, hauthority⟩
  · obtain ⟨message, hmessage⟩ := hexposed hcontrol
    rw [hmessage] at hrequests
    exact ⟨message, hrequests⟩

/-- A datasource with a key and this URL. -/
def keyed (url : String) : Datasource :=
  { url := some url, credential := some (.bearer ⟨"k"⟩) }

/-- Behind a slash a control does no harm. -/
theorem connector_usable_slash :
    connector.invalids (keyed "https://x.test/\x01") = [] ∧
      ¬Exposed (baseUrl (keyed "https://x.test/\x01")) ∧
      ∃ v, Requests (keyed "https://x.test/\x01") (.ok v) ∧ v.scheme = "https" ∧
        v.authority = some { host := some (.domain "x.test") } := by
  have hvalid : connector.invalids (keyed "https://x.test/\x01") = [] := by decide +kernel
  have hread : webUrl (baseUrl (keyed "https://x.test/\x01")) = .ok
      ⟨"https", some { host := some (.domain "x.test") }, "/", none, none⟩ :=
    except_eq_ok_of_toOption (by decide +kernel)
  have hnot : ¬Exposed (baseUrl (keyed "https://x.test/\x01")) := by
    rintro ⟨-, scheme, rest, hcut, hnil⟩
    have hslash : cutScheme? (clean (baseUrl (keyed "https://x.test/\x01")).toList) =
        some ("https", "//x.test/".toList) := by decide +kernel
    cases hslash.symm.trans hcut
    exact absurd hnil (by decide)
  obtain ⟨u, hu, husable, -⟩ := connector_usable hvalid
  cases hread.symm.trans hu
  exact ⟨hvalid, hnot, husable hnot⟩

/-- Not every valid datasource is usable: a control behind the host passes alone, but not in front
of a path. -/
theorem connector_not_usable :
    ¬∀ d : Datasource, connector.invalids d = [] → ∃ r, connector.testRequest d = .ok r := by
  intro h
  obtain ⟨r, hr⟩ := h (keyed "https://x.test\x01") (by decide +kernel)
  have hnone : (connector.testRequest (keyed "https://x.test\x01")).toOption = none := by
    decide +kernel
  rw [hr] at hnone
  cases hnone

end OpenAi

end Relay
