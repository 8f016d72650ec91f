import LlamaAgents.ControlPlane.GitNetwork

/-!
# What the git proxy asks for

The proxy of the build API puts a git path after the URL of a repository and asks for the result with the credentials of the
deployment. Whether the URL, with its dot segments removed, lies in the repository depends on the URL of the repository, whose query
would take in the git path, and on the git path, which the pattern lets step up once it is below `objects/`.
-/

namespace LlamaAgents.GitNetwork

open Lib (Uri NoDots removeDotSegments segments stepsAbove)

/-- The path of a repository, without the slashes at its end. -/
def repositoryPath (repoUrl : List Char) : List Char := (Uri.parse repoUrl).path.rdropWhile (· = '/')

/-- Some request for a git path makes the proxy ask for a URL. -/
def Asks (repoUrl gitPath url : List Char) : Prop :=
  ∃ env now deploymentId pat query st auth, (proxyGitRequest env now deploymentId pat repoUrl gitPath query st).1 =
    .ok (.upstream url auth)

/-- A URL has the host of a repository, and a path below the path of the repository. -/
def LiesIn (repoUrl url : List Char) : Prop :=
  hostname url = hostname repoUrl ∧ repositoryPath repoUrl ++ ['/'] <+: removeDotSegments (Uri.parse url).path

/-- The path of a repository has no dot segments, and neither a query nor a fragment takes in what is put after it, unless the path
ends with a slash already. -/
def ConfinesPaths (repoUrl : List Char) : Prop :=
  NoDots (repositoryPath repoUrl) ∧ ((∀ c ∈ repoUrl, Uri.endsPath c = false) ∨ (Uri.parse repoUrl).path.getLast? = some '/')

/-- The segments of a git path never lead above the place where it starts. -/
def StaysBelow (gitPath : List Char) : Prop := stepsAbove [] (segments (Uri.pathPart gitPath)) = false

namespace ProxyAux

/-- A URL with a host name has an authority. -/
theorem authority_of_hostname {url : List Char} (h : hostname url ≠ []) : ∃ a, (Uri.parse url).authority = some a ∧ a ≠ [] := by
  unfold hostname at h
  cases ha : (Uri.parse url).authority with
  | none =>
    rw [ha] at h
    exact absurd rfl h
  | some a =>
    refine ⟨a, rfl, ?_⟩
    rintro rfl
    rw [ha] at h
    exact absurd rfl h

theorem hostname_congr {url url' : List Char} (h : (Uri.parse url).authority = (Uri.parse url').authority) :
    hostname url = hostname url' := by
  unfold hostname
  rw [h]

/-- The target has the host of the repository. -/
theorem hostname_targetUrl {repoUrl : List Char} (h : hostname repoUrl ≠ []) (gitPath query : List Char) :
    hostname (targetUrl repoUrl gitPath query) = hostname repoUrl := by
  obtain ⟨a, ha, hne⟩ := authority_of_hostname h
  obtain ⟨-, p, -, -, -, -, happend⟩ := Uri.parse_append ha hne
  refine hostname_congr ?_
  rw [targetUrl, happend, ha]

/-- The path of the target is the path of the repository, a slash and the git path up to its query. -/
theorem path_targetUrl {repoUrl : List Char} (h : hostname repoUrl ≠ []) (hplain : ∀ c ∈ repoUrl, Uri.endsPath c = false)
    (gitPath query : List Char) :
    (Uri.parse (targetUrl repoUrl gitPath query)).path = repositoryPath repoUrl ++ '/' :: Uri.pathPart gitPath := by
  obtain ⟨a, ha, hne⟩ := authority_of_hostname h
  rw [targetUrl, Uri.parse_append_plain ha hne hplain, repositoryPath]
  split
  · rw [List.append_nil]
  · rw [Uri.pathPart_ends rfl]

/-- The path of a repository is empty or starts with a slash, as the path of its URL does. -/
theorem repositoryPath_slash {repoUrl : List Char} (h : hostname repoUrl ≠ []) :
    repositoryPath repoUrl = [] ∨ ∃ p, repositoryPath repoUrl = '/' :: p := by
  obtain ⟨a, ha, hne⟩ := authority_of_hostname h
  cases hp : repositoryPath repoUrl with
  | nil => exact .inl rfl
  | cons c p =>
    have hcut : repositoryPath repoUrl <+: (Uri.parse repoUrl).path := List.rdropWhile_prefix _ _
    obtain ⟨t, ht⟩ := hp ▸ hcut
    rcases Uri.path_slash ha hne with hpath | ⟨q, hpath⟩
    · rw [hpath] at ht
      cases ht
    · rw [hpath] at ht
      exact .inr ⟨p, by rw [(List.cons.inj ht).1]⟩

theorem noDots_cons {p : List Char} (h : NoDots ('/' :: p)) : NoDots p := by
  intro s hs
  refine h s ?_
  have hsegments := Lib.segments_append [] p
  rw [List.nil_append] at hsegments
  exact hsegments ▸ List.mem_append_right _ hs

/-- What lies below a path has the dot segments of that path. -/
theorem noDots_of_isPrefix {p q : List Char} (h : p ++ ['/'] <+: q) (hq : NoDots q) : NoDots p := by
  obtain ⟨t, rfl⟩ := h
  intro s hs
  refine hq s ?_
  rw [List.append_assoc, List.singleton_append, Lib.segments_append]
  exact List.mem_append_left _ hs

/-- The base of a path without dot segments. -/
theorem base_of_noDots {repoUrl : List Char} (h : hostname repoUrl ≠ []) (hdots : NoDots (repositoryPath repoUrl)) :
    repositoryPath repoUrl = [] ∨ ∃ p, repositoryPath repoUrl = '/' :: p ∧ NoDots p := by
  rcases repositoryPath_slash h with hnil | ⟨p, hp⟩
  · exact .inl hnil
  · exact .inr ⟨p, hp, noDots_cons (hp ▸ hdots)⟩

/-- Slashes at the end of a path add no dot segments to it. -/
theorem noDots_of_rdropWhile {p : List Char} (h : NoDots (p.rdropWhile (· = '/'))) : NoDots p := by
  induction p using List.reverseRecOn with
  | nil => exact h
  | append_singleton p c ih =>
    rw [List.rdropWhile_concat] at h
    split at h
    · case isTrue hc =>
      obtain rfl : c = '/' := of_decide_eq_true hc
      intro s hs
      rw [Lib.segments_append] at hs
      rcases List.mem_append.1 hs with hs | hs
      · exact ih h s hs
      · obtain rfl : s = [] := by simpa [segments] using hs
        exact ⟨by simp, by simp⟩
    · exact h

/-- A path that ends with a slash lies below the path without its slashes. -/
theorem isPrefix_of_getLast {p : List Char} (h : p.getLast? = some '/') : p.rdropWhile (· = '/') ++ ['/'] <+: p := by
  induction p using List.reverseRecOn with
  | nil => cases h
  | append_singleton p c ih =>
    obtain rfl : c = '/' := by simpa using h
    rw [List.rdropWhile_concat_pos _ _ _ (by decide)]
    by_cases hlast : p.getLast? = some '/'
    · exact (ih hlast).trans (List.prefix_append _ _)
    · have hself : p.rdropWhile (· = '/') = p := by
        rw [List.rdropWhile_eq_self_iff]
        intro hne hslash
        exact hlast ((List.getLast?_eq_some_getLast hne).trans (congrArg some (of_decide_eq_true hslash)))
      exact hself.symm ▸ List.prefix_rfl

/-- The path of a URL with a query or a fragment takes nothing from the git path. -/
theorem path_targetUrl_query {repoUrl : List Char} (h : hostname repoUrl ≠ []) (hquery : ¬∀ c ∈ repoUrl, Uri.endsPath c = false)
    (gitPath query : List Char) : (Uri.parse (targetUrl repoUrl gitPath query)).path = (Uri.parse repoUrl).path := by
  obtain ⟨a, ha, hne⟩ := authority_of_hostname h
  exact Uri.path_append_query ha hne hquery _

variable {env : GitEnvironment} {now : Nat} {deploymentId : List Char} {pat : Option (List Char)} {repoUrl gitPath query : List Char}
variable {st : GitState}

/-- A request that goes upstream passed the check of the host, and asks for the target. -/
theorem proxyGitRequest_upstream {url : List Char} {auth : Option (List Char × List Char)}
    (h : (proxyGitRequest env now deploymentId pat repoUrl gitPath query st).1 = .ok (.upstream url auth)) :
    hostname repoUrl ≠ [] ∧ url = targetUrl repoUrl gitPath query := by
  unfold proxyGitRequest at h
  split at h
  · split at h
    · cases h
    · cases h
  · split at h
    · cases h
    · split at h
      · cases h
      · case h_2 heq =>
        have hhost : hostname repoUrl ≠ [] := by
          intro hhost
          rw [validateUrlNotPrivate, if_pos hhost] at heq
          cases heq
        split at h
        · cases h
        · cases h
        · cases h
          exact ⟨hhost, rfl⟩

/-- A URL that lies in a repository shows that the path of the repository has no dot segments. -/
theorem noDots_of_liesIn {url : List Char} (hhost : hostname url ≠ []) (h : LiesIn repoUrl url) : NoDots (repositoryPath repoUrl) := by
  obtain ⟨a, ha, hne⟩ := authority_of_hostname hhost
  rcases Uri.path_slash ha hne with hpath | ⟨q, hpath⟩
  · have hnil := h.2
    rw [hpath, removeDotSegments, List.prefix_nil] at hnil
    · exact absurd hnil (by simp)
    · simp
  · exact noDots_of_isPrefix h.2 (hpath ▸ Lib.noDots_removeDotSegments q)

/-- With a query or a fragment the URL lies in the repository only by a slash that its own path ends with. -/
theorem isPrefix_query_iff (hhost : hostname repoUrl ≠ []) (hdots : NoDots (repositoryPath repoUrl)) :
    repositoryPath repoUrl ++ ['/'] <+: removeDotSegments (Uri.parse repoUrl).path ↔ (Uri.parse repoUrl).path.getLast? = some '/' := by
  have hkept : removeDotSegments (Uri.parse repoUrl).path = (Uri.parse repoUrl).path := by
    have hwhole : NoDots (Uri.parse repoUrl).path := noDots_of_rdropWhile hdots
    obtain ⟨a, ha, hne⟩ := authority_of_hostname hhost
    rcases Uri.path_slash ha hne with hpath | ⟨q, hpath⟩
    · rw [hpath]
      rfl
    · rw [hpath] at hwhole ⊢
      exact Lib.removeDotSegments_of_noDots (noDots_cons hwhole)
  rw [hkept]
  refine ⟨fun h => ?_, isPrefix_of_getLast⟩
  by_contra hlast
  have hself : repositoryPath repoUrl = (Uri.parse repoUrl).path := by
    rw [repositoryPath, List.rdropWhile_eq_self_iff]
    intro hne hslash
    exact hlast ((List.getLast?_eq_some_getLast hne).trans (congrArg some (of_decide_eq_true hslash)))
  have hlength := h.length_le
  rw [hself, List.length_append] at hlength
  exact absurd hlength (by simp)

/-- What the proxy asks for lies in the repository, when its URL confines paths and the git path stays below its start. -/
theorem liesIn_of_confines (hhost : hostname repoUrl ≠ []) (hconfines : ConfinesPaths repoUrl) (hstays : StaysBelow gitPath) :
    LiesIn repoUrl (targetUrl repoUrl gitPath query) := by
  refine ⟨hostname_targetUrl hhost gitPath query, ?_⟩
  by_cases hplain : ∀ c ∈ repoUrl, Uri.endsPath c = false
  · rw [path_targetUrl hhost hplain]
    exact Lib.isPrefix_removeDotSegments (base_of_noDots hhost hconfines.1) hstays
  · rw [path_targetUrl_query hhost hplain]
    exact (isPrefix_query_iff hhost hconfines.1).2 (hconfines.2.resolve_left hplain)

theorem confines_of_liesIn (hhost : hostname repoUrl ≠ []) (h : LiesIn repoUrl (targetUrl repoUrl gitPath query)) :
    ConfinesPaths repoUrl := by
  have hdots := noDots_of_liesIn (by rwa [h.1]) h
  refine ⟨hdots, or_iff_not_imp_left.2 fun hquery => ?_⟩
  rw [← isPrefix_query_iff hhost hdots, ← path_targetUrl_query hhost hquery gitPath query]
  exact h.2

end ProxyAux

namespace ProxyWitness

open ProxyAux

/-- A network in which every name has one public address, and every remote serves. -/
def openNetwork : GitEnvironment where
  dns _ _ := some [⟨16843009, false, false, false, false⟩]
  tried _ := 1
  remote _ := true
  redirects _ := []
  github _ _ := .inaccessible ""
  installationToken _ := []
  hasStorage := false

def repoUrl : List Char := "https://git.host/team/repo".toList

theorem proxied (gitPath query : List Char) (hpath : validateGitPath gitPath = .ok ()) :
    (proxyGitRequest openNetwork 0 [] none repoUrl gitPath query {}).1 = .ok (.upstream (targetUrl repoUrl gitPath query) none) := by
  rw [proxyGitRequest, if_neg (by decide), hpath]
  rfl

/-- A repository at the top of the host. -/
def topUrl (name : Char) : List Char := "https://git.host/".toList ++ [name]

section TopUrl

variable {name : Char} (hname : name = 'a' ∨ name = 'b') {gitPath : List Char}

include hname

theorem asks_topUrl (hpath : validateGitPath gitPath = .ok ()) : Asks (topUrl name) gitPath (targetUrl (topUrl name) gitPath []) := by
  refine ⟨openNetwork, 0, [], none, [], {}, none, ?_⟩
  rcases hname with rfl | rfl
  · rw [proxyGitRequest, if_neg (by decide), hpath]
    rfl
  · rw [proxyGitRequest, if_neg (by decide), hpath]
    rfl

theorem topUrl_plain : ∀ c ∈ topUrl name, Uri.endsPath c = false := by
  have hall : (topUrl name).all (fun c => !Uri.endsPath c) = true := by
    rcases hname with rfl | rfl
    · decide
    · decide
  simpa using hall

theorem topUrl_confines : ConfinesPaths (topUrl name) := by
  refine ⟨?_, .inl (topUrl_plain hname)⟩
  unfold NoDots
  rcases hname with rfl | rfl
  · decide
  · decide

/-- What a URL below a repository at the top says about the git path. -/
theorem isPrefix_of_topUrl (h : LiesIn (topUrl name) (targetUrl (topUrl name) gitPath [])) :
    ['/', name, '/'] <+: '/' :: Lib.joinSegments (Lib.resolveDots [[name]] (segments (Uri.pathPart gitPath))) := by
  have hin := h.2
  have hhost : hostname (topUrl name) ≠ [] := by
    rcases hname with rfl | rfl
    · decide
    · decide
  have hbase : repositoryPath (topUrl name) = ['/', name] := by
    rcases hname with rfl | rfl
    · decide
    · decide
  have hsegments : ∀ m, segments (name :: '/' :: m) = [name] :: segments m := by
    intro m
    change ([name] ++ '/' :: m).splitOn '/' = _
    refine List.splitOn_append_cons_self_of_not_mem ?_ m
    rcases hname with rfl | rfl
    · decide
    · decide
  have hnoDot : ∀ s ∈ [[name]], s ≠ ['.'] ∧ s ≠ ['.', '.'] := by
    rcases hname with rfl | rfl
    · decide
    · decide
  rw [path_targetUrl hhost (topUrl_plain hname), hbase] at hin
  simp only [List.cons_append, List.nil_append, removeDotSegments] at hin
  rwa [hsegments, ← List.singleton_append (x := [name]), Lib.resolveDots_append hnoDot (Lib.segments_ne_nil _)] at hin

end TopUrl

/-- A git path that leads above its start leads to one place from both repositories, so it leaves one of them. -/
theorem staysBelow_of_topUrl {gitPath : List Char} (ha : LiesIn (topUrl 'a') (targetUrl (topUrl 'a') gitPath []))
    (hb : LiesIn (topUrl 'b') (targetUrl (topUrl 'b') gitPath [])) : StaysBelow gitPath := by
  by_contra habove
  rw [StaysBelow, Bool.not_eq_false] at habove
  obtain ⟨t, ht⟩ := isPrefix_of_topUrl (.inl rfl) ha
  obtain ⟨t', ht'⟩ := isPrefix_of_topUrl (.inr rfl) hb
  have hsame : Lib.resolveDots [['a']] (segments (Uri.pathPart gitPath)) = Lib.resolveDots [['b']] (segments (Uri.pathPart gitPath)) :=
    Lib.resolveDots_above habove ['a'] ['b']
  rw [hsame, ← ht'] at ht
  simp at ht

end ProxyWitness

open ProxyAux ProxyWitness

/-- What the proxy asks for always has the host of the repository. It lies below the path of the repository, with the dot segments
removed, only where the URL of the repository confines paths; and of the accepted git paths, those that never lead above their start
are the ones that stay in all such repositories. -/
theorem proxied_url_in_repository (gitPath : List Char) (hpath : validateGitPath gitPath = .ok ()) :
    (∀ repoUrl url, Asks repoUrl gitPath url → hostname url = hostname repoUrl ∧ (LiesIn repoUrl url → ConfinesPaths repoUrl)) ∧
      (StaysBelow gitPath ↔ ∀ repoUrl url, ConfinesPaths repoUrl → Asks repoUrl gitPath url → LiesIn repoUrl url) := by
  refine ⟨?_, fun hstays => ?_, fun h => ?_⟩
  · rintro repoUrl url ⟨env, now, deploymentId, pat, query, st, auth, h⟩
    obtain ⟨hhost, rfl⟩ := proxyGitRequest_upstream h
    exact ⟨hostname_targetUrl hhost gitPath query, confines_of_liesIn hhost⟩
  · rintro repoUrl url hconfines ⟨env, now, deploymentId, pat, query, st, auth, h⟩
    obtain ⟨hhost, rfl⟩ := proxyGitRequest_upstream h
    exact liesIn_of_confines hhost hconfines hstays
  · exact staysBelow_of_topUrl (h _ _ (topUrl_confines (.inl rfl)) (asks_topUrl (.inl rfl) hpath))
      (h _ _ (topUrl_confines (.inr rfl)) (asks_topUrl (.inr rfl) hpath))

open ProxyWitness in
/-- An object that is asked for by way of another directory stays in every repository. -/
theorem proxied_url_in_repository_object : StaysBelow "objects/a/../b".toList ∧ ∀ repoUrl url, ConfinesPaths repoUrl →
    Asks repoUrl "objects/a/../b".toList url → LiesIn repoUrl url :=
  have hstays : StaysBelow "objects/a/../b".toList := by unfold StaysBelow; decide
  ⟨hstays, (proxied_url_in_repository "objects/a/../b".toList (if_pos (by decide))).2.1 hstays⟩

open ProxyWitness in
/-- The pattern lets a path below `objects/` step up: with the credentials of one repository the proxy asks for another one. -/
theorem proxied_url_in_repository_false :
    (proxyGitRequest openNetwork 0 [] none repoUrl "objects/../../../other/repo/info/refs".toList [] {}).1 =
        .ok (.upstream (targetUrl repoUrl "objects/../../../other/repo/info/refs".toList []) none) ∧
      removeDotSegments (Uri.parse (targetUrl repoUrl "objects/../../../other/repo/info/refs".toList [])).path =
        "/other/repo/info/refs".toList ∧
      ¬repositoryPath repoUrl ++ ['/'] <+: "/other/repo/info/refs".toList :=
  ⟨proxied _ _ (if_pos (by decide)), by decide, by decide⟩

end LlamaAgents.GitNetwork
